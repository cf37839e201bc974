import CocoDB.Query.Meaning

/-!
# Readable documents

Views on which every accessor comes back, as it does on what the encoder wrote:
on them every expression has a value.
-/

namespace CocoDB.Query

open Lib Cson
open Index (Runtime)

/-- `Get` without the flag it returns beside the value. -/
def valueAt (view : DocumentView) (field : Bytes) : Option Value :=
  match getValue view field with
  | .ok stored => stored
  | _ => none

theorem Reads.valueAt_eq {view : DocumentView} {field : Bytes}
    {stored : Option Value} (reads : Reads view field stored) :
    valueAt view field = stored := by
  rw [valueAt, reads.get]

def toMap (view : DocumentView) : Outcome Document :=
  view.toMap (view.data.length + 1)

structure Readable (view : DocumentView) : Prop where
  reads : ∀ field, Reads view field (valueAt view field)
  maps : ∃ doc, toMap view = .ok doc

theorem readable_encoded {dict : FieldDictionary} {payload : Bytes}
    {doc : Document} (encoded : Encoded dict payload doc)
    (wellFormed : dict.WellFormed) : Readable (viewOf dict payload) := by
  constructor
  · intro field
    have reads := reads_encoded encoded wellFormed field
    have value : valueAt (viewOf dict payload) field =
        fieldValue dict payload field := by
      rw [valueAt, reads.get]
    rw [value]
    exact reads
  · obtain ⟨headed, entry⟩ := encoded.entry
    apply toMapFrom_ok
    · simpa [viewOf] using headed.2.2
    · apply (toMapFrom_returns_iff (by simpa [viewOf] using headed.2.2)).mpr
      intro index _ before _
      rw [Nat.zero_add] at before
      obtain ⟨origin, member, _, typed, passes, flat, content⟩ :=
        entry index before
      exact ⟨flat, decode_returns encoded wellFormed member typed passes flat
        content⟩

section Evaluation

variable {view : DocumentView}

theorem Readable.evaluates_leaf (readable : Readable view) (runtime : Runtime)
    {field : Bytes} (val : Value) :
    (∃ result, evaluateEq runtime view field val = .ok result) ∧
    (∃ result, evaluateNe runtime view field val = .ok result) ∧
    ∀ holds test, ∃ result,
      evaluateOrder runtime view holds test field val = .ok result := by
  have reads := readable.reads field
  have equal := @evaluate_eq runtime view field _ reads val
  have unequal := @evaluate_ne runtime view field _ reads val
  simp only [evaluate] at equal unequal
  exact ⟨⟨_, equal⟩, ⟨_, unequal⟩, fun holds test =>
    ⟨_, evaluateOrder_reads reads holds test val⟩⟩

mutual

theorem Readable.evaluates (readable : Readable view) (runtime : Runtime) :
    (expr : Expression) →
    ∃ result, evaluate runtime view expr = .ok result
  | .eq field val => by
      rw [evaluate]
      exact (readable.evaluates_leaf runtime val).1
  | .ne field val => by
      rw [evaluate]
      exact (readable.evaluates_leaf runtime val).2.1
  | .gt field val => by
      rw [evaluate]
      exact (readable.evaluates_leaf runtime val).2.2 _ _
  | .gte field val => by
      rw [evaluate]
      exact (readable.evaluates_leaf runtime val).2.2 _ _
  | .lt field val => by
      rw [evaluate]
      exact (readable.evaluates_leaf runtime val).2.2 _ _
  | .lte field val => by
      rw [evaluate]
      exact (readable.evaluates_leaf runtime val).2.2 _ _
  | .between field low high =>
      ⟨_, evaluate_between (readable.reads field) low high⟩
  | .isIn field vals => ⟨_, evaluate_isIn (readable.reads field) vals⟩
  | .and exprs => by
      rw [evaluate]
      exact (Readable.evaluatesList readable runtime exprs).1
  | .or exprs => by
      rw [evaluate]
      exact (Readable.evaluatesList readable runtime exprs).2
  | .not expr => by
      obtain ⟨result, found⟩ := Readable.evaluates readable runtime expr
      rw [evaluate, found]
      exact ⟨_, rfl⟩
  | .contains field substr => by
      rw [evaluate, evaluateContains, DocumentView.string,
        (readable.reads field).text]
      exact ⟨_, rfl⟩
  | .startsWith field start => by
      rw [evaluate, evaluateStartsWith, DocumentView.string,
        (readable.reads field).text]
      exact ⟨_, rfl⟩

theorem Readable.evaluatesList (readable : Readable view)
    (runtime : Runtime) : (exprs : List Expression) →
    (∃ result, evaluateAll runtime view exprs = .ok result) ∧
      ∃ result, evaluateAny runtime view exprs = .ok result
  | [] => ⟨⟨true, rfl⟩, ⟨false, rfl⟩⟩
  | expr :: rest => by
      obtain ⟨result, found⟩ := Readable.evaluates readable runtime expr
      obtain ⟨⟨all, every⟩, ⟨any, one⟩⟩ :=
        Readable.evaluatesList readable runtime rest
      rw [evaluateAll, evaluateAny, found, every, one]
      cases result <;> exact ⟨⟨_, rfl⟩, ⟨_, rfl⟩⟩

end

end Evaluation

def selects (runtime : Runtime) (expr : Expression) (view : DocumentView) :
    Bool :=
  match evaluate runtime view expr with
  | .ok result => result
  | _ => false

section Selection

variable {view : DocumentView} (readable : Readable view) (runtime : Runtime)
include readable

theorem Readable.evaluate_eq (expr : Expression) :
    evaluate runtime view expr = .ok (selects runtime expr view) := by
  obtain ⟨result, found⟩ := readable.evaluates runtime expr
  rw [selects, found]

theorem Readable.evaluateAll_eq (exprs : List Expression) :
    evaluateAll runtime view exprs =
      .ok (exprs.all fun expr => selects runtime expr view) := by
  induction exprs with
  | nil => rfl
  | cons expr rest inductionHypothesis =>
      rw [evaluateAll, readable.evaluate_eq runtime expr, inductionHypothesis,
        List.all_cons]
      cases selects runtime expr view <;> rfl

end Selection

end CocoDB.Query
