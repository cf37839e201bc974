import CocoDB.Query.Fields

/-!
# What the predicates say

Every predicate on a field as a function of the stored value that `Get` returns.
-/

namespace CocoDB.Query

open Lib Cson
open Index (Runtime)

section Meaning

variable (runtime : Runtime)

def equalTo (stored : Option Value) (val : Value) : Bool :=
  match val with
  | .scalar (.string text) => textOf stored == some text
  | .scalar (.float64 bits) => (numberOf stored).any fun number =>
      Binary64.equal number bits
  | .scalar (.float32 bits) => (numberOf stored).any fun number =>
      Binary64.equal number (float64OfFloat32 bits)
  | .scalar (.int value) => integerOf stored == some value
  | .scalar (.int64 value) => integerOf stored == some value
  | .scalar (.bool value) => truthOf stored == some value
  | val =>
      match stored with
      | none => isNil val
      | some value => compareValues runtime value val == .eq

/-- `Ne` -/
def differs (stored : Option Value) (val : Value) : Bool :=
  match stored with
  | none => !isNil val
  | some value => compareValues runtime value val != .eq

def ordered (holds : UInt64 → UInt64 → Bool) (test : Ordering → Bool)
    (stored : Option Value) (val : Value) : Bool :=
  match floatVal val with
  | some bits => (numberOf stored).any fun number => holds number bits
  | none =>
      match stored with
      | none => false
      | some value => test (compareValues runtime value val)

/-- `Gt` -/
def above : Option Value → Value → Bool :=
  ordered runtime (fun number bits => Binary64.less bits number) Ordering.isGT

/-- `Gte` -/
def atLeast : Option Value → Value → Bool :=
  ordered runtime (fun number bits => Binary64.atMost bits number)
    Ordering.isGE

/-- `Lt` -/
def below : Option Value → Value → Bool :=
  ordered runtime Binary64.less Ordering.isLT

/-- `Lte` -/
def noMore : Option Value → Value → Bool :=
  ordered runtime Binary64.atMost Ordering.isLE

/-- `Between` -/
def within (stored : Option Value) (low high : Value) : Bool :=
  match stored with
  | none => false
  | some value => (compareValues runtime value low).isGE &&
      (compareValues runtime value high).isLE

/-- `In` -/
def among (stored : Option Value) (vals : List Value) : Bool :=
  match stored with
  | none => false
  | some value => vals.any fun target =>
      compareValues runtime value target == .eq

end Meaning

section Evaluation

variable {runtime : Runtime} {view : DocumentView} {field : Bytes}
  {stored : Option Value} (reads : Reads view field stored)
include reads

theorem evaluate_eq (val : Value) :
    evaluate runtime view (.eq field val) =
      .ok (equalTo runtime stored val) := by
  rw [evaluate]
  cases val with
  | scalar val =>
      cases val with
      | string text =>
          rw [evaluateEq, reads.text]
          rfl
      | float64 bits =>
          rw [evaluateEq, reads.number]
          rfl
      | float32 bits =>
          rw [evaluateEq, reads.number]
          rfl
      | int value =>
          rw [evaluateEq, reads.integer]
          rfl
      | int64 value =>
          rw [evaluateEq, reads.integer]
          rfl
      | bool value =>
          rw [evaluateEq, reads.truth]
          rfl
      | _ =>
          simp only [evaluateEq, equalTo, reads.get, Outcome.ok_bind]
          cases stored <;> rfl
  | _ =>
      simp only [evaluateEq, equalTo, reads.get, Outcome.ok_bind]
      cases stored <;> rfl

theorem evaluate_ne (val : Value) :
    evaluate runtime view (.ne field val) =
      .ok (differs runtime stored val) := by
  rw [evaluate, evaluateNe, reads.get]
  cases stored <;> rfl

theorem evaluateOrder_reads (holds : UInt64 → UInt64 → Bool)
    (test : Ordering → Bool) (val : Value) :
    evaluateOrder runtime view holds test field val =
      .ok (ordered runtime holds test stored val) := by
  simp only [evaluateOrder, ordered]
  cases floatVal val with
  | some bits =>
      simp only [reads.number]
      rfl
  | none =>
      simp only [reads.get]
      cases stored <;> rfl

theorem evaluate_gt (val : Value) :
    evaluate runtime view (.gt field val) = .ok (above runtime stored val) := by
  rw [evaluate]
  exact evaluateOrder_reads reads _ _ val

theorem evaluate_gte (val : Value) :
    evaluate runtime view (.gte field val) =
      .ok (atLeast runtime stored val) := by
  rw [evaluate]
  exact evaluateOrder_reads reads _ _ val

theorem evaluate_lt (val : Value) :
    evaluate runtime view (.lt field val) = .ok (below runtime stored val) := by
  rw [evaluate]
  exact evaluateOrder_reads reads _ _ val

theorem evaluate_lte (val : Value) :
    evaluate runtime view (.lte field val) =
      .ok (noMore runtime stored val) := by
  rw [evaluate]
  exact evaluateOrder_reads reads _ _ val

theorem evaluate_between (low high : Value) :
    evaluate runtime view (.between field low high) =
      .ok (within runtime stored low high) := by
  rw [evaluate, evaluateBetween, reads.get]
  cases stored <;> rfl

theorem evaluate_isIn (vals : List Value) :
    evaluate runtime view (.isIn field vals) =
      .ok (among runtime stored vals) := by
  rw [evaluate, evaluateIn, reads.get]
  cases stored <;> rfl

theorem evaluateAny_eq (vals : List Value) :
    evaluateAny runtime view (vals.map (Expression.eq field)) =
      .ok (vals.any fun val => equalTo runtime stored val) := by
  induction vals with
  | nil => rfl
  | cons val rest inductionHypothesis =>
      rw [List.map_cons, evaluateAny, evaluate_eq reads, inductionHypothesis,
        List.any_cons]
      cases equalTo runtime stored val <;> rfl

end Evaluation

section Combination

variable {runtime : Runtime} {view : DocumentView} {first second : Expression}
  {left right : Bool} (one : evaluate runtime view first = .ok left)
  (two : evaluate runtime view second = .ok right)
include one two

theorem evaluate_or :
    evaluate runtime view (.or [first, second]) = .ok (left || right) := by
  rw [evaluate, evaluateAny, one, evaluateAny, two, evaluateAny]
  cases left <;> cases right <;> rfl

theorem evaluate_and :
    evaluate runtime view (.and [first, second]) = .ok (left && right) := by
  rw [evaluate, evaluateAll, one, evaluateAll, two, evaluateAll]
  cases left <;> cases right <;> rfl

def Same (runtime : Runtime) (view : DocumentView)
    (first second : Expression) : Prop :=
  ∃ result, evaluate runtime view first = .ok result ∧
    evaluate runtime view second = .ok result

theorem same_iff : Same runtime view first second ↔ left = right := by
  constructor
  · rintro ⟨result, former, latter⟩
    rw [one] at former
    rw [two] at latter
    cases former
    cases latter
    rfl
  · rintro rfl
    exact ⟨left, one, two⟩

end Combination

end CocoDB.Query
