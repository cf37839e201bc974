import CocoDB.Query.Agreement
import CocoDB.Cson.Growth

/-!
# Derived predicates

`Ne`, `In`, `Between`, `Gte` and `Lte` in terms of the other predicates, for
every field of a stored document: the laws hold exactly where the two ways of
comparing agree.
-/

namespace CocoDB.Query

open Lib Cson
open Index (Runtime)

/-! ## The laws for a stored value -/

/-- `In` finds a value when `Eq` does for one of the operands. -/
def InAgrees (runtime : Runtime) (stored : Option Value)
    (vals : List Value) : Prop :=
  match stored with
  | none => ∀ val, val ∈ vals → isNil val = false
  | some value =>
      (∀ val, val ∈ vals → EqAgrees runtime value val) ∨
      ((∃ val, val ∈ vals ∧ compareValues runtime value val = .eq) ∧
        ∃ val, val ∈ vals ∧ equalTo runtime (some value) val = true)

/-- `Between` is `Gte` and `Lte`: both bounds agree, or the value is out of
range either way. -/
def BetweenAgrees (runtime : Runtime) (stored : Option Value)
    (low high : Value) : Prop :=
  match stored with
  | none => True
  | some value =>
      (LowAgrees runtime value low ∧ HighAgrees runtime value high) ∨
      (within runtime (some value) low high = false ∧
        ¬ (atLeast runtime (some value) low = true ∧
          noMore runtime (some value) high = true))

theorem closes_gte : Closes (fun number bits => Binary64.atMost bits number)
    (fun number bits => Binary64.less bits number) Ordering.isGE
    Ordering.isGT where
  split := fun number other => by
    rw [atMost_eq_or other number, Binary64.equal_comm]
  apart := fun same => by
    simp only [Binary64.equal, Binary64.less, decide_eq_true_eq,
      decide_eq_false_iff_not] at same ⊢
    omega
  tests := fun found => by cases found <;> rfl
  never := rfl

theorem closes_lte : Closes Binary64.atMost Binary64.less Ordering.isLE
    Ordering.isLT where
  split := atMost_eq_or
  apart := fun same => by
    simp only [Binary64.equal, Binary64.less, decide_eq_true_eq,
      decide_eq_false_iff_not] at same ⊢
    omega
  tests := fun found => by cases found <;> rfl
  never := rfl

section Laws

variable {runtime : Runtime} {stored : Option Value}
  (decoded : ∀ value, stored = some value → Decoded value)
  (number : ∀ value, stored = some value → Plain value)
include decoded number

theorem ne_iff {val : Value} (plain : Plain val) :
    differs runtime stored val = !equalTo runtime stored val ↔
      ∀ value, stored = some value → EqAgrees runtime value val := by
  cases stored with
  | none =>
      rw [equalTo_none]
      simp [differs]
  | some value =>
      have agree := @agree_iff runtime value (decoded value rfl)
        (number value rfl) val plain
      rw [Agree] at agree
      simp only [Option.some.injEq, forall_eq', ← agree, differs]
      cases equalTo runtime (some value) val <;>
        cases compareValues runtime value val <;> simp

theorem in_iff {vals : List Value} (plain : ∀ val, val ∈ vals → Plain val) :
    among runtime stored vals =
        (vals.any fun val => equalTo runtime stored val) ↔
      InAgrees runtime stored vals := by
  cases stored with
  | none =>
      simp only [among, equalTo_none, InAgrees]
      rw [eq_comm, List.any_eq_false]
      simp
  | some value =>
      have agree : ∀ val, val ∈ vals → (Agree runtime value val ↔
          EqAgrees runtime value val) := fun val member =>
        agree_iff (decoded value rfl) (number value rfl) (plain val member)
      rw [among, Bool.eq_iff_iff, List.any_eq_true, List.any_eq_true]
      simp only [InAgrees, beq_iff_eq]
      constructor
      · intro same
        by_cases found : ∃ val, val ∈ vals ∧
            compareValues runtime value val = .eq
        · exact .inr ⟨found, same.mp found⟩
        · left
          intro val member
          rw [← agree val member, Agree]
          constructor
          · intro equal
            exact absurd (same.mpr ⟨val, member, equal⟩) found
          · intro equal
            exact absurd ⟨val, member, equal⟩ found
      · rintro (each | ⟨found, equal⟩)
        · constructor
          · rintro ⟨val, member, equal⟩
            exact ⟨val, member, ((agree val member).mpr
              (each val member)).mpr equal⟩
          · rintro ⟨val, member, equal⟩
            exact ⟨val, member, ((agree val member).mpr
              (each val member)).mp equal⟩
        · exact iff_of_true found equal

theorem between_iff {low high : Value} (floor : Plain low)
    (ceiling : Plain high) :
    within runtime stored low high =
        (atLeast runtime stored low && noMore runtime stored high) ↔
      BetweenAgrees runtime stored low high := by
  cases stored with
  | none =>
      have silent : atLeast runtime none low = false := by
        simp only [atLeast, ordered]
        cases floatVal low <;> rfl
      simp [within, silent, BetweenAgrees]
  | some value =>
      have lower := @low_iff runtime value (decoded value rfl)
        (number value rfl) low floor
      have upper := @high_iff runtime value (decoded value rfl)
        (number value rfl) high ceiling
      simp only [BetweenAgrees, ← lower, ← upper, within]
      cases atLeast runtime (some value) low <;>
        cases noMore runtime (some value) high <;>
        cases (compareValues runtime value low).isGE <;>
        cases (compareValues runtime value high).isLE <;> simp

end Laws

/-! ## Stored documents -/

/-- For every field of a stored document and operands that are no NaN, the
derived predicates agree with the basic ones exactly as the tables say. -/
theorem derived_iff {dict : FieldDictionary} {payload : Bytes}
    {doc : Document} (encoded : Encoded dict payload doc)
    (wellFormed : dict.WellFormed) (runtime : Runtime) (field : Bytes)
    (number : ∀ value, fieldValue dict payload field = some value →
      Plain value) :
    newDocumentView payload dict = .ok (viewOf dict payload) ∧
    (∀ val, Plain val →
      (Same runtime (viewOf dict payload) (.ne field val)
          (.not (.eq field val)) ↔
        ∀ value, fieldValue dict payload field = some value →
          EqAgrees runtime value val)) ∧
    (∀ vals, (∀ val, val ∈ vals → Plain val) →
      (Same runtime (viewOf dict payload) (.isIn field vals)
          (.or (vals.map (.eq field))) ↔
        InAgrees runtime (fieldValue dict payload field) vals)) ∧
    (∀ low high, Plain low → Plain high →
      (Same runtime (viewOf dict payload) (.between field low high)
          (.and [.gte field low, .lte field high]) ↔
        BetweenAgrees runtime (fieldValue dict payload field) low high)) ∧
    (∀ val, Plain val →
      (Same runtime (viewOf dict payload) (.gte field val)
          (.or [.gt field val, .eq field val]) ↔
        OrEqAgrees runtime (fieldValue dict payload field) val)) ∧
    (∀ val, Plain val →
      (Same runtime (viewOf dict payload) (.lte field val)
          (.or [.lt field val, .eq field val]) ↔
        OrEqAgrees runtime (fieldValue dict payload field) val)) := by
  have reads := reads_encoded encoded wellFormed field
  have decoded := reads.decoded
  refine ⟨newDocumentView_ok dict encoded.entry.1, ?_, ?_, ?_, ?_, ?_⟩
  · intro val plain
    have negated : evaluate runtime (viewOf dict payload)
        (.not (.eq field val)) = .ok (!equalTo runtime
          (fieldValue dict payload field) val) := by
      rw [evaluate, evaluate_eq reads]
      rfl
    rw [same_iff (evaluate_ne reads val) negated]
    exact ne_iff decoded number plain
  · intro vals plain
    have any : evaluate runtime (viewOf dict payload)
        (.or (vals.map (.eq field))) = .ok (vals.any fun val =>
          equalTo runtime (fieldValue dict payload field) val) := by
      rw [evaluate]
      exact evaluateAny_eq reads vals
    rw [same_iff (evaluate_isIn reads vals) any]
    exact in_iff decoded number plain
  · intro low high floor ceiling
    rw [same_iff (evaluate_between reads low high)
      (evaluate_and (evaluate_gte reads low) (evaluate_lte reads high))]
    exact between_iff decoded number floor ceiling
  · intro val plain
    rw [same_iff (evaluate_gte reads val)
      (evaluate_or (evaluate_gt reads val) (evaluate_eq reads val))]
    exact closes_gte.iff decoded number plain
  · intro val plain
    rw [same_iff (evaluate_lte reads val)
      (evaluate_or (evaluate_lt reads val) (evaluate_eq reads val))]
    exact closes_lte.iff decoded number plain

/-! Documents with one field `a`. -/

def single (value : Scalar) : Document := [([0x61], .scalar value)]

def singleDict : FieldDictionary :=
  FieldDictionary.newFieldDictionary.assign [0x61]

def singlePayload (value : Scalar) : Bytes :=
  (written singleDict (.object (single value))).2

theorem single_wellFormed : singleDict.WellFormed :=
  FieldDictionary.newFieldDictionary_wellFormed.assign (by decide) (by decide)

theorem single_encoded {value : Scalar}
    (short : (singlePayload value).length < 2 ^ 32) :
    Encoded singleDict (singlePayload value) (single value) := by
  refine ⟨?_, ?_, rfl, short⟩
  · simp [Valid, ValidFields, single]
  · intro name member
    have same : name = [0x61] := by
      simpa [names, namesOfFields, single] using member
    exact ⟨2, by rw [same]; decide⟩

theorem single_reads {value : Scalar} {loc : FieldLocation}
    (located : (viewOf singleDict (singlePayload value)).searchField 2 0
      (fieldCountOf (singlePayload value)) = .ok (some loc))
    (passes : loc.Passes (singlePayload value))
    (flat : loc.offset.toNat + loc.length.toNat < 2 ^ 32)
    (typed : loc.valType = (encodeScalar value).1.toByte)
    (content : loc.content (singlePayload value) = (encodeScalar value).2) :
    Reads (viewOf singleDict (singlePayload value)) [0x61]
      (some (.scalar (widen value))) := by
  have known : singleDict.getID [0x61] = some 2 := by decide
  have found : (viewOf singleDict (singlePayload value)).getFieldLoc [0x61] =
      .ok (some loc) := by
    rw [DocumentView.getFieldLoc]
    simp only [viewOf, known]
    exact located
  exact reads_scalar found passes (Nat.not_le.mpr flat) typed content

theorem five_reads : Reads (viewOf singleDict (singlePayload (.int64 5)))
    [0x61] (some (.scalar (.int64 5))) := by
  refine @single_reads (.int64 5) ⟨2, 22, 8⟩ ?_ (by decide) (by decide) rfl
    (by decide)
  rw [DocumentView.searchField]
  rfl

theorem true_reads : Reads (viewOf singleDict (singlePayload (.bool true)))
    [0x61] (some (.scalar (.bool true))) := by
  refine @single_reads (.bool true) ⟨1, 22, 1⟩ ?_ (by decide) (by decide) rfl
    (by decide)
  rw [DocumentView.searchField]
  rfl

/-- A runtime for documents that use neither formatting nor truncation. -/
def plainRuntime : Runtime := ⟨fun _ => [], fun _ _ => false, fun _ => 0⟩

def number (value : Int64) : Value := .scalar (.int value)

theorem derived_five :
    Same plainRuntime (viewOf singleDict (singlePayload (.int64 5)))
      (.ne [0x61] (number 5)) (.not (.eq [0x61] (number 5))) ∧
    Same plainRuntime (viewOf singleDict (singlePayload (.int64 5)))
      (.isIn [0x61] [number 1, number 5])
      (.or ([number 1, number 5].map (.eq [0x61]))) ∧
    Same plainRuntime (viewOf singleDict (singlePayload (.int64 5)))
      (.between [0x61] (number 1) (number 9))
      (.and [.gte [0x61] (number 1), .lte [0x61] (number 9)]) ∧
    Same plainRuntime (viewOf singleDict (singlePayload (.int64 5)))
      (.gte [0x61] (number 5))
      (.or [.gt [0x61] (number 5), .eq [0x61] (number 5)]) ∧
    Same plainRuntime (viewOf singleDict (singlePayload (.int64 5)))
      (.lte [0x61] (number 9))
      (.or [.lt [0x61] (number 9), .eq [0x61] (number 9)]) := by
  have stored := five_reads.fieldValue_eq
  have laws := derived_iff (@single_encoded (.int64 5) (by decide))
    single_wellFormed plainRuntime [0x61] (by
      rw [stored]
      rintro value ⟨⟩
      trivial)
  rw [stored] at laws
  obtain ⟨_, ne, oneOf, between, gte, lte⟩ := laws
  refine ⟨(ne (number 5) trivial).mpr ?_, (oneOf _ ?_).mpr (.inl ?_),
    (between (number 1) (number 9) trivial trivial).mpr (.inl ⟨?_, ?_⟩),
    (gte (number 5) trivial).mpr ?_, (lte (number 9) trivial).mpr ?_⟩
  · rintro value ⟨⟩
    trivial
  · exact List.forall_mem_cons.mpr ⟨trivial, List.forall_mem_cons.mpr
      ⟨trivial, fun _ member => (nomatch member)⟩⟩
  · exact List.forall_mem_cons.mpr ⟨trivial, List.forall_mem_cons.mpr
      ⟨trivial, fun _ member => (nomatch member)⟩⟩
  · intro small
    exact absurd small (by decide)
  · intro large
    exact absurd large (by decide)
  · intro _
    rfl
  · intro same
    exact absurd same (by decide)

/-- The boolean field does not equal the string `x`, and `Ne` does not hold. -/
theorem derived_true :
    evaluate plainRuntime (viewOf singleDict (singlePayload (.bool true)))
      (.eq [0x61] (.scalar (.string [0x78]))) = .ok false ∧
    evaluate plainRuntime (viewOf singleDict (singlePayload (.bool true)))
      (.ne [0x61] (.scalar (.string [0x78]))) = .ok false ∧
    ¬ Same plainRuntime (viewOf singleDict (singlePayload (.bool true)))
      (.ne [0x61] (.scalar (.string [0x78])))
      (.not (.eq [0x61] (.scalar (.string [0x78])))) := by
  have equal := @evaluate_eq plainRuntime _ _ _ true_reads
    (.scalar (.string [0x78]))
  have unequal := @evaluate_ne plainRuntime _ _ _ true_reads
    (.scalar (.string [0x78]))
  refine ⟨equal, unequal, ?_⟩
  rintro ⟨result, former, latter⟩
  rw [unequal] at former
  rw [evaluate, equal] at latter
  cases former
  cases latter

end CocoDB.Query
