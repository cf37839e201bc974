import CocoDB.Document.Validation

/-!
# What the operations of an update stand for

`Update` folds its operations over the document.  Read on one field, the fold of
what they stand for differs from the fold of the code in two places: `Increment`
knows three types of numbers and counts in 64 bits, and `Remove` does nothing.
-/

namespace CocoDB.Document

open Lib Cson CocoDB.Query
open Index (Runtime)

/-! ## The meaning of operations -/

def finite (bits : UInt64) : Bool :=
  bits.toNat % 2 ^ 63 < 0x7FF0000000000000

def numberOf : Value → Option ℚ
  | .scalar (.float64 bits) =>
      if finite bits then some (exactFloat bits) else none
  | .scalar (.float32 bits) =>
      if finite (float64OfFloat32 bits) then
        some (exactFloat (float64OfFloat32 bits))
      else none
  | value => numericValue value

/-- The number to which `Increment` is to add: a missing field counts as 0, and
so does a value of no numeric type. -/
def start : Option Value → Option ℚ
  | none => some 0
  | some value =>
      match numericValue value with
      | none => some 0
      | some _ => numberOf value

/-- What a field should hold: a value, or the sum of what `Increment` has added
and the number of a value. -/
inductive Content where
  | holds (val : Option Value)
  | sum (base : Option Value) (total : Int)

/-- What an operation stands for; `equal` tells which elements `Remove` is to
delete. -/
def Content.apply (equal : Value → Value → Bool) :
    Content → UpdateOp → Content
  | _, .set _ value => .holds (some value)
  | _, .unset _ => .holds none
  | .holds val, .increment _ delta => .sum val delta.toInt
  | .sum base total, .increment _ delta => .sum base (total + delta.toInt)
  | .holds (some (.array items)), .push _ value =>
      .holds (some (.array (items ++ [value])))
  | _, .push _ value => .holds (some (.array [value]))
  | .holds (some (.array items)), .remove _ value =>
      .holds (some (.array (items.filter fun item => !equal item value)))
  | content, .remove _ _ => content

def Content.applyAll (equal : Value → Value → Bool) (content : Content)
    (ops : List UpdateOp) : Content :=
  ops.foldl (apply equal) content

def Content.Shows : Content → Option Value → Prop
  | .holds none, shown => shown = none
  | .holds (some value), shown =>
      ∃ other, shown = some other ∧ widensTo value other = true
  | .sum base total, shown => ∃ other, shown = some other ∧
      match start base with
      | some number => numberOf other = some (number + total)
      | none => ∃ value, base = some value ∧ widensTo value other = true

/-! ## Where the code does what they stand for -/

/-- A `Remove` has an element to delete. -/
def Content.Deletes (equal : Value → Value → Bool) :
    Content → UpdateOp → Prop
  | .holds (some (.array items)), .remove _ value =>
      ∃ item ∈ items, equal item value = true
  | _, _ => False

def UpdateOp.Replaces : UpdateOp → Prop
  | .set _ _ => True
  | .unset _ => True
  | .increment _ _ => True
  | .push _ _ => False
  | .remove _ _ => False

/-- A `Remove` that has something to delete is followed by an operation that
replaces the array. -/
def Content.Spared (equal : Value → Value → Bool) :
    Content → List UpdateOp → Prop
  | _, [] => True
  | content, op :: rest =>
      (content.Deletes equal op → ∃ later ∈ rest, later.Replaces) ∧
        (content.apply equal op).Spared equal rest

/-- The number is an integer that the code reads, up to multiples of `2 ^ 64`,
and the sum fits into an `int64`. -/
def Countable (runtime : Runtime) (base : Option Value) (total : Int) : Prop :=
  ∃ number : Int, start base = some (number : ℚ) ∧
    (2 ^ 64 : Int) ∣ (currentNumber runtime base).toInt - number ∧
    -2 ^ 63 ≤ number + total ∧ number + total < 2 ^ 63

def Content.Lasting (runtime : Runtime) : Content → Prop
  | .holds none => True
  | .holds (some value) => EndsFilled value
  | .sum base total => Countable runtime base total

/-! ## One operation -/

/-- The field of the code next to its content: the same, the sum in 64 bits, or
an array in which something should have been deleted. -/
inductive Tracks (runtime : Runtime) :
    (behind : Bool) → Content → Option Value → Prop
  | same (val : Option Value) : Tracks runtime false (.holds val) val
  | sum (base : Option Value) (total : Int) :
      Tracks runtime false (.sum base total) (some (.scalar (.int64
        (Int64.ofInt ((currentNumber runtime base).toInt + total)))))
  | longer {left items : List Value} : left.length < items.length →
      Tracks runtime true (.holds (some (.array left)))
        (some (.array items))

section Folding

variable {runtime : Runtime} {equal : Value → Value → Bool} {behind : Bool}
  {content : Content} {val : Option Value}

theorem tracks_increment (val : Option Value) (delta : Int64) :
    Tracks runtime false (.sum val delta.toInt)
      (some (.scalar (.int64 (currentNumber runtime val + delta)))) := by
  have counts := @Tracks.sum runtime val delta.toInt
  rw [Int64.ofInt_add, Int64.ofInt_toInt, Int64.ofInt_toInt] at counts
  exact counts

theorem tracks_remove (items : List Value) (field : Bytes) (value : Value) :
    ∃ later, Tracks runtime later
        ((Content.holds (some (.array items))).apply equal
          (.remove field value))
        (turn runtime (some (.array items)) (.remove field value)) ∧
      (later = true ↔ ¬ (UpdateOp.remove field value).Replaces ∧
        (false = true ∨ (Content.holds (some (.array items))).Deletes equal
          (.remove field value))) := by
  by_cases deletes : ∃ item ∈ items, equal item value = true
  · refine ⟨true, .longer ?_, by simp [UpdateOp.Replaces, Content.Deletes,
      deletes]⟩
    obtain ⟨item, member, same⟩ := deletes
    rw [List.length_filter_lt_length_iff_exists]
    exact ⟨item, member, by simp [same]⟩
  · have all : items.filter (fun item => !equal item value) = items := by
      rw [List.filter_eq_self]
      intro item member
      by_contra same
      exact deletes ⟨item, member, by simpa using same⟩
    refine ⟨false, ?_, by simp only [Content.Deletes, deletes]; simp⟩
    rw [Content.apply, all]
    exact .same _

/-- The code falls behind with a `Remove` that has something to delete, and an
operation that replaces the array makes up for it. -/
theorem Tracks.step (tracks : Tracks runtime behind content val)
    (op : UpdateOp) :
    ∃ later, Tracks runtime later (content.apply equal op)
        (turn runtime val op) ∧
      (later = true ↔ ¬ op.Replaces ∧
        (behind = true ∨ content.Deletes equal op)) := by
  cases op with
  | set field value =>
      exact ⟨false, .same _, by simp [UpdateOp.Replaces]⟩
  | unset field =>
      exact ⟨false, .same _, by simp [UpdateOp.Replaces]⟩
  | increment field delta =>
      refine ⟨false, ?_, by simp [UpdateOp.Replaces]⟩
      cases tracks with
      | same => exact tracks_increment val delta
      | sum base total =>
          have counts := @Tracks.sum runtime base
            (total + delta.toInt)
          rw [← Int.add_assoc, Int64.ofInt_add, Int64.ofInt_toInt] at counts
          exact counts
      | @longer left items _ =>
          exact tracks_increment (some (.array left)) delta
  | push field value =>
      cases tracks with
      | sum base total =>
          exact ⟨false, .same _, by simp [Content.Deletes]⟩
      | @longer left items shorter =>
          refine ⟨true, .longer ?_, by simp [UpdateOp.Replaces]⟩
          simpa [currentArray] using shorter
      | same =>
          refine ⟨false, ?_, ?_⟩
          · cases val with
            | none => exact .same _
            | some stored => cases stored <;> exact .same _
          · cases val with
            | none => simp [Content.Deletes]
            | some stored => cases stored <;> simp [Content.Deletes]
  | remove field value =>
      cases tracks with
      | sum base total =>
          exact ⟨false, .sum base total, by simp [Content.Deletes]⟩
      | @longer left items shorter =>
          refine ⟨true, .longer ?_, by simp [UpdateOp.Replaces]⟩
          exact Nat.lt_of_le_of_lt (List.length_filter_le _ _) shorter
      | same =>
          cases val with
          | none => exact ⟨false, .same _, by simp [Content.Deletes]⟩
          | some stored =>
              cases stored with
              | array items => exact tracks_remove items field value
              | _ => exact ⟨false, .same _, by simp [Content.Deletes]⟩

/-- The code is behind at the end if it fell behind after the last operation
that replaces the array. -/
theorem Tracks.run (tracks : Tracks runtime behind content val)
    (ops : List UpdateOp) :
    ∃ later, Tracks runtime later (content.applyAll equal ops)
        (ops.foldl (turn runtime) val) ∧
      (later = false ↔ content.Spared equal ops ∧
        (behind = true → ∃ op ∈ ops, op.Replaces)) := by
  induction ops generalizing behind content val with
  | nil =>
      refine ⟨behind, tracks, ?_⟩
      cases behind <;> simp [Content.Spared]
  | cons op rest inductionHypothesis =>
      obtain ⟨middle, next, fell⟩ := @Tracks.step _ equal _ _ _ tracks op
      obtain ⟨later, final, spared⟩ := inductionHypothesis next
      refine ⟨later, final, ?_⟩
      rw [spared, fell, Content.Spared, List.exists_mem_cons_iff]
      have keeps : content.Deletes equal op → ¬ op.Replaces := by
        intro deletes replaces
        unfold Content.Deletes at deletes
        split at deletes
        · exact replaces
        · exact deletes
      constructor
      · rintro ⟨spared, makesUp⟩
        refine ⟨⟨fun deletes => ?_, spared⟩, fun was => ?_⟩
        · exact makesUp ⟨keeps deletes, .inr deletes⟩
        · by_cases replaces : op.Replaces
          · exact .inl replaces
          · exact .inr (makesUp ⟨replaces, .inl was⟩)
      · rintro ⟨⟨deleting, spared⟩, late⟩
        refine ⟨spared, ?_⟩
        rintro ⟨keptOn, was | deletes⟩
        · exact (late was).resolve_left keptOn
        · exact deleting deletes

/-! ## The content at the end -/

/-- What the decoder makes of a field, as far as it matters. -/
structure ReadsBack (val shown : Option Value) : Prop where
  absent : val = none → shown = none
  whole : ∀ value, val = some value →
    ((∃ other, shown = some other ∧ widensTo value other = true) ↔
      EndsFilled value)
  number : ∀ count, val = some (.scalar (.int64 count)) →
    shown = some (.scalar (.int64 count))
  array : ∀ items other, val = some (.array items) → shown = some other →
    ∃ others, other = .array others ∧ others.length = items.length

theorem itemsWidenTo_length {items others : List Value}
    (widens : itemsWidenTo items others = true) :
    items.length = others.length := by
  induction items generalizing others with
  | nil =>
      cases others with
      | nil => rfl
      | cons other rest => cases widens
  | cons item rest inductionHypothesis =>
      cases others with
      | nil => cases widens
      | cons other others =>
          rw [itemsWidenTo, Bool.and_eq_true] at widens
          rw [List.length_cons, List.length_cons,
            inductionHypothesis widens.2]

theorem wrapped (number : Int) :
    (2 ^ 64 : Int) ∣ number - (Int64.ofInt number).toInt := by
  rw [Int64.toInt_ofInt]
  exact ⟨number.bdiv Int64.size, by
    have parts := Int.bmod_add_bdiv number Int64.size
    have size : (Int64.size : Int) = 2 ^ 64 := rfl
    rw [size] at parts
    omega⟩

theorem wrapped_eq {number sum : Int} (same : (2 ^ 64 : Int) ∣ number - sum)
    (low : -2 ^ 63 ≤ sum) (high : sum < 2 ^ 63) :
    (Int64.ofInt number).toInt = sum := by
  obtain ⟨turns, apart⟩ := same
  have size : (Int64.size : Int) = 2 ^ 64 := rfl
  have whole : number = sum + (Int64.size : Int) * turns := by
    rw [size]
    omega
  rw [Int64.toInt_ofInt, whole, Int.add_mul_bmod_self_left,
    ← Int64.toInt_ofInt, Int64.toInt_ofInt_of_le low high]

theorem countable_iff {base : Option Value} {total : Int} :
    (∃ number, start base = some number ∧ ((Int64.ofInt
      ((currentNumber runtime base).toInt + total)).toInt : ℚ) =
        number + total) ↔ Countable runtime base total := by
  generalize counting : (currentNumber runtime base).toInt = counted
  have near := wrapped (counted + total)
  constructor
  · rintro ⟨number, starts, same⟩
    generalize shown : Int64.ofInt (counted + total) = result at same near
    refine ⟨result.toInt - total, ?_, ?_, ?_, ?_⟩
    · rw [starts]
      push_cast
      rw [same, add_sub_cancel_right]
    · rw [counting]
      have apart : counted + total - result.toInt =
          counted - (result.toInt - total) := by omega
      rw [← apart]
      exact near
    · have low := result.le_toInt
      omega
    · have high := result.toInt_lt
      omega
  · rintro ⟨number, starts, congruent, low, high⟩
    rw [counting] at congruent
    refine ⟨number, starts, ?_⟩
    have apart : counted + total - (number + total) = counted - number := by
      omega
    rw [← apart] at congruent
    rw [wrapped_eq congruent low high]
    push_cast
    rfl

theorem start_none {base : Option Value} (none : start base = none) :
    ∃ value, base = some value ∧
      ∀ count, widensTo value (.scalar (.int64 count)) = false := by
  cases base with
  | none => cases none
  | some value =>
      refine ⟨value, rfl, fun count => ?_⟩
      cases value with
      | scalar scalar =>
          cases scalar <;>
            first | cases none | simp [widensTo, widen]
      | _ => cases none

/-- The stored field shows the content exactly if the code is not behind and the
content can be stored. -/
theorem Tracks.shows_iff (tracks : Tracks runtime behind content val)
    {shown : Option Value} (reads : ReadsBack val shown) :
    content.Shows shown ↔ behind = false ∧ content.Lasting runtime := by
  cases tracks with
  | same =>
      cases val with
      | none => simp [Content.Shows, Content.Lasting, reads.absent rfl]
      | some value =>
          simp only [Content.Shows, Content.Lasting, true_and]
          exact reads.whole value rfl
  | @longer left items shorter =>
      simp only [Content.Shows, Bool.true_eq_false, false_and, iff_false]
      rintro ⟨other, found, widens⟩
      obtain ⟨others, rfl, length⟩ := reads.array items other rfl found
      rw [widensTo] at widens
      have same := itemsWidenTo_length widens
      omega
  | sum base total =>
      simp only [Content.Shows, Content.Lasting, true_and,
        reads.number _ rfl, Option.some.injEq, exists_eq_left',
        ← countable_iff]
      cases starts : start base with
      | some number => simp [numberOf, numericValue]
      | none =>
          obtain ⟨value, rfl, never⟩ := start_none starts
          simp [never]

end Folding

end CocoDB.Document
