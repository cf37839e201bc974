import CocoDB.Cson.View

/-!
# The field directory

What the loops over a directory do, in terms of its entries: inside a view
every directory read succeeds, and a field is sliced out exactly when its
range passes the 32-bit bounds check without wrapping.
-/

namespace CocoDB.Cson

open CocoDB.Lib

def fieldCountOf (data : Bytes) : Nat := ofBE ((data.drop 6).take 2)

/-- The data starts with a header and holds the directory it announces. -/
def WellHeaded (data : Bytes) : Prop :=
  8 ≤ data.length ∧ ofBE (data.take 4) = csonMagic ∧
    8 + fieldCountOf data * fieldEntrySize ≤ data.length

def storedWord (data : Bytes) (offset : Nat) : UInt32 :=
  UInt32.ofNat (ofBE ((data.drop offset).take 4))

def fieldIDAt (data : Bytes) (index : Nat) : UInt32 :=
  storedWord data (8 + index * fieldEntrySize)

def entryAt (data : Bytes) (index : Nat) : FieldLocation where
  valType := data.getD (8 + index * fieldEntrySize + 4) 0
  offset := storedWord data (8 + index * fieldEntrySize + 6)
  length := storedWord data (8 + index * fieldEntrySize + 10)

namespace FieldLocation

/-- The bounds check of the source, in `uint32` arithmetic. -/
def Passes (loc : FieldLocation) (data : Bytes) : Prop :=
  (loc.offset + loc.length).toNat ≤ data.length

instance passesDecidable (loc : FieldLocation) (data : Bytes) :
    Decidable (loc.Passes data) :=
  inferInstanceAs (Decidable (_ ≤ _))

/-- The end of the field is past the largest `uint32`. -/
def Wraps (loc : FieldLocation) : Prop :=
  2 ^ 32 ≤ loc.offset.toNat + loc.length.toNat

def content (loc : FieldLocation) (data : Bytes) : Bytes :=
  (data.drop loc.offset.toNat).take loc.length.toNat

theorem end_eq {loc : FieldLocation} (flat : ¬loc.Wraps) :
    (loc.offset + loc.length).toNat =
      loc.offset.toNat + loc.length.toNat := by
  rw [UInt32.toNat_add]
  exact Nat.mod_eq_of_lt (Nat.lt_of_not_le flat)

theorem end_lt {loc : FieldLocation} (wraps : loc.Wraps) :
    (loc.offset + loc.length).toNat < loc.offset.toNat := by
  have offsetSmall := loc.offset.toNat_lt
  have lengthSmall := loc.length.toNat_lt
  unfold Wraps at wraps
  rw [UInt32.toNat_add]
  omega

theorem within {loc : FieldLocation} {data : Bytes}
    (passes : loc.Passes data) (flat : ¬loc.Wraps) :
    loc.offset.toNat + loc.length.toNat ≤ data.length := by
  rw [← end_eq flat]
  exact passes

theorem content_length {loc : FieldLocation} {data : Bytes}
    (passes : loc.Passes data) (flat : ¬loc.Wraps) :
    (loc.content data).length = loc.length.toNat := by
  have inside := within passes flat
  unfold content
  rw [List.length_take, List.length_drop]
  omega

end FieldLocation

/-! ## Slices -/

theorem slice_ok {data : Bytes} {low high : Nat} (ordered : low ≤ high)
    (inside : high ≤ data.length) :
    slice data low high = .ok ((data.drop low).take (high - low)) :=
  if_pos ⟨ordered, inside⟩

theorem slice_reversed {data : Bytes} {low high : Nat}
    (reversed : high < low) : slice data low high = .panic :=
  if_neg fun bounds => absurd bounds.1 (Nat.not_le.mpr reversed)

theorem wordAt_ok {data : Bytes} {offset : Nat}
    (inside : offset + 4 ≤ data.length) :
    wordAt data offset = .ok (storedWord data offset) := by
  unfold wordAt
  rw [slice_ok (by omega) inside, Nat.add_sub_cancel_left]
  rfl

theorem byteAt_ok {data : Bytes} {index : Nat}
    (inside : index < data.length) :
    byteAt data index = .ok (data.getD index 0) := by
  unfold byteAt
  rw [List.getD_eq_getElem?_getD, List.getElem?_eq_getElem inside]
  rfl

theorem slice_flat {loc : FieldLocation} {data : Bytes}
    (passes : loc.Passes data) (flat : ¬loc.Wraps) :
    slice data loc.offset.toNat (loc.offset + loc.length).toNat =
      .ok (loc.content data) := by
  have inside := FieldLocation.within passes flat
  rw [FieldLocation.end_eq flat, slice_ok (by omega) inside,
    Nat.add_sub_cancel_left]
  rfl

theorem slice_wraps {loc : FieldLocation} (data : Bytes)
    (wraps : loc.Wraps) :
    slice data loc.offset.toNat (loc.offset + loc.length).toNat = .panic :=
  slice_reversed (FieldLocation.end_lt wraps)

/-! ## Views -/

theorem newDocumentView_ok {data : Bytes} (dict : FieldDictionary)
    (headed : WellHeaded data) :
    newDocumentView data dict = .ok ⟨data, dict, fieldCountOf data⟩ := by
  obtain ⟨long, magic, directory⟩ := headed
  unfold newDocumentView
  rw [if_neg (by omega), if_neg (by simp [magic])]
  exact if_neg (Nat.not_lt.mpr directory)

theorem wellHeaded_of_view {data : Bytes} {dict : FieldDictionary}
    {view : DocumentView} (opened : newDocumentView data dict = .ok view) :
    WellHeaded data := by
  unfold newDocumentView at opened
  split at opened
  · cases opened
  · rename_i long
    split at opened
    · cases opened
    · rename_i magic
      split at opened
      · cases opened
      · rename_i directory
        exact ⟨Nat.le_of_not_lt long, not_not.mp magic,
          Nat.le_of_not_lt directory⟩

theorem newDocumentView_error {data : Bytes} (dict : FieldDictionary)
    (headless : ¬WellHeaded data) :
    ∃ cause, newDocumentView data dict = .error cause := by
  cases opened : newDocumentView data dict with
  | error cause => exact ⟨cause, rfl⟩
  | ok view => exact absurd (wellHeaded_of_view opened) headless

theorem passes_of_inRange {view : DocumentView} {loc : FieldLocation}
    (inside : ¬(!view.inRange loc) = true) : loc.Passes view.data := by
  cases checked : view.inRange loc with
  | false => exact absurd (by rw [checked]; rfl) inside
  | true => exact of_decide_eq_true checked

theorem entry_inside {data : Bytes} {index count : Nat}
    (before : index < count)
    (directory : 8 + count * fieldEntrySize ≤ data.length) :
    8 + index * fieldEntrySize + 14 ≤ data.length := by
  unfold fieldEntrySize at *
  omega

section Loop

variable {decode : UInt8 → Bytes → Outcome Value} {view : DocumentView}
  {index remaining : Nat} {result : Document}

theorem toMapFrom_step
    (directory : 8 + (index + remaining + 1) * fieldEntrySize ≤
      view.data.length) :
    toMapFrom decode view index (remaining + 1) result =
      let entry := entryAt view.data index
      let name := (view.dict.getName (fieldIDAt view.data index)).getD
        (placeholder (fieldIDAt view.data index))
      if entry.Passes view.data then do
        let valBytes ← slice view.data entry.offset.toNat
          (entry.offset + entry.length).toNat
        match decode entry.valType valBytes with
        | .ok value =>
            toMapFrom decode view (index + 1) remaining
              (setField result name value)
        | .error _ => toMapFrom decode view (index + 1) remaining result
        | .panic => .panic
        | .exhausted => .exhausted
      else
        toMapFrom decode view (index + 1) remaining result := by
  have inside := entry_inside (show index < index + remaining + 1 by omega)
    directory
  rw [toMapFrom]
  simp only
  rw [wordAt_ok (by omega), byteAt_ok (by omega), wordAt_ok (by omega),
    wordAt_ok (by omega)]
  rfl

theorem toMapFrom_outside
    (directory : 8 + (index + remaining + 1) * fieldEntrySize ≤
      view.data.length)
    (fails : ¬(entryAt view.data index).Passes view.data) :
    toMapFrom decode view index (remaining + 1) result =
      toMapFrom decode view (index + 1) remaining result := by
  rw [toMapFrom_step directory]
  exact if_neg fails

theorem toMapFrom_wraps
    (directory : 8 + (index + remaining + 1) * fieldEntrySize ≤
      view.data.length)
    (passes : (entryAt view.data index).Passes view.data)
    (wraps : (entryAt view.data index).Wraps) :
    toMapFrom decode view index (remaining + 1) result = .panic := by
  rw [toMapFrom_step directory]
  simp only
  rw [if_pos passes, slice_wraps _ wraps]
  rfl

theorem toMapFrom_flat
    (directory : 8 + (index + remaining + 1) * fieldEntrySize ≤
      view.data.length)
    (passes : (entryAt view.data index).Passes view.data)
    (flat : ¬(entryAt view.data index).Wraps) :
    toMapFrom decode view index (remaining + 1) result =
      match decode (entryAt view.data index).valType
          ((entryAt view.data index).content view.data) with
      | .ok value =>
          toMapFrom decode view (index + 1) remaining
            (setField result
              ((view.dict.getName (fieldIDAt view.data index)).getD
                (placeholder (fieldIDAt view.data index))) value)
      | .error _ => toMapFrom decode view (index + 1) remaining result
      | .panic => .panic
      | .exhausted => .exhausted := by
  rw [toMapFrom_step directory]
  simp only
  rw [if_pos passes, slice_flat passes flat]
  rfl

/-- The loop comes back exactly when every field it slices out is inside the
data and decodes. -/
theorem toMapFrom_returns_iff
    (directory : 8 + (index + remaining) * fieldEntrySize ≤
      view.data.length) :
    (toMapFrom decode view index remaining result).Returns ↔
      ∀ later, index ≤ later → later < index + remaining →
        (entryAt view.data later).Passes view.data →
          ¬(entryAt view.data later).Wraps ∧
            (decode (entryAt view.data later).valType
              ((entryAt view.data later).content view.data)).Returns := by
  induction remaining generalizing index result with
  | zero =>
      constructor
      · intro _ later lower upper
        omega
      · intro _
        exact trivial
  | succ remaining inductionHypothesis =>
      have shifted : index + (remaining + 1) = index + 1 + remaining := by
        omega
      have tail : ∀ result,
          (toMapFrom decode view (index + 1) remaining result).Returns ↔ _ :=
        fun result => @inductionHypothesis (index + 1) result
          (shifted ▸ directory)
      -- the statement about entries splits into the first one and the rest
      have entries : ∀ P : Nat → Prop,
          (∀ later, index ≤ later → later < index + (remaining + 1) →
            P later) ↔
          P index ∧ ∀ later, index + 1 ≤ later →
            later < index + 1 + remaining → P later := by
        intro P
        constructor
        · intro all
          exact ⟨all index (by omega) (by omega), fun later lower upper =>
            all later (by omega) (by omega)⟩
        · rintro ⟨first, rest⟩ later lower upper
          rcases Nat.eq_or_lt_of_le lower with rfl | above
          · exact first
          · exact rest later above (by omega)
      rw [entries]
      by_cases passes : (entryAt view.data index).Passes view.data
      · by_cases wraps : (entryAt view.data index).Wraps
        · rw [toMapFrom_wraps directory passes wraps]
          simp [passes, wraps]
        · rw [toMapFrom_flat directory passes wraps]
          cases decoded : decode (entryAt view.data index).valType
              ((entryAt view.data index).content view.data) with
          | ok value => simp [passes, wraps, tail]
          | error cause => simp [passes, wraps, tail]
          | panic => simp [passes]
          | exhausted => simp [passes]
      · rw [toMapFrom_outside directory passes, tail]
        simp [passes]

theorem toMapFrom_ok
    (directory : 8 + (index + remaining) * fieldEntrySize ≤
      view.data.length)
    (returns : (toMapFrom decode view index remaining result).Returns) :
    ∃ map, toMapFrom decode view index remaining result = .ok map := by
  induction remaining generalizing index result with
  | zero => exact ⟨result, rfl⟩
  | succ remaining inductionHypothesis =>
      have shifted : 8 + (index + 1 + remaining) * fieldEntrySize ≤
          view.data.length := by
        rw [Nat.add_right_comm]
        exact directory
      by_cases passes : (entryAt view.data index).Passes view.data
      · by_cases wraps : (entryAt view.data index).Wraps
        · rw [toMapFrom_wraps directory passes wraps] at returns
          exact absurd returns Outcome.not_returns_panic
        · rw [toMapFrom_flat directory passes wraps] at returns ⊢
          cases decoded : decode (entryAt view.data index).valType
              ((entryAt view.data index).content view.data) with
          | ok value =>
              rw [decoded] at returns
              exact inductionHypothesis shifted returns
          | error cause =>
              rw [decoded] at returns
              exact inductionHypothesis shifted returns
          | panic => simp [decoded] at returns
          | exhausted => simp [decoded] at returns
      · rw [toMapFrom_outside directory passes] at returns ⊢
        exact inductionHypothesis shifted returns

theorem toMapFrom_mono {larger : UInt8 → Bytes → Outcome Value}
    (directory : 8 + (index + remaining) * fieldEntrySize ≤
      view.data.length)
    (agrees : ∀ tag bytes, (decode tag bytes).Returns →
      larger tag bytes = decode tag bytes)
    (returns : (toMapFrom decode view index remaining result).Returns) :
    toMapFrom larger view index remaining result =
      toMapFrom decode view index remaining result := by
  induction remaining generalizing index result with
  | zero => rfl
  | succ remaining inductionHypothesis =>
      have shifted : 8 + (index + 1 + remaining) * fieldEntrySize ≤
          view.data.length := by
        rw [Nat.add_right_comm]
        exact directory
      by_cases passes : (entryAt view.data index).Passes view.data
      · by_cases wraps : (entryAt view.data index).Wraps
        · rw [toMapFrom_wraps directory passes wraps] at returns
          exact absurd returns Outcome.not_returns_panic
        · have first := ((toMapFrom_returns_iff directory).mp returns index
            (Nat.le_refl _) (by omega) passes).2
          rw [toMapFrom_flat directory passes wraps] at returns ⊢
          rw [toMapFrom_flat directory passes wraps, agrees _ _ first]
          cases decoded : decode (entryAt view.data index).valType
              ((entryAt view.data index).content view.data) with
          | ok value =>
              rw [decoded] at returns
              exact inductionHypothesis shifted returns
          | error cause =>
              rw [decoded] at returns
              exact inductionHypothesis shifted returns
          | panic => rfl
          | exhausted => rfl
      · rw [toMapFrom_outside directory passes] at returns ⊢
        rw [toMapFrom_outside directory passes]
        exact inductionHypothesis shifted returns

end Loop

/-! ## Arrays -/

theorem readItems_mono {decode larger : UInt8 → Bytes → Outcome Value}
    (agrees : ∀ tag bytes, (decode tag bytes).Returns →
      larger tag bytes = decode tag bytes)
    {count : Nat} {reader : Bytes}
    (returns : (readItems decode count reader).Returns) :
    readItems larger count reader = readItems decode count reader := by
  induction count generalizing reader with
  | zero => rfl
  | succ count inductionHypothesis =>
      rw [readItems] at returns ⊢
      rw [readItems]
      cases framed : readItem reader with
      | error cause => rfl
      | ok item =>
          obtain ⟨tag, bytes, rest⟩ := item
          rw [framed] at returns
          simp only at returns ⊢
          cases decoded : decode tag bytes with
          | ok value =>
              rw [agrees tag bytes (by simp [decoded]), decoded]
              rw [decoded] at returns
              simp only [Outcome.ok_bind] at returns ⊢
              cases later : readItems decode count rest with
              | ok values =>
                  rw [inductionHypothesis (by simp [later]), later]
              | error cause =>
                  rw [inductionHypothesis (by simp [later]), later]
              | panic => simp [later] at returns
              | exhausted => simp [later] at returns
          | error cause =>
              rw [agrees tag bytes (by simp [decoded]), decoded]
              rfl
          | panic => simp [decoded] at returns
          | exhausted => simp [decoded] at returns

end CocoDB.Cson
