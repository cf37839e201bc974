import CocoDB.Storage.Slotted

/-!
# The layout invariant of slotted pages

`Layout` says that the directory ends below the free end, that live payloads
lie above it without overlapping, and that together they fit below the end of
the page.  Every operation keeps it, and each has one lemma that says what it
does to the bindings.
-/

namespace CocoDB.Slotted

open Lib

/-! ## Directory entries -/

theorem slotOffset_eq {index : Nat} (small : index < 4080) :
    slotOffset index = 64 + 4 * index := by
  simp only [slotOffset, slotDirectoryStart, slotSize, u16]
  omega

theorem directoryEnd_eq {count : Nat} (small : count ≤ 4080) :
    u16 (slotDirectoryStart + u16 (count * slotSize)) = 64 + 4 * count := by
  simp only [slotDirectoryStart, slotSize, u16]
  omega

@[simp]
theorem slotEncode_length (slot : Slot) :
    (Slot.encode slot).length = 4 := by
  simp [Slot.encode]

theorem readSlot_congr {left right : Buf} {index : Nat}
    (agree : ∀ position, slotOffset index ≤ position →
      position < slotOffset index + 4 → left position = right position) :
    readSlot left index = readSlot right index := by
  have lowHalf :
      left.read (slotOffset index) 2 = right.read (slotOffset index) 2 :=
    Buf.read_congr fun position lower upper =>
      agree position lower (by omega)
  have highHalf :
      left.read (slotOffset index + 2) 2 =
        right.read (slotOffset index + 2) 2 :=
    Buf.read_congr fun position lower upper =>
      agree position (by omega) (by omega)
  simp only [readSlot, lowHalf, highHalf]

theorem readSlot_writeSlot_same (data : Buf) (index : Nat) {slot : Slot}
    (offsetSmall : slot.offset < 65536) (lengthSmall : slot.length < 65536) :
    readSlot (writeSlot data index slot) index = slot := by
  have whole :
      (writeSlot data index slot).read (slotOffset index) 4 =
        Slot.encode slot := by
    simpa [writeSlot] using
      Buf.read_write_same data (slotOffset index) (Slot.encode slot)
  have lowHalf :
      (writeSlot data index slot).read (slotOffset index) 2 =
        be 2 slot.offset := by
    have taken := Buf.read_take
      (writeSlot data index slot) (slotOffset index) 4 2
    rw [whole] at taken
    simpa [Slot.encode] using taken.symm
  have highHalf :
      (writeSlot data index slot).read (slotOffset index + 2) 2 =
        be 2 slot.length := by
    have dropped := Buf.read_drop
      (writeSlot data index slot) (slotOffset index) 4 2
    rw [whole] at dropped
    simpa [Slot.encode] using dropped.symm
  simp only [readSlot, lowHalf, highHalf, ofBE_be]
  rw [Nat.mod_eq_of_lt (by omega), Nat.mod_eq_of_lt (by omega)]

theorem readSlot_writeSlot_ne (data : Buf) {index other : Nat} (slot : Slot)
    (small : index < 4080) (otherSmall : other < 4080)
    (different : other ≠ index) :
    readSlot (writeSlot data index slot) other = readSlot data other := by
  apply readSlot_congr
  intro position lower upper
  rw [slotOffset_eq otherSmall] at lower upper
  apply Buf.write_apply_outside
  rw [slotOffset_eq small, slotEncode_length]
  omega

theorem readSlot_write_above (data : Buf) {index offset : Nat}
    (source : Bytes) (small : index < 4080)
    (above : 64 + 4 * index + 4 ≤ offset) :
    readSlot (data.write offset source) index = readSlot data index := by
  apply readSlot_congr
  intro position lower upper
  rw [slotOffset_eq small] at lower upper
  exact Buf.write_apply_outside (by omega)

theorem writeSlot_apply_outside (data : Buf) {index position : Nat}
    (slot : Slot) (small : index < 4080)
    (outside : position < 64 + 4 * index ∨ 64 + 4 * index + 4 ≤ position) :
    writeSlot data index slot position = data position := by
  apply Buf.write_apply_outside
  rw [slotOffset_eq small, slotEncode_length]
  exact outside

theorem readSlot_writeHeader (page : Page) {index : Nat}
    (small : index < 4080) :
    readSlot page.writeHeader.data index = readSlot page.data index := by
  apply readSlot_congr
  intro position lower upper
  rw [slotOffset_eq small] at lower
  exact page.writeHeader_data_outside (by omega)

theorem readSlot_offset_lt (data : Buf) (index : Nat) :
    (readSlot data index).offset < 65536 := by
  have bound := ofBE_lt (data.read (slotOffset index) 2)
  simpa [readSlot] using bound

theorem readSlot_length_lt (data : Buf) (index : Nat) :
    (readSlot data index).length < 65536 := by
  have bound := ofBE_lt (data.read (slotOffset index + 2) 2)
  simpa [readSlot] using bound

/-! ## Live slots -/

def Live (page : Page) (slotID : Nat) : Prop :=
  slotID < page.header.slotCount ∧ ¬ (readSlot page.data slotID).unused

instance (page : Page) (slotID : Nat) : Decidable (Live page slotID) :=
  inferInstanceAs (Decidable (_ ∧ _))

def slotBytes (data : Buf) (count : Nat) : Nat :=
  ((List.range count).map fun index => (readSlot data index).length).sum

/-- Total length of the live payloads; unused entries have length zero. -/
def liveBytes (page : Page) : Nat :=
  slotBytes page.data page.header.slotCount

def content (page : Page) (slotID : Nat) : Option Bytes :=
  (get page slotID).toOption

structure Layout (page : Page) : Prop where
  start_eq : page.header.freeStart = 64 + 4 * page.header.slotCount
  start_le : 64 + 4 * page.header.slotCount ≤ page.header.freeEnd
  end_le : page.header.freeEnd ≤ 16384
  inside : ∀ slotID, Live page slotID →
    (readSlot page.data slotID).offset +
      (readSlot page.data slotID).length ≤ 16384
  above : ∀ slotID, Live page slotID →
    0 < (readSlot page.data slotID).length →
    page.header.freeEnd ≤ (readSlot page.data slotID).offset
  disjoint : ∀ left right, Live page left → Live page right →
    left ≠ right →
    0 < (readSlot page.data left).length →
    0 < (readSlot page.data right).length →
    (readSlot page.data left).offset + (readSlot page.data left).length ≤
        (readSlot page.data right).offset ∨
      (readSlot page.data right).offset + (readSlot page.data right).length ≤
        (readSlot page.data left).offset
  packed : page.header.freeEnd + liveBytes page ≤ 16384

namespace Layout

variable {page : Page}

theorem slotCount_le (layout : Layout page) :
    page.header.slotCount ≤ 4080 := by
  have lower := layout.start_le
  have upper := layout.end_le
  omega

theorem freeSpace_eq (layout : Layout page) :
    freeSpace page =
      page.header.freeEnd - (64 + 4 * page.header.slotCount) := by
  have ordered := layout.start_le
  unfold freeSpace
  rw [layout.start_eq, if_neg (by omega)]

theorem get_live (layout : Layout page) {slotID : Nat}
    (live : Live page slotID) :
    get page slotID =
      .ok (page.data.read (readSlot page.data slotID).offset
        (readSlot page.data slotID).length) := by
  have bounded := layout.inside slotID live
  simp only [get, lookup]
  rw [if_neg (by have := live.1; omega), if_neg live.2,
    if_neg (by simp only [defaultPageSize]; omega)]

end Layout

theorem get_not_live {page : Page} {slotID : Nat}
    (dead : ¬ Live page slotID) :
    get page slotID = .error .slotNotFound := by
  simp only [get, lookup]
  split
  · rfl
  · rename_i inRange
    have unused : (readSlot page.data slotID).unused := by
      by_contra used
      exact dead ⟨by omega, used⟩
    rw [if_pos unused]

theorem Layout.content_live {page : Page} (layout : Layout page)
    {slotID : Nat} (live : Live page slotID) :
    content page slotID =
      some (page.data.read (readSlot page.data slotID).offset
        (readSlot page.data slotID).length) := by
  rw [content, layout.get_live live]
  rfl

theorem content_not_live {page : Page} {slotID : Nat}
    (dead : ¬ Live page slotID) : content page slotID = none := by
  rw [content, get_not_live dead]
  rfl

theorem Layout.content_isSome {page : Page} (layout : Layout page)
    {slotID : Nat} :
    (content page slotID).isSome ↔ Live page slotID := by
  by_cases live : Live page slotID
  · simp [layout.content_live live, live]
  · simp [content_not_live live, live]

/-! ## Sums of lengths -/

theorem slotBytes_succ (data : Buf) (count : Nat) :
    slotBytes data (count + 1) =
      slotBytes data count + (readSlot data count).length := by
  simp [slotBytes, List.range_succ]

theorem slotBytes_congr {left right : Buf} {count : Nat}
    (agree : ∀ index, index < count →
      readSlot left index = readSlot right index) :
    slotBytes left count = slotBytes right count := by
  unfold slotBytes
  congr 1
  apply List.map_congr_left
  intro index member
  rw [agree index (List.mem_range.mp member)]

theorem slotBytes_update (left right : Buf) {count target : Nat}
    (inRange : target < count)
    (agree : ∀ index, index < count → index ≠ target →
      readSlot right index = readSlot left index) :
    slotBytes right count + (readSlot left target).length =
      slotBytes left count + (readSlot right target).length := by
  induction count with
  | zero => omega
  | succ count inductionHypothesis =>
      rw [slotBytes_succ, slotBytes_succ]
      by_cases last : target = count
      · subst last
        have same : slotBytes right target = slotBytes left target :=
          slotBytes_congr fun index below =>
            agree index (by omega) (by omega)
        omega
      · have lastSame :=
          agree count (by omega) (by omega)
        have rest := inductionHypothesis (by omega)
          fun index below different => agree index (by omega) different
        rw [lastSame]
        omega

end CocoDB.Slotted
