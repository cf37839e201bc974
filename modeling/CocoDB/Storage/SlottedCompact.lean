import CocoDB.Storage.SlottedLayout
import Mathlib.Data.List.Nodup

/-!
# Compaction

`compact` copies every active payload into a scratch buffer, one below the
other, and repoints its directory entry.  The scratch buffer is separate from
the source, so the order of the copies does not matter for their contents; it
only decides where each payload lands.
-/

namespace CocoDB.Slotted

open Lib

def activeBytes (items : List ActiveSlot) : Nat :=
  (items.map ActiveSlot.length).sum

/-- What moving `items` into the scratch buffer `temp`, from `curEnd` down,
leaves behind in the result `out`. -/
structure Repacked (source : Buf) (count : Nat) (items : List ActiveSlot)
    (temp : Buf) (curEnd : Nat) (out : Buf × Nat) : Prop where
  end_eq : out.2 + activeBytes items = curEnd
  other : ∀ index, index < count → index ∉ items.map ActiveSlot.id →
    readSlot out.1 index = readSlot temp index
  length_eq : ∀ item, item ∈ items →
    (readSlot out.1 item.id).length = item.length
  lower : ∀ item, item ∈ items →
    out.2 ≤ (readSlot out.1 item.id).offset
  upper : ∀ item, item ∈ items →
    (readSlot out.1 item.id).offset + item.length ≤ curEnd
  bytes : ∀ item, item ∈ items →
    out.1.read (readSlot out.1 item.id).offset item.length =
      source.read item.offset item.length
  apart : ∀ left right, left ∈ items → right ∈ items →
    left.id ≠ right.id →
    (readSlot out.1 left.id).offset + left.length ≤
        (readSlot out.1 right.id).offset ∨
      (readSlot out.1 right.id).offset + right.length ≤
        (readSlot out.1 left.id).offset
  frame : ∀ position, position < 64 ∨ curEnd ≤ position →
    out.1 position = temp position

section Step

variable {source temp : Buf} {count curEnd : Nat} {item : ActiveSlot}

theorem repackStep_spec (source temp : Buf)
    (inDirectory : item.id < count)
    (room : 64 + 4 * count + item.length ≤ curEnd)
    (small : curEnd ≤ 16384) :
    (repackStep source (temp, curEnd) item).2 = curEnd - item.length ∧
    readSlot (repackStep source (temp, curEnd) item).1 item.id =
      ⟨curEnd - item.length, item.length⟩ ∧
    (repackStep source (temp, curEnd) item).1.read
      (curEnd - item.length) item.length =
        source.read item.offset item.length ∧
    (∀ index, index < count → index ≠ item.id →
      readSlot (repackStep source (temp, curEnd) item).1 index =
        readSlot temp index) ∧
    (∀ position, position < 64 ∨ curEnd ≤ position →
      (repackStep source (temp, curEnd) item).1 position =
        temp position) := by
  have newEnd : sub16 curEnd item.length = curEnd - item.length :=
    sub16_of_le (by omega) (by omega)
  have stepEq : repackStep source (temp, curEnd) item =
      (writeSlot
          (temp.write (curEnd - item.length)
            (source.read item.offset item.length))
          item.id ⟨curEnd - item.length, item.length⟩,
        curEnd - item.length) := by
    simp only [repackStep, newEnd, writeSlot, Slot.encode]
  rw [stepEq]
  refine ⟨rfl, ?_, ?_, ?_, ?_⟩
  · exact readSlot_writeSlot_same _ _ (by simp only; omega) (by simp only; omega)
  · have aboveEntry :
        (writeSlot
            (temp.write (curEnd - item.length)
              (source.read item.offset item.length))
            item.id ⟨curEnd - item.length, item.length⟩).read
          (curEnd - item.length) item.length =
        (temp.write (curEnd - item.length)
          (source.read item.offset item.length)).read
          (curEnd - item.length) item.length :=
      Buf.read_congr fun position lower upper =>
        writeSlot_apply_outside _ _ (by omega) (by omega)
    rw [aboveEntry]
    simpa using Buf.read_write_same temp (curEnd - item.length)
      (source.read item.offset item.length)
  · intro index below different
    simp only
    rw [readSlot_writeSlot_ne _ _ (by omega) (by omega) different]
    exact readSlot_write_above _ _ (by omega) (by omega)
  · intro position outside
    simp only
    rw [writeSlot_apply_outside _ _ (by omega) (by omega)]
    exact Buf.write_apply_outside (by simp only [Buf.read_length]; omega)

end Step

theorem repack_spec (source : Buf) (count : Nat) :
    ∀ (items : List ActiveSlot) (temp : Buf) (curEnd : Nat),
      (items.map ActiveSlot.id).Nodup →
      (∀ item, item ∈ items → item.id < count) →
      64 + 4 * count + activeBytes items ≤ curEnd →
      curEnd ≤ 16384 →
      Repacked source count items temp curEnd
        (items.foldl (repackStep source) (temp, curEnd))
  | [], temp, curEnd, _, _, _, _ => by
      constructor <;> simp [activeBytes]
  | item :: rest, temp, curEnd, distinct, inDirectory, room, small => by
      simp only [List.map_cons, List.nodup_cons] at distinct
      have totalEq :
          activeBytes (item :: rest) = item.length + activeBytes rest := by
        simp [activeBytes]
      rw [totalEq] at room
      have itemBelow := inDirectory item List.mem_cons_self
      obtain ⟨nextEnd, entry, moved, others, kept⟩ :=
        repackStep_spec source temp itemBelow
          (by omega : 64 + 4 * count + item.length ≤ curEnd) small
      have restSpec := repack_spec source count rest
        (repackStep source (temp, curEnd) item).1 (curEnd - item.length)
        distinct.2
        (fun other member => inDirectory other (List.mem_cons_of_mem _ member))
        (by omega) (by omega)
      have folded :
          (item :: rest).foldl (repackStep source) (temp, curEnd) =
            rest.foldl (repackStep source)
              ((repackStep source (temp, curEnd) item).1,
                curEnd - item.length) := by
        rw [List.foldl_cons, ← nextEnd]
      rw [folded]
      -- Later moves stay below the range the head item was given.
      have headEntry := restSpec.other item.id itemBelow distinct.1
      rw [entry] at headEntry
      refine ⟨?_, ?_, ?_, ?_, ?_, ?_, ?_, ?_⟩
      · have := restSpec.end_eq
        omega
      · intro index below absent
        simp only [List.map_cons, List.mem_cons, not_or] at absent
        rw [restSpec.other index below absent.2, others index below absent.1]
      · intro other member
        rcases List.mem_cons.mp member with rfl | member
        · rw [headEntry]
        · exact restSpec.length_eq other member
      · intro other member
        rcases List.mem_cons.mp member with rfl | member
        · rw [headEntry]
          have := restSpec.end_eq
          simp only
          omega
        · exact restSpec.lower other member
      · intro other member
        rcases List.mem_cons.mp member with rfl | member
        · rw [headEntry]
          simp only
          omega
        · have := restSpec.upper other member
          omega
      · intro other member
        rcases List.mem_cons.mp member with rfl | member
        · rw [headEntry, ← moved]
          exact Buf.read_congr fun position lower _ =>
            restSpec.frame position (Or.inr lower)
        · exact restSpec.bytes other member
      · intro left right leftMember rightMember different
        rcases List.mem_cons.mp leftMember with rfl | leftRest <;>
          rcases List.mem_cons.mp rightMember with rfl | rightRest
        · exact absurd rfl different
        · have below := restSpec.upper right rightRest
          rw [headEntry]
          exact Or.inr (by simpa using below)
        · have below := restSpec.upper left leftRest
          rw [headEntry]
          exact Or.inl (by simpa using below)
        · exact restSpec.apart left right leftRest rightRest different
      · intro position outside
        rw [restSpec.frame position (by omega), kept position outside]

/-! ## The active entries of a page -/

theorem mem_activeSlots {page : Page} {item : ActiveSlot} :
    item ∈ activeSlots page ↔
      item.id < page.header.slotCount ∧
      item.offset = (readSlot page.data item.id).offset ∧
      item.length = (readSlot page.data item.id).length ∧
      item.offset ≠ 0 ∧ item.length ≠ 0 := by
  rw [activeSlots, List.mem_mergeSort]
  simp only [List.mem_map, List.mem_filter, List.mem_range, ne_eq,
    decide_eq_true_eq]
  constructor
  · rintro ⟨index, ⟨below, offsetNonzero, lengthNonzero⟩, rfl⟩
    exact ⟨below, rfl, rfl, offsetNonzero, lengthNonzero⟩
  · rintro ⟨below, offsetEq, lengthEq, offsetNonzero, lengthNonzero⟩
    refine ⟨item.id, ⟨below, ?_, ?_⟩, ?_⟩
    · rwa [← offsetEq]
    · rwa [← lengthEq]
    · cases item
      simp_all

theorem activeSlots_nodup (page : Page) :
    ((activeSlots page).map ActiveSlot.id).Nodup := by
  have permuted := (List.mergeSort_perm
    (((List.range page.header.slotCount).filter fun index =>
        (readSlot page.data index).offset ≠ 0 ∧
          (readSlot page.data index).length ≠ 0).map fun index =>
      { id := index
        offset := (readSlot page.data index).offset
        length := (readSlot page.data index).length : ActiveSlot })
    (fun left right => decide (left.offset ≤ right.offset))).map ActiveSlot.id
  rw [activeSlots, permuted.nodup_iff, List.map_map]
  have idMap :
      (ActiveSlot.id ∘ fun index =>
        { id := index
          offset := (readSlot page.data index).offset
          length := (readSlot page.data index).length : ActiveSlot }) = id := by
    funext index
    rfl
  rw [idMap, List.map_id]
  exact List.nodup_range.filter _

private theorem sum_map_filter_of_zero
    (keep : Nat → Bool) (value : Nat → Nat) :
    ∀ indices : List Nat,
      (∀ index, index ∈ indices → keep index = false → value index = 0) →
      ((indices.filter keep).map value).sum = (indices.map value).sum
  | [], _ => rfl
  | index :: rest, dropped => by
      have restSum := sum_map_filter_of_zero keep value rest
        fun other member => dropped other (List.mem_cons_of_mem _ member)
      cases kept : keep index with
      | true => simp [kept, restSum]
      | false =>
          have zero := dropped index List.mem_cons_self kept
          simp [kept, zero, restSum]

theorem Layout.activeBytes_eq {page : Page} (layout : Layout page) :
    activeBytes (activeSlots page) = liveBytes page := by
  have permuted := (List.mergeSort_perm
    (((List.range page.header.slotCount).filter fun index =>
        (readSlot page.data index).offset ≠ 0 ∧
          (readSlot page.data index).length ≠ 0).map fun index =>
      { id := index
        offset := (readSlot page.data index).offset
        length := (readSlot page.data index).length : ActiveSlot })
    (fun left right => decide (left.offset ≤ right.offset))).map
      ActiveSlot.length
  rw [activeBytes, activeSlots, permuted.sum_nat, List.map_map, liveBytes,
    slotBytes]
  apply sum_map_filter_of_zero
  intro index member dropped
  have below := List.mem_range.mp member
  simp only [ne_eq, decide_eq_false_iff_not, not_and, not_not] at dropped
  by_contra nonzero
  have offsetZero : (readSlot page.data index).offset = 0 := by
    by_contra offsetNonzero
    exact nonzero (dropped offsetNonzero)
  have live : Live page index := ⟨below, fun unused => nonzero unused.2⟩
  have low := layout.above index live (Nat.pos_of_ne_zero nonzero)
  have start := layout.start_le
  omega

section Compact

variable {page : Page}

@[simp]
theorem compact_slotCount (page : Page) :
    (compact page).header.slotCount = page.header.slotCount := by
  rfl

def scratch (page : Page) : Buf := fun index =>
  if index < u16 (slotDirectoryStart + u16 (page.header.slotCount * slotSize))
  then page.data index else 0

def repacked (page : Page) : Buf × Nat :=
  (activeSlots page).reverse.foldl (repackStep page.data)
    (scratch page, u16 defaultPageSize)

theorem compact_eq (page : Page) :
    compact page =
      Page.writeHeader
        { page with
          data := (repacked page).1
          header.freeEnd := (repacked page).2
          header.freeStart :=
            u16 (slotDirectoryStart + u16 (page.header.slotCount * slotSize))
          dirty := true } := rfl

theorem compact_freeEnd_eq (page : Page) :
    (compact page).header.freeEnd = (repacked page).2 := by
  rw [compact_eq, Page.writeHeader_header]

theorem Layout.repacked_spec (layout : Layout page) :
    Repacked page.data page.header.slotCount (activeSlots page).reverse
      (scratch page) 16384 (repacked page) := by
  have reversedIds :
      ((activeSlots page).reverse.map ActiveSlot.id).Nodup := by
    rw [List.map_reverse, List.nodup_reverse]
    exact activeSlots_nodup page
  have reversedBytes :
      activeBytes (activeSlots page).reverse = liveBytes page := by
    rw [← layout.activeBytes_eq]
    simp [activeBytes, List.sum_reverse]
  have room := layout.packed
  have start := layout.start_le
  apply repack_spec
  · exact reversedIds
  · intro item member
    exact (mem_activeSlots.mp (List.mem_reverse.mp member)).1
  · rw [reversedBytes]
    omega
  · exact Nat.le_refl _

theorem Layout.compact_active (layout : Layout page) {slotID : Nat}
    (live : Live page slotID)
    (nonempty : 0 < (readSlot page.data slotID).length) :
    (⟨slotID, (readSlot page.data slotID).offset,
        (readSlot page.data slotID).length⟩ : ActiveSlot) ∈
      (activeSlots page).reverse := by
  have low := layout.above slotID live nonempty
  have start := layout.start_le
  rw [List.mem_reverse, mem_activeSlots]
  exact ⟨live.1, rfl, rfl, by simp only; omega, by simp only; omega⟩

theorem Layout.compact_readSlot (layout : Layout page) {slotID : Nat}
    (below : slotID < page.header.slotCount) :
    readSlot (compact page).data slotID =
      readSlot (repacked page).1 slotID := by
  have bound := layout.slotCount_le
  rw [compact_eq]
  exact readSlot_writeHeader _ (by omega)

theorem Layout.compact_readSlot_empty (layout : Layout page) {slotID : Nat}
    (below : slotID < page.header.slotCount)
    (empty : (readSlot page.data slotID).length = 0) :
    readSlot (compact page).data slotID = readSlot page.data slotID := by
  have bound := layout.slotCount_le
  have notActive :
      slotID ∉ (activeSlots page).reverse.map ActiveSlot.id := by
    intro member
    obtain ⟨item, itemMember, itemId⟩ := List.mem_map.mp member
    have facts := mem_activeSlots.mp (List.mem_reverse.mp itemMember)
    rw [itemId] at facts
    exact facts.2.2.2.2 (facts.2.2.1.trans empty)
  rw [layout.compact_readSlot below,
    layout.repacked_spec.other slotID below notActive]
  apply readSlot_congr
  intro position lower upper
  rw [slotOffset_eq (by omega)] at lower upper
  have inside : position <
      u16 (slotDirectoryStart + u16 (page.header.slotCount * slotSize)) := by
    rw [directoryEnd_eq bound]
    omega
  simp [scratch, inside]

theorem Layout.compact_length (layout : Layout page) {slotID : Nat}
    (below : slotID < page.header.slotCount) :
    (readSlot (compact page).data slotID).length =
      (readSlot page.data slotID).length := by
  by_cases nonempty : 0 < (readSlot page.data slotID).length
  · have live : Live page slotID := ⟨below, fun unused => by
      have := unused.2
      omega⟩
    have sameLength :=
      layout.repacked_spec.length_eq _ (layout.compact_active live nonempty)
    rw [layout.compact_readSlot below]
    exact sameLength
  · rw [layout.compact_readSlot_empty below (by omega)]

theorem Layout.compact_freeEnd (layout : Layout page) :
    (compact page).header.freeEnd + liveBytes page = 16384 := by
  have total := layout.repacked_spec.end_eq
  have bytes : activeBytes (activeSlots page).reverse = liveBytes page := by
    rw [← layout.activeBytes_eq]
    simp [activeBytes, List.sum_reverse]
  rw [bytes] at total
  rw [compact_freeEnd_eq]
  exact total

theorem Layout.compact_offset (layout : Layout page) {slotID : Nat}
    (live : Live page slotID)
    (nonempty : 0 < (readSlot page.data slotID).length) :
    (compact page).header.freeEnd ≤
        (readSlot (compact page).data slotID).offset ∧
      (readSlot (compact page).data slotID).offset +
          (readSlot page.data slotID).length ≤ 16384 := by
  have member := layout.compact_active live nonempty
  have lower := layout.repacked_spec.lower _ member
  have upper := layout.repacked_spec.upper _ member
  rw [layout.compact_readSlot live.1, compact_freeEnd_eq]
  exact ⟨lower, upper⟩

theorem Layout.compact_live_iff (layout : Layout page) {slotID : Nat} :
    Live (compact page) slotID ↔ Live page slotID := by
  unfold Live
  rw [compact_slotCount]
  apply and_congr_right
  intro below
  by_cases nonempty : 0 < (readSlot page.data slotID).length
  · have sameLength := layout.compact_length below
    constructor
    · intro _ unused
      have := unused.2
      omega
    · intro _ unused
      have := unused.2
      omega
  · rw [layout.compact_readSlot_empty below (by omega)]

theorem Layout.compact_content (layout : Layout page)
    (compacted : Layout (compact page)) :
    content (compact page) = content page := by
  funext slotID
  by_cases live : Live page slotID
  · have liveAfter : Live (compact page) slotID :=
      layout.compact_live_iff.mpr live
    rw [layout.content_live live, compacted.content_live liveAfter,
      layout.compact_length live.1]
    by_cases nonempty : 0 < (readSlot page.data slotID).length
    · have member := layout.compact_active live nonempty
      have low := (layout.compact_offset live nonempty).1
      have start := compacted.start_le
      rw [layout.compact_readSlot live.1] at low ⊢
      rw [compact_eq, Page.writeHeader_read _ (by omega)]
      exact congrArg some (layout.repacked_spec.bytes _ member)
    · have empty : (readSlot page.data slotID).length = 0 := by omega
      rw [empty, Buf.read_zero_length, Buf.read_zero_length]
  · rw [content_not_live live, content_not_live]
    exact fun liveAfter => live (layout.compact_live_iff.mp liveAfter)

theorem Layout.compact (layout : Layout page) : Layout (compact page) := by
  have bound := layout.slotCount_le
  have total := layout.compact_freeEnd
  have room := layout.packed
  have start := layout.start_le
  have sameBytes : liveBytes (Slotted.compact page) = liveBytes page := by
    unfold liveBytes slotBytes
    rw [compact_slotCount]
    congr 1
    apply List.map_congr_left
    intro index member
    exact layout.compact_length (List.mem_range.mp member)
  refine ⟨?_, ?_, ?_, ?_, ?_, ?_, ?_⟩
  · rw [compact_slotCount, ← directoryEnd_eq bound]
    rfl
  · rw [compact_slotCount]
    omega
  · omega
  · intro slotID liveAfter
    have live := layout.compact_live_iff.mp liveAfter
    by_cases nonempty : 0 < (readSlot page.data slotID).length
    · rw [layout.compact_length live.1]
      exact (layout.compact_offset live nonempty).2
    · rw [layout.compact_readSlot_empty live.1 (by omega)]
      exact layout.inside slotID live
  · intro slotID liveAfter nonempty
    have live := layout.compact_live_iff.mp liveAfter
    rw [layout.compact_length live.1] at nonempty
    exact (layout.compact_offset live nonempty).1
  · intro left right leftAfter rightAfter different leftSize rightSize
    have leftLive := layout.compact_live_iff.mp leftAfter
    have rightLive := layout.compact_live_iff.mp rightAfter
    rw [layout.compact_length leftLive.1] at leftSize ⊢
    rw [layout.compact_length rightLive.1] at rightSize ⊢
    have apart := layout.repacked_spec.apart _ _
      (layout.compact_active leftLive leftSize)
      (layout.compact_active rightLive rightSize) different
    rw [layout.compact_readSlot leftLive.1, layout.compact_readSlot rightLive.1]
    exact apart
  · rw [sameBytes]
    omega

theorem Layout.compact_liveBytes (layout : Layout page) :
    liveBytes (Slotted.compact page) = liveBytes page := by
  unfold liveBytes slotBytes
  rw [compact_slotCount]
  congr 1
  apply List.map_congr_left
  intro index member
  exact layout.compact_length (List.mem_range.mp member)

theorem Layout.compact_reserved (layout : Layout page) {position : Nat}
    (lower : 32 ≤ position) (upper : position < 64) :
    (Slotted.compact page).data position = page.data position := by
  have bound := layout.slotCount_le
  rw [compact_eq, Page.writeHeader_data_outside _ lower]
  simp only
  rw [layout.repacked_spec.frame position (Or.inl upper)]
  have inside : position <
      u16 (slotDirectoryStart + u16 (page.header.slotCount * slotSize)) := by
    rw [directoryEnd_eq bound]
    omega
  simp [scratch, inside]

end Compact

end CocoDB.Slotted
