import CocoDB.BTree.Node
import CocoDB.Storage.SlottedRun

/-!
# What B+tree nodes hold

A node page written by `setItems` holds its items in slots `0, 1, ...` without
gaps.  `LeafPage` and `InternalPage` say so, and every accessor of
`CocoDB.BTree.Node` is determined by them.
-/

namespace CocoDB.BTree

open Lib Slotted

/-! ## Pages filled without gaps -/

def packedSize (payloads : List Bytes) : Nat :=
  (payloads.map fun payload => 4 + payload.length).sum

def Fits (payloads : List Bytes) : Prop := 64 + packedSize payloads ≤ 16384

instance (payloads : List Bytes) : Decidable (Fits payloads) :=
  inferInstanceAs (Decidable (_ ≤ _))

/-- Slot `i` holds the `i`-th payload and there are no other slots. -/
structure Filled (page : Page) (payloads : List Bytes) : Prop where
  layout : Layout page
  slotCount_eq : page.header.slotCount = payloads.length
  content_eq : content page = fun slotID => payloads[slotID]?

theorem packedSize_append (left right : List Bytes) :
    packedSize (left ++ right) = packedSize left + packedSize right := by
  simp [packedSize]

theorem packedSize_eq (payloads : List Bytes) :
    packedSize payloads =
      4 * payloads.length + (payloads.map List.length).sum := by
  induction payloads with
  | nil => rfl
  | cons payload rest inductionHypothesis =>
      simp only [packedSize, List.map_cons, List.sum_cons,
        List.length_cons] at inductionHypothesis ⊢
      omega

private theorem range_map_getD (payloads : List Bytes) :
    ((List.range payloads.length).map fun index =>
      ((payloads[index]?).getD []).length) = payloads.map List.length := by
  apply List.ext_getElem
  · simp
  · intro index leftBound rightBound
    simp at leftBound
    simp [leftBound]

namespace Filled

variable {page : Page} {payloads : List Bytes}

theorem liveBytes_eq (filled : Filled page payloads) :
    liveBytes page = (payloads.map List.length).sum := by
  rw [← filled.layout.contentBytes_eq, filled.content_eq,
    filled.slotCount_eq, range_map_getD]

theorem live_iff (filled : Filled page payloads) {slotID : Nat} :
    Live page slotID ↔ slotID < payloads.length := by
  rw [← filled.layout.content_isSome, filled.content_eq]
  simp

theorem findUnused_eq (filled : Filled page payloads) :
    findUnused page = none := by
  cases found : findUnused page with
  | none => rfl
  | some slot =>
      obtain ⟨below, dead⟩ := findUnused_some found
      rw [filled.slotCount_eq] at below
      exact absurd (filled.live_iff.mpr below) dead

theorem fits (filled : Filled page payloads) : Fits payloads := by
  have start := filled.layout.start_le
  have packed := filled.layout.packed
  rw [filled.liveBytes_eq] at packed
  rw [filled.slotCount_eq] at start
  unfold Fits
  rw [packedSize_eq]
  omega

theorem get_eq (filled : Filled page payloads) {slotID : Nat}
    {payload : Bytes} (found : payloads[slotID]? = some payload) :
    Slotted.get page slotID = .ok payload := by
  have behaves := filled.layout.behavesAs
  exact (behaves.get_bound slotID payload
    (by rw [filled.content_eq]; exact found)).1

theorem with_dirty (filled : Filled page payloads) (dirty : Bool) :
    Filled { page with dirty := dirty } payloads :=
  ⟨⟨filled.layout.start_eq, filled.layout.start_le, filled.layout.end_le,
      filled.layout.inside, filled.layout.above, filled.layout.disjoint,
      filled.layout.packed⟩,
    filled.slotCount_eq, filled.content_eq⟩

theorem insert_spec (filled : Filled page payloads) {payload : Bytes}
    (small : payload.length < 65532) :
    (Fits (payloads ++ [payload]) →
      (Slotted.insert page payload).1 = .ok payloads.length ∧
        Filled (Slotted.insert page payload).2 (payloads ++ [payload])) ∧
    (¬ Fits (payloads ++ [payload]) →
      (Slotted.insert page payload).1 = .error .pageFull) := by
  have spec := filled.layout.insert_spec small
  have cost : entryCost page = 4 := by
    simp [entryCost, filled.findUnused_eq, slotSize]
  have demand : insertDemand page payload =
      64 + packedSize (payloads ++ [payload]) := by
    rw [packedSize_append, packedSize_eq]
    unfold insertDemand
    rw [filled.liveBytes_eq, filled.slotCount_eq, cost]
    simp only [packedSize, List.map_cons, List.map_nil, List.sum_cons,
      List.sum_nil]
    omega
  constructor
  · intro roomy
    unfold Fits at roomy
    obtain ⟨done, _, bound, countEq, _⟩ := spec.fits (by omega)
    rw [filled.findUnused_eq, Option.getD_none, filled.slotCount_eq]
      at done bound
    refine ⟨done, spec.layout_out, ?_, ?_⟩
    · rw [countEq, filled.slotCount_eq, cost, List.length_append]
      rfl
    · rw [bound, filled.content_eq]
      funext slotID
      by_cases last : slotID = payloads.length
      · subst last
        simp
      · rw [Function.update_of_ne last]
        by_cases inside : slotID < payloads.length
        · rw [List.getElem?_append_left inside]
        · rw [List.getElem?_eq_none (by omega),
            List.getElem?_eq_none (by simp; omega)]
  · intro full
    unfold Fits at full
    exact (spec.full (by omega)).1

end Filled

/-- What a node page keeps while it is refilled. -/
structure SameFrame (page out : Page) : Prop where
  reserved : ∀ position, 32 ≤ position → position < 64 →
    out.data position = page.data position
  id_eq : out.header.id = page.header.id
  type_eq : out.header.type = page.header.type

theorem SameFrame.trans {page middle out : Page}
    (first : SameFrame page middle) (second : SameFrame middle out) :
    SameFrame page out :=
  ⟨fun position lower upper =>
      (second.reserved position lower upper).trans
        (first.reserved position lower upper),
    second.id_eq.trans first.id_eq, second.type_eq.trans first.type_eq⟩

theorem fill_spec : ∀ (rest stored : List Bytes) (page : Page),
    Filled page stored →
    (∀ payload, payload ∈ rest → payload.length < 65532) →
    SameFrame page (fill page stored.length rest).2 ∧
    (Fits (stored ++ rest) →
      (fill page stored.length rest).1 = .ok () ∧
      (fill page stored.length rest).2.dirty = true ∧
        Filled (fill page stored.length rest).2 (stored ++ rest)) ∧
    (¬ Fits (stored ++ rest) →
      (fill page stored.length rest).1 = .error .pageFull)
  | [], stored, page, filled, _ => by
      refine ⟨⟨fun _ _ _ => rfl, rfl, rfl⟩, ?_, ?_⟩
      · intro _
        rw [List.append_nil]
        exact ⟨rfl, rfl, filled.with_dirty true⟩
      · intro full
        rw [List.append_nil] at full
        exact absurd filled.fits full
  | payload :: rest, stored, page, filled, small => by
      have payloadSmall := small payload List.mem_cons_self
      have spec := filled.layout.insert_spec payloadSmall
      have frame : SameFrame page (Slotted.insert page payload).2 :=
        ⟨spec.reserved, spec.identity.1, spec.identity.2⟩
      obtain ⟨fitting, failing⟩ := filled.insert_spec payloadSmall
      have split : stored ++ payload :: rest =
          (stored ++ [payload]) ++ rest := by simp
      by_cases roomy : Fits (stored ++ [payload])
      · obtain ⟨done, filledNext⟩ := fitting roomy
        have count : stored.length < 65536 := by
          have bound := filled.layout.slotCount_le
          rw [filled.slotCount_eq] at bound
          omega
        have next : fill page stored.length (payload :: rest) =
            fill (Slotted.insert page payload).2
              (stored ++ [payload]).length rest := by
          rw [fill]
          rcases result : Slotted.insert page payload with ⟨outcome, after⟩
          rw [result] at done
          simp only at done
          subst done
          simp [u16_of_lt count]
        rw [next, split]
        obtain ⟨restFrame, restFits, restFull⟩ :=
          fill_spec rest (stored ++ [payload])
            (Slotted.insert page payload).2 filledNext
            fun other member => small other (List.mem_cons_of_mem _ member)
        exact ⟨frame.trans restFrame, restFits, restFull⟩
      · have failed := failing roomy
        have stop : fill page stored.length (payload :: rest) =
            (.error .pageFull, (Slotted.insert page payload).2) := by
          rw [fill]
          rcases result : Slotted.insert page payload with ⟨outcome, after⟩
          rw [result] at failed
          simp only at failed
          subst failed
          rfl
        have overfull : ¬ Fits (stored ++ payload :: rest) := by
          intro fits
          rw [split] at fits
          unfold Fits at fits roomy
          rw [packedSize_append] at fits
          omega
        rw [stop]
        exact ⟨frame, fun fits => absurd fits overfull, fun _ => rfl⟩

/-! ## Blank pages and pointers -/

theorem readPageID_congr {left right : Buf} {offset : Nat}
    (agree : ∀ position, offset ≤ position → position < offset + 8 →
      left position = right position) :
    readPageID left offset = readPageID right offset := by
  unfold readPageID
  rw [Buf.read_congr agree]

@[simp]
theorem readPageID_writePageID (page : Page) (offset : Nat) (id : PageID) :
    readPageID (writePageID page offset id).data offset = id := by
  have stored : (page.data.write offset (be 8 id.toNat)).read offset 8 =
      be 8 id.toNat := by
    simpa using Buf.read_write_same page.data offset (be 8 id.toNat)
  simp only [readPageID, writePageID, stored, ofBE_be64]

theorem readPageID_writePageID_ne (page : Page) {offset other : Nat}
    (id : PageID) (apart : other + 8 ≤ offset ∨ offset + 8 ≤ other) :
    readPageID (writePageID page offset id).data other =
      readPageID page.data other :=
  readPageID_congr fun position lower upper =>
    Buf.write_apply_outside (by simp; omega)

theorem Filled.writePageID {page : Page} {payloads : List Bytes}
    (filled : Filled page payloads) {offset : Nat} (id : PageID)
    (inHeader : offset + 8 ≤ 64) :
    Filled (writePageID page offset id) payloads := by
  have bound := filled.layout.slotCount_le
  have start := filled.layout.start_le
  have outside : ∀ position, 64 ≤ position →
      (BTree.writePageID page offset id).data position =
        page.data position :=
    fun position lower => Buf.write_apply_outside (by simp; omega)
  have slots : ∀ slotID, slotID < page.header.slotCount →
      readSlot (BTree.writePageID page offset id).data slotID =
        readSlot page.data slotID := by
    intro slotID below
    apply readSlot_congr
    intro position lower upper
    rw [slotOffset_eq (by omega)] at lower
    exact outside position (by omega)
  have liveSame : ∀ slotID,
      Live (BTree.writePageID page offset id) slotID ↔
        Live page slotID := by
    intro slotID
    unfold Live
    exact and_congr_right fun below => by rw [slots slotID below]
  have layoutOut : Layout (BTree.writePageID page offset id) := by
    refine ⟨filled.layout.start_eq, start, filled.layout.end_le,
      ?_, ?_, ?_, ?_⟩
    · intro slotID live
      have old := (liveSame slotID).mp live
      rw [slots slotID old.1]
      exact filled.layout.inside slotID old
    · intro slotID live nonempty
      have old := (liveSame slotID).mp live
      rw [slots slotID old.1] at nonempty ⊢
      exact filled.layout.above slotID old nonempty
    · intro left right leftLive rightLive different leftSize rightSize
      have leftOld := (liveSame left).mp leftLive
      have rightOld := (liveSame right).mp rightLive
      rw [slots left leftOld.1] at leftSize ⊢
      rw [slots right rightOld.1] at rightSize ⊢
      exact filled.layout.disjoint left right leftOld rightOld different
        leftSize rightSize
    · have same : liveBytes (BTree.writePageID page offset id) =
          liveBytes page := slotBytes_congr slots
      rw [same]
      exact filled.layout.packed
  refine ⟨layoutOut, filled.slotCount_eq, ?_⟩
  rw [← filled.content_eq]
  funext slotID
  by_cases live : Live page slotID
  · rw [layoutOut.content_live ((liveSame slotID).mpr live),
      filled.layout.content_live live, slots slotID live.1]
    by_cases nonempty : 0 < (readSlot page.data slotID).length
    · have low := filled.layout.above slotID live nonempty
      exact congrArg some <| Buf.read_congr fun position lower _ =>
        outside position (by omega)
    · have empty : (readSlot page.data slotID).length = 0 := by omega
      rw [empty, Buf.read_zero_length, Buf.read_zero_length]
  · rw [content_not_live live, content_not_live]
    exact fun new => live ((liveSame slotID).mp new)

theorem blank_filled (page : Page) (type : PageType) :
    Filled (blank page type) [] := by
  have header : (blank page type).header =
      { id := page.header.id, type := type, slotCount := 0,
        freeStart := 64, freeEnd := 16384 } := rfl
  have noSlot : ∀ slotID, ¬ Live (blank page type) slotID := by
    intro slotID live
    exact Nat.not_lt_zero _ live.1
  refine ⟨⟨?_, ?_, ?_, ?_, ?_, ?_, ?_⟩, rfl, ?_⟩
  · simp only [header]
  · simp only [header]
    omega
  · simp only [header]
    omega
  · exact fun slotID live => absurd live (noSlot slotID)
  · exact fun slotID live => absurd live (noSlot slotID)
  · exact fun left right live => absurd live (noSlot left)
  · simp only [liveBytes, header]
    exact Nat.le_refl _
  · funext slotID
    rw [content_not_live (noSlot slotID)]
    rfl

end CocoDB.BTree
