import CocoDB.Storage.SlottedCompact

/-!
# A slotted page is a finite map

Every operation of a slotted page keeps `Layout` and acts on `content`, the map
from slots to payloads, in the obvious way.  The run theorem at the end puts
the operations together: whatever was done to a fresh page, the next operation
behaves as the map says.
-/

namespace CocoDB.Slotted

open Lib

/-! ## Placing a payload -/

/-- The effect of `place`: `payload` sits right below the old free end, bound
to the entry `slot` of a directory of `count` entries. -/
structure Placed (page : Page) (slot count : Nat) (payload : Bytes)
    (out : Page) : Prop where
  slotCount_eq : out.header.slotCount = count
  freeStart_eq : out.header.freeStart = 64 + 4 * count
  freeEnd_eq : out.header.freeEnd = page.header.freeEnd - payload.length
  entry : readSlot out.data slot =
    ⟨page.header.freeEnd - payload.length, payload.length⟩
  others : ∀ other, other < page.header.slotCount → other ≠ slot →
    readSlot out.data other = readSlot page.data other
  bytes : out.data.read (page.header.freeEnd - payload.length)
    payload.length = payload
  frame : ∀ position, page.header.freeEnd ≤ position →
    out.data position = page.data position
  reserved : ∀ position, 32 ≤ position → position < 64 →
    out.data position = page.data position
  identity : out.header.id = page.header.id ∧
    out.header.type = page.header.type

section Place

variable {page out : Page} {slot count : Nat} {payload : Bytes}

private theorem place_data
    (layout : Layout page)
    (slotBelow : slot < count) (countLe : page.header.slotCount ≤ count)
    (room : 64 + 4 * count + payload.length ≤ page.header.freeEnd)
    (header : PageHeader)
    (headerEq : header.slotCount = count ∧ header.freeStart = 64 + 4 * count ∧
      header.freeEnd = page.header.freeEnd - payload.length ∧
      header.id = page.header.id ∧ header.type = page.header.type) :
    Placed page slot count payload
      (Page.writeHeader
        { header := header
          data := writeSlot
            (page.data.write (page.header.freeEnd - payload.length) payload)
            slot ⟨page.header.freeEnd - payload.length, payload.length⟩
          dirty := true }) := by
  obtain ⟨countEq, startEq, endEq, idEq, typeEq⟩ := headerEq
  have upper := layout.end_le
  have directory := layout.start_le
  have count_le : count ≤ 4080 := by omega
  refine ⟨countEq, startEq, endEq, ?_, ?_, ?_, ?_, ?_, idEq, typeEq⟩
  · rw [readSlot_writeHeader _ (by omega)]
    exact readSlot_writeSlot_same _ _ (by simp only; omega)
      (by simp only; omega)
  · intro other below different
    rw [readSlot_writeHeader _ (by omega),
      readSlot_writeSlot_ne _ _ (by omega) (by omega) different]
    exact readSlot_write_above _ _ (by omega) (by omega)
  · rw [Page.writeHeader_read _ (by omega)]
    have aboveEntry :
        (writeSlot
          (page.data.write (page.header.freeEnd - payload.length) payload)
          slot ⟨page.header.freeEnd - payload.length, payload.length⟩).read
            (page.header.freeEnd - payload.length) payload.length =
          (page.data.write (page.header.freeEnd - payload.length)
            payload).read
            (page.header.freeEnd - payload.length) payload.length :=
      Buf.read_congr fun position lower _ =>
        writeSlot_apply_outside _ _ (by omega) (by omega)
    simp only
    rw [aboveEntry]
    exact Buf.read_write_same _ _ _
  · intro position outside
    rw [Page.writeHeader_data_outside _ (by omega)]
    simp only
    rw [writeSlot_apply_outside _ _ (by omega) (by omega)]
    exact Buf.write_apply_outside (by omega)
  · intro position lower below
    rw [Page.writeHeader_data_outside _ lower]
    simp only
    rw [writeSlot_apply_outside _ _ (by omega) (by omega)]
    exact Buf.write_apply_outside (by omega)

theorem Layout.place_some (layout : Layout page) (slot : Nat)
    (payload : Bytes) (small : payload.length < 65536)
    (slotBelow : slot < page.header.slotCount)
    (room : payload.length ≤ freeSpace page) :
    (place page (some slot) payload).1 = slot ∧
      Placed page slot page.header.slotCount payload
        (place page (some slot) payload).2 := by
  have upper := layout.end_le
  have directory := layout.start_le
  rw [layout.freeSpace_eq] at room
  refine ⟨rfl, ?_⟩
  simp only [place, u16_of_lt small, List.take_length,
    sub16_of_le (by omega : page.header.freeEnd < 65536)
      (by omega : payload.length ≤ page.header.freeEnd)]
  exact place_data layout slotBelow (Nat.le_refl _) (by omega) _
    ⟨rfl, layout.start_eq, rfl, rfl, rfl⟩

theorem Layout.place_none (layout : Layout page) (payload : Bytes)
    (room : payload.length + 4 ≤ freeSpace page) :
    (place page none payload).1 = page.header.slotCount ∧
      Placed page page.header.slotCount (page.header.slotCount + 1) payload
        (place page none payload).2 := by
  have upper := layout.end_le
  have directory := layout.start_le
  rw [layout.freeSpace_eq] at room
  refine ⟨rfl, ?_⟩
  simp only [place, u16_of_lt (by omega : payload.length < 65536),
    List.take_length,
    u16_of_lt (by omega : page.header.slotCount + 1 < 65536),
    directoryEnd_eq (by omega : page.header.slotCount + 1 ≤ 4080),
    sub16_of_le (by omega : page.header.freeEnd < 65536)
      (by omega : payload.length ≤ page.header.freeEnd)]
  exact place_data layout (by omega) (by omega) (by omega) _
    ⟨rfl, rfl, rfl, rfl, rfl⟩

namespace Placed

/-- The directory keeps its size, or grows by the entry just written. -/
def Growth (page : Page) (slot count : Nat) : Prop :=
  (slot < page.header.slotCount ∧ count = page.header.slotCount) ∨
    (slot = page.header.slotCount ∧ count = page.header.slotCount + 1)

theorem live_slot (placed : Placed page slot count payload out)
    (growth : Growth page slot count)
    (room : 64 + 4 * count + payload.length ≤ page.header.freeEnd) :
    Live out slot := by
  unfold Growth at growth
  refine ⟨by rw [placed.slotCount_eq]; omega, ?_⟩
  rw [placed.entry]
  intro unused
  have := unused.1
  simp only at this
  omega

theorem live_other (placed : Placed page slot count payload out)
    (growth : Growth page slot count)
    {other : Nat} (different : other ≠ slot) :
    Live out other ↔ Live page other := by
  unfold Growth at growth
  unfold Live
  rw [placed.slotCount_eq]
  constructor
  · rintro ⟨below, used⟩
    have inOld : other < page.header.slotCount := by omega
    exact ⟨inOld, by rwa [placed.others other inOld different] at used⟩
  · rintro ⟨below, used⟩
    exact ⟨by omega, by rwa [placed.others other below different]⟩

theorem liveBytes_le (placed : Placed page slot count payload out)
    (growth : Growth page slot count) :
    liveBytes out ≤ liveBytes page + payload.length := by
  unfold liveBytes
  rw [placed.slotCount_eq]
  rcases growth with ⟨below, rfl⟩ | ⟨rfl, rfl⟩
  · have shifted := slotBytes_update page.data out.data
      below fun index inRange different =>
        placed.others index inRange different
    rw [placed.entry] at shifted
    simp only at shifted
    omega
  · rw [slotBytes_succ, placed.entry]
    have same : slotBytes out.data page.header.slotCount =
        slotBytes page.data page.header.slotCount :=
      slotBytes_congr fun index inRange =>
        placed.others index inRange (by omega)
    simp only
    omega

theorem layout_out (placed : Placed page slot count payload out)
    (layout : Layout page) (growth : Growth page slot count)
    (room : 64 + 4 * count + payload.length ≤ page.header.freeEnd) :
    Layout out := by
  have bytes := placed.liveBytes_le growth
  have packedOld := layout.packed
  have upper := layout.end_le
  have liveOld : ∀ {other}, other ≠ slot → Live out other →
      Live page other ∧
        readSlot out.data other = readSlot page.data other := by
    intro other different liveOther
    have old := (placed.live_other growth different).mp liveOther
    exact ⟨old, placed.others other old.1 different⟩
  refine ⟨?_, ?_, ?_, ?_, ?_, ?_, ?_⟩
  · rw [placed.freeStart_eq, placed.slotCount_eq]
  · rw [placed.slotCount_eq, placed.freeEnd_eq]
    omega
  · rw [placed.freeEnd_eq]
    omega
  · intro other liveOther
    by_cases same : other = slot
    · subst same
      rw [placed.entry]
      simp only
      omega
    · obtain ⟨old, entryEq⟩ := liveOld same liveOther
      rw [entryEq]
      exact layout.inside other old
  · intro other liveOther nonempty
    rw [placed.freeEnd_eq]
    by_cases same : other = slot
    · subst same
      rw [placed.entry]
    · obtain ⟨old, entryEq⟩ := liveOld same liveOther
      rw [entryEq] at nonempty ⊢
      have := layout.above other old nonempty
      omega
  · intro left right leftLive rightLive different leftSize rightSize
    by_cases leftSame : left = slot
    · subst leftSame
      obtain ⟨old, entryEq⟩ := liveOld (Ne.symm different) rightLive
      rw [entryEq] at rightSize ⊢
      have := layout.above right old rightSize
      rw [placed.entry]
      simp only
      omega
    · obtain ⟨leftOld, leftEq⟩ := liveOld leftSame leftLive
      rw [leftEq] at leftSize ⊢
      by_cases rightSame : right = slot
      · subst rightSame
        have := layout.above left leftOld leftSize
        rw [placed.entry]
        simp only
        omega
      · obtain ⟨rightOld, rightEq⟩ := liveOld rightSame rightLive
        rw [rightEq] at rightSize ⊢
        exact layout.disjoint left right leftOld rightOld different
          leftSize rightSize
  · rw [placed.freeEnd_eq]
    omega

theorem content_out (placed : Placed page slot count payload out)
    (layout : Layout page) (growth : Growth page slot count)
    (room : 64 + 4 * count + payload.length ≤ page.header.freeEnd) :
    content out = Function.update (content page) slot (some payload) := by
  have layoutOut := placed.layout_out layout growth room
  funext other
  by_cases same : other = slot
  · subst same
    rw [Function.update_self,
      layoutOut.content_live (placed.live_slot growth room),
      placed.entry]
    exact congrArg some placed.bytes
  · rw [Function.update_of_ne same]
    by_cases old : Live page other
    · have new := (placed.live_other growth same).mpr old
      rw [layoutOut.content_live new, layout.content_live old,
        placed.others other old.1 same]
      by_cases nonempty : 0 < (readSlot page.data other).length
      · have low := layout.above other old nonempty
        exact congrArg some <| Buf.read_congr fun position lower _ =>
          placed.frame position (by omega)
      · have empty : (readSlot page.data other).length = 0 := by omega
        rw [empty, Buf.read_zero_length, Buf.read_zero_length]
    · rw [content_not_live old, content_not_live]
      exact fun new =>
        old ((placed.live_other growth same).mp new)

end Placed

end Place

/-! ## Insert -/

theorem findUnused_some {page : Page} {slot : Nat}
    (found : findUnused page = some slot) :
    slot < page.header.slotCount ∧ ¬ Live page slot := by
  have member := List.mem_of_find?_eq_some found
  have unused := List.find?_some found
  simp only [decide_eq_true_eq] at unused
  exact ⟨List.mem_range.mp member, fun live => live.2 unused⟩

theorem findUnused_none {page : Page} (missing : findUnused page = none)
    {slot : Nat} (below : slot < page.header.slotCount) :
    Live page slot := by
  have used := List.find?_eq_none.mp missing slot (List.mem_range.mpr below)
  simp only [decide_eq_true_eq] at used
  exact ⟨below, used⟩

def entryCost (page : Page) : Nat :=
  if (findUnused page).isNone then slotSize else 0

def insertDemand (page : Page) (payload : Bytes) : Nat :=
  64 + 4 * page.header.slotCount + liveBytes page + payload.length +
    entryCost page

structure InsertSpec (page : Page) (payload : Bytes) : Prop where
  layout_out : Layout (insert page payload).2
  reserved : ∀ position, 32 ≤ position → position < 64 →
    (insert page payload).2.data position = page.data position
  identity : (insert page payload).2.header.id = page.header.id ∧
    (insert page payload).2.header.type = page.header.type
  full : 16384 < insertDemand page payload →
    (insert page payload).1 = .error .pageFull ∧
      content (insert page payload).2 = content page
  fits : insertDemand page payload ≤ 16384 →
    (insert page payload).1 =
        .ok ((findUnused page).getD page.header.slotCount) ∧
      ¬ Live page ((findUnused page).getD page.header.slotCount) ∧
      content (insert page payload).2 =
        Function.update (content page)
          ((findUnused page).getD page.header.slotCount) (some payload) ∧
      (insert page payload).2.header.slotCount =
        page.header.slotCount + entryCost page / 4 ∧
      liveBytes (insert page payload).2 ≤ liveBytes page + payload.length

/-- The page an insertion works on: compacted only when it lacks room. -/
def roomy (page : Page) (needed : Nat) : Page :=
  if freeSpace page < needed then compact page else page

theorem Layout.roomy_spec {page : Page} (layout : Layout page)
    (needed : Nat) :
    Layout (roomy page needed) ∧
    content (roomy page needed) = content page ∧
    (∀ slot, Live (roomy page needed) slot ↔ Live page slot) ∧
    (roomy page needed).header.slotCount = page.header.slotCount ∧
    liveBytes (roomy page needed) = liveBytes page ∧
    (∀ position, 32 ≤ position → position < 64 →
      (roomy page needed).data position = page.data position) ∧
    ((roomy page needed).header.id = page.header.id ∧
      (roomy page needed).header.type = page.header.type) ∧
    (freeSpace (roomy page needed) < needed ↔
      16384 < 64 + 4 * page.header.slotCount + liveBytes page + needed) := by
  unfold roomy
  split
  · have compacted := layout.compact
    have total := layout.compact_freeEnd
    have start := compacted.start_le
    rw [compact_slotCount] at start
    refine ⟨compacted, layout.compact_content compacted,
      fun slot => layout.compact_live_iff, compact_slotCount page,
      layout.compact_liveBytes,
      fun position lower upper => layout.compact_reserved lower upper,
      ⟨rfl, rfl⟩, ?_⟩
    rw [compacted.freeSpace_eq, compact_slotCount]
    omega
  · rename_i enough
    have packedOld := layout.packed
    have start := layout.start_le
    have exact_ := layout.freeSpace_eq
    exact ⟨layout, rfl, fun _ => Iff.rfl, rfl, rfl, fun _ _ _ => rfl,
      ⟨rfl, rfl⟩, by omega⟩

theorem Layout.insert_spec {page : Page} (layout : Layout page)
    {payload : Bytes} (small : payload.length < 65532) :
    InsertSpec page payload := by
  have payLen : u16 payload.length = payload.length :=
    u16_of_lt (by omega)
  have withEntry :
      u16 (payload.length + slotSize) = payload.length + slotSize :=
    u16_of_lt (by simp only [slotSize]; omega)
  have needed :
      (if (findUnused page).isNone = true then
          u16 (u16 payload.length + slotSize)
        else u16 payload.length) = payload.length + entryCost page := by
    rw [payLen, withEntry, entryCost]
    split <;> rfl
  have unfolded : insert page payload =
      if freeSpace (roomy page (payload.length + entryCost page)) <
          payload.length + entryCost page then
        (.error .pageFull, roomy page (payload.length + entryCost page))
      else
        (.ok (place (roomy page (payload.length + entryCost page))
            (findUnused page) payload).1,
          (place (roomy page (payload.length + entryCost page))
            (findUnused page) payload).2) := by
    simp only [insert, needed, roomy]
    rfl
  obtain ⟨roomyLayout, sameContent, sameLive, sameCount, sameBytes,
    sameReserved, sameIdentity, fullIff⟩ :=
    layout.roomy_spec (payload.length + entryCost page)
  generalize roomy page (payload.length + entryCost page) = base at *
  have demand : insertDemand page payload =
      64 + 4 * page.header.slotCount + liveBytes page +
        (payload.length + entryCost page) := by
    unfold insertDemand
    omega
  by_cases full : freeSpace base < payload.length + entryCost page
  · rw [if_pos full] at unfolded
    have exceeds := fullIff.mp full
    rw [← demand] at exceeds
    refine ⟨?_, ?_, ?_, ?_, ?_⟩
    · rw [unfolded]
      exact roomyLayout
    · rw [unfolded]
      exact sameReserved
    · rw [unfolded]
      exact sameIdentity
    · intro _
      rw [unfolded]
      exact ⟨rfl, sameContent⟩
    · intro fits
      omega
  · rw [if_neg full] at unfolded
    have under : insertDemand page payload ≤ 16384 := by
      rw [demand]
      by_contra exceeds
      exact full (fullIff.mpr (by omega))
    -- Both ways of choosing the entry leave the same kind of page.
    obtain ⟨slotEq, count, placed, growth, room, countEq⟩ :
        (place base (findUnused page) payload).1 =
            (findUnused page).getD page.header.slotCount ∧
        ∃ count,
          Placed base ((findUnused page).getD page.header.slotCount) count
            payload (place base (findUnused page) payload).2 ∧
          Placed.Growth base
            ((findUnused page).getD page.header.slotCount) count ∧
          64 + 4 * count + payload.length ≤ base.header.freeEnd ∧
          count = page.header.slotCount + entryCost page / 4 := by
      have space := roomyLayout.freeSpace_eq
      have start := roomyLayout.start_le
      cases found : findUnused page with
      | some slot =>
          have below := (findUnused_some found).1
          have free : entryCost page = 0 := by simp [entryCost, found]
          rw [free] at full
          have placed := roomyLayout.place_some slot payload (by omega)
            (by omega) (by omega)
          exact ⟨placed.1, base.header.slotCount, placed.2,
            Or.inl ⟨by simpa [sameCount] using below, rfl⟩, by omega,
            by rw [free, sameCount, Nat.zero_div, Nat.add_zero]⟩
      | none =>
          have cost : entryCost page = 4 := by
            simp [entryCost, found, slotSize]
          rw [cost] at full
          have placed := roomyLayout.place_none payload (by omega)
          rw [sameCount] at placed
          exact ⟨placed.1, page.header.slotCount + 1, placed.2,
            Or.inr ⟨by simp [sameCount], by rw [sameCount]⟩, by omega,
            by rw [cost]⟩
    have dead :
        ¬ Live page ((findUnused page).getD page.header.slotCount) := by
      cases found : findUnused page with
      | some slot => exact (findUnused_some found).2
      | none => exact fun live => Nat.lt_irrefl _ live.1
    refine ⟨?_, ?_, ?_, ?_, ?_⟩
    · rw [unfolded]
      exact placed.layout_out roomyLayout growth room
    · intro position lower upper
      rw [unfolded]
      simp only
      rw [placed.reserved position lower upper,
        sameReserved position lower upper]
    · rw [unfolded]
      simp only
      rw [placed.identity.1, placed.identity.2]
      exact sameIdentity
    · intro exceeds
      omega
    · intro _
      rw [unfolded]
      simp only
      refine ⟨by rw [slotEq], dead, ?_, ?_, ?_⟩
      · rw [placed.content_out roomyLayout growth room, sameContent]
      · rw [placed.slotCount_eq, countEq]
      · have bytes := placed.liveBytes_le growth
        rw [sameBytes] at bytes
        exact bytes

end CocoDB.Slotted
