import CocoDB.Storage.SlottedMap

/-!
# Runs of slotted-page operations

The remaining operations, and the theorem about whole runs: a page and the map
it stands for are driven by the same operations, the map being told only which
slot an insertion returned and whether an operation failed, and the two never
disagree.
-/

namespace CocoDB.Slotted

open Lib

section Update

variable {page : Page} {slotID : Nat} {payload : Bytes}

private theorem Layout.shrink (layout : Layout page)
    (live : Live page slotID)
    (shorter : payload.length ≤ (readSlot page.data slotID).length)
    {out : Page}
    (outEq : out = Page.writeHeader
      { page with
        data := writeSlot
          (page.data.write (readSlot page.data slotID).offset payload)
          slotID ⟨(readSlot page.data slotID).offset, payload.length⟩
        dirty := true }) :
    Layout out ∧
    content out = Function.update (content page) slotID (some payload) ∧
    (∀ position, 32 ≤ position → position < 64 →
      out.data position = page.data position) := by
  have bound := layout.slotCount_le
  have upper := layout.end_le
  have start := layout.start_le
  have below := live.1
  have inside := layout.inside slotID live
  have offsetSmall := readSlot_offset_lt page.data slotID
  have lengthSmall := readSlot_length_lt page.data slotID
  -- A non-empty payload lies above the directory, so writing it cannot reach
  -- an entry; writing an empty one changes nothing.
  have above : 0 < payload.length →
      page.header.freeEnd ≤ (readSlot page.data slotID).offset :=
    fun nonempty => layout.above slotID live (by omega)
  have entryAt : ∀ index, index < page.header.slotCount →
      readSlot
        (page.data.write (readSlot page.data slotID).offset payload) index =
          readSlot page.data index := by
    intro index inRange
    by_cases nonempty : 0 < payload.length
    · have := above nonempty
      exact readSlot_write_above _ _ (by omega) (by omega)
    · have empty : payload = [] :=
        List.eq_nil_of_length_eq_zero (by omega)
      rw [empty, Buf.write_nil]
  have entry : readSlot out.data slotID =
      ⟨(readSlot page.data slotID).offset, payload.length⟩ := by
    rw [outEq, readSlot_writeHeader _ (by omega)]
    exact readSlot_writeSlot_same _ _ offsetSmall (by simp only; omega)
  have others : ∀ other, other < page.header.slotCount → other ≠ slotID →
      readSlot out.data other = readSlot page.data other := by
    intro other inRange different
    rw [outEq, readSlot_writeHeader _ (by omega),
      readSlot_writeSlot_ne _ _ (by omega) (by omega) different]
    exact entryAt other inRange
  have countEq : out.header.slotCount = page.header.slotCount := by
    rw [outEq]
    rfl
  have endEq : out.header.freeEnd = page.header.freeEnd := by
    rw [outEq]
    rfl
  have startEq : out.header.freeStart = page.header.freeStart := by
    rw [outEq]
    rfl
  have frame : ∀ position, 32 ≤ position →
      (position < 64 ∨ 64 + 4 * page.header.slotCount ≤ position) →
      (position < (readSlot page.data slotID).offset ∨
        (readSlot page.data slotID).offset + payload.length ≤ position ∨
        payload.length = 0) →
      out.data position = page.data position := by
    intro position lower outsideDirectory outsidePayload
    rw [outEq, Page.writeHeader_data_outside _ lower]
    simp only
    rw [writeSlot_apply_outside _ _ (by omega) (by omega)]
    exact Buf.write_apply_outside (by omega)
  have liveSlot : Live out slotID := by
    refine ⟨by rw [countEq]; exact below, ?_⟩
    rw [entry]
    intro unused
    have offsetZero : (readSlot page.data slotID).offset = 0 := unused.1
    by_cases nonempty : 0 < (readSlot page.data slotID).length
    · have := layout.above slotID live nonempty
      omega
    · exact live.2 ⟨offsetZero, by omega⟩
  have liveOther : ∀ other, other ≠ slotID →
      (Live out other ↔ Live page other) := by
    intro other different
    unfold Live
    rw [countEq]
    exact and_congr_right fun inRange => by
      rw [others other inRange different]
  have layoutOut : Layout out := by
    refine ⟨by rw [startEq, countEq]; exact layout.start_eq,
      by rw [endEq, countEq]; exact start, by rw [endEq]; exact upper,
      ?_, ?_, ?_, ?_⟩
    · intro other liveAfter
      by_cases same : other = slotID
      · subst same
        rw [entry]
        simp only
        omega
      · have old := (liveOther other same).mp liveAfter
        rw [others other old.1 same]
        exact layout.inside other old
    · intro other liveAfter nonempty
      rw [endEq]
      by_cases same : other = slotID
      · subst same
        rw [entry] at nonempty ⊢
        exact above nonempty
      · have old := (liveOther other same).mp liveAfter
        rw [others other old.1 same] at nonempty ⊢
        exact layout.above other old nonempty
    · intro left right leftAfter rightAfter different leftSize rightSize
      by_cases leftSame : left = slotID
      · subst leftSame
        have old := (liveOther right (Ne.symm different)).mp rightAfter
        rw [others right old.1 (Ne.symm different)] at rightSize ⊢
        rw [entry] at leftSize ⊢
        simp only at leftSize ⊢
        have apart := layout.disjoint left right live old different
          (by omega) rightSize
        omega
      · have leftOld := (liveOther left leftSame).mp leftAfter
        rw [others left leftOld.1 leftSame] at leftSize ⊢
        by_cases rightSame : right = slotID
        · subst rightSame
          rw [entry] at rightSize ⊢
          simp only at rightSize ⊢
          have apart := layout.disjoint left right leftOld live different
            leftSize (by omega)
          omega
        · have rightOld := (liveOther right rightSame).mp rightAfter
          rw [others right rightOld.1 rightSame] at rightSize ⊢
          exact layout.disjoint left right leftOld rightOld different
            leftSize rightSize
    · have shifted := slotBytes_update page.data out.data
        below others
      rw [entry] at shifted
      simp only at shifted
      have packedOld := layout.packed
      unfold liveBytes at packedOld ⊢
      rw [endEq, countEq]
      omega
  refine ⟨layoutOut, ?_, ?_⟩
  · funext other
    by_cases same : other = slotID
    · subst same
      rw [Function.update_self, layoutOut.content_live liveSlot, entry]
      simp only
      by_cases nonempty : 0 < payload.length
      · have := above nonempty
        have aboveEntry :
            out.data.read (readSlot page.data other).offset payload.length =
              (page.data.write (readSlot page.data other).offset payload).read
                (readSlot page.data other).offset payload.length := by
          rw [outEq, Page.writeHeader_read _ (by omega)]
          exact Buf.read_congr fun position lower _ =>
            writeSlot_apply_outside _ _ (by omega) (by omega)
        rw [aboveEntry, Buf.read_write_same]
      · have empty : payload = [] :=
          List.eq_nil_of_length_eq_zero (by omega)
        rw [empty, List.length_nil, Buf.read_zero_length]
    · rw [Function.update_of_ne same]
      by_cases old : Live page other
      · have new := (liveOther other same).mpr old
        rw [layoutOut.content_live new, layout.content_live old,
          others other old.1 same]
        by_cases nonempty : 0 < (readSlot page.data other).length
        · have low := layout.above other old nonempty
          refine congrArg some <| Buf.read_congr fun position lower high => ?_
          apply frame position (by omega) (by omega)
          by_cases written : 0 < payload.length
          · have apart := layout.disjoint other slotID old live same
              nonempty (by omega)
            omega
          · omega
        · have empty : (readSlot page.data other).length = 0 := by omega
          rw [empty, Buf.read_zero_length, Buf.read_zero_length]
      · rw [content_not_live old, content_not_live]
        exact fun new => old ((liveOther other same).mp new)
  · intro position lower high
    apply frame position lower (Or.inl high)
    by_cases written : 0 < payload.length
    · have := above written
      omega
    · omega

structure UpdateSpec (page : Page) (slotID : Nat) (payload : Bytes) :
    Prop where
  layout_out : Layout (update page slotID payload).2
  reserved : ∀ position, 32 ≤ position → position < 64 →
    (update page slotID payload).2.data position = page.data position
  failed : ∀ error, (update page slotID payload).1 = .error error →
    content (update page slotID payload).2 = content page
  done : (update page slotID payload).1 = .ok () →
    Live page slotID ∧
      content (update page slotID payload).2 =
        Function.update (content page) slotID (some payload)
  dead : ¬ Live page slotID →
    (update page slotID payload).1 = .error .slotNotFound

private theorem update_dead (payload : Bytes)
    (dead : ¬ Live page slotID) :
    update page slotID payload = (.error .slotNotFound, page) := by
  unfold update
  simp only
  split
  · rfl
  · rename_i inRange
    have unused : (readSlot page.data slotID).unused := by
      by_contra used
      exact dead ⟨by omega, used⟩
    rw [if_pos unused]

theorem Layout.update_spec (layout : Layout page) (slotID : Nat)
    (small : payload.length < 65532) :
    UpdateSpec page slotID payload := by
  have payLen : u16 payload.length = payload.length :=
    u16_of_lt (by omega)
  by_cases live : Live page slotID
  · by_cases shorter :
        payload.length ≤ (readSlot page.data slotID).length
    · obtain ⟨layoutOut, contentOut, reservedOut⟩ :=
        layout.shrink live shorter rfl
      have unfolded : update page slotID payload =
          (.ok (), Page.writeHeader
            { page with
              data := writeSlot
                (page.data.write (readSlot page.data slotID).offset payload)
                slotID ⟨(readSlot page.data slotID).offset, payload.length⟩
              dirty := true }) := by
        simp only [update, payLen, List.take_length]
        rw [if_neg (by have := live.1; omega), if_neg live.2, if_pos shorter]
      refine ⟨?_, ?_, ?_, ?_, fun dead => absurd live dead⟩
      · rw [unfolded]
        exact layoutOut
      · rw [unfolded]
        exact reservedOut
      · intro error failed
        rw [unfolded] at failed
        cases failed
      · intro _
        rw [unfolded]
        exact ⟨live, contentOut⟩
    · obtain ⟨roomyLayout, sameContent, sameLive, sameCount, sameBytes,
        sameReserved, sameIdentity, fullIff⟩ :=
        layout.roomy_spec payload.length
      have unfolded : update page slotID payload =
          if freeSpace (roomy page payload.length) < payload.length then
            (.error .pageFull, roomy page payload.length)
          else
            (.ok (), (place (roomy page payload.length) (some slotID)
              payload).2) := by
        simp only [update, payLen, roomy]
        rw [if_neg (by have := live.1; omega), if_neg live.2,
          if_neg shorter]
        rfl
      generalize roomy page payload.length = base at *
      by_cases full : freeSpace base < payload.length
      · rw [if_pos full] at unfolded
        refine ⟨?_, ?_, ?_, ?_, fun dead => absurd live dead⟩
        · rw [unfolded]
          exact roomyLayout
        · rw [unfolded]
          exact sameReserved
        · intro error _
          rw [unfolded]
          exact sameContent
        · intro done
          rw [unfolded] at done
          cases done
      · rw [if_neg full] at unfolded
        have below : slotID < base.header.slotCount := by
          rw [sameCount]
          exact live.1
        have placed := (roomyLayout.place_some slotID payload (by omega)
          below (by omega)).2
        have space := roomyLayout.freeSpace_eq
        have start := roomyLayout.start_le
        have growth : Placed.Growth base slotID base.header.slotCount :=
          Or.inl ⟨below, rfl⟩
        refine ⟨?_, ?_, ?_, ?_, fun dead => absurd live dead⟩
        · rw [unfolded]
          exact placed.layout_out roomyLayout growth (by omega)
        · intro position lower upper
          rw [unfolded]
          simp only
          rw [placed.reserved position lower upper,
            sameReserved position lower upper]
        · intro error failed
          rw [unfolded] at failed
          cases failed
        · intro _
          rw [unfolded]
          refine ⟨live, ?_⟩
          simp only
          rw [placed.content_out roomyLayout growth (by omega), sameContent]
  · have unfolded := update_dead payload live
    refine ⟨?_, ?_, ?_, ?_, ?_⟩
    · rw [unfolded]
      exact layout
    · intro position _ _
      rw [unfolded]
    · intro error _
      rw [unfolded]
    · intro done
      rw [unfolded] at done
      cases done
    · intro _
      rw [unfolded]

end Update

section Delete

variable {page out : Page} {slotID count : Nat}

theorem trimSlots_le (data : Buf) : ∀ count, trimSlots data count ≤ count
  | 0 => Nat.le_refl 0
  | count + 1 => by
      unfold trimSlots
      split
      · exact Nat.le_succ_of_le (trimSlots_le data count)
      · exact Nat.le_refl _

theorem trimSlots_unused (data : Buf) : ∀ count index,
    trimSlots data count ≤ index → index < count →
      (readSlot data index).unused
  | 0, index, _, below => absurd below (Nat.not_lt_zero index)
  | count + 1, index, trimmed, below => by
      unfold trimSlots at trimmed
      split at trimmed
      · rename_i unused
        by_cases last : index = count
        · subst last
          exact unused
        · exact trimSlots_unused data count index trimmed (by omega)
      · omega

theorem slotBytes_mono (data : Buf) {fewer more : Nat}
    (ordered : fewer ≤ more) : slotBytes data fewer ≤ slotBytes data more := by
  induction more with
  | zero =>
      rw [Nat.le_zero.mp ordered]
  | succ more inductionHypothesis =>
      rw [slotBytes_succ]
      by_cases last : fewer = more + 1
      · rw [last, slotBytes_succ]
      · have rest := inductionHypothesis (by omega)
        omega

/-- The effect of `delete`: one entry is cleared and the directory may lose
unused entries at its end. -/
structure Dropped (page : Page) (slotID count : Nat) (out : Page) :
    Prop where
  slotCount_eq : out.header.slotCount = count
  count_le : count ≤ page.header.slotCount
  freeStart_eq : out.header.freeStart = 64 + 4 * count
  freeEnd_eq : out.header.freeEnd = page.header.freeEnd
  entry : readSlot out.data slotID = ⟨0, 0⟩
  others : ∀ other, other < page.header.slotCount → other ≠ slotID →
    readSlot out.data other = readSlot page.data other
  trimmed : ∀ other, count ≤ other → other < page.header.slotCount →
    (readSlot out.data other).unused
  frame : ∀ position, 32 ≤ position →
    (position < 64 ∨ 64 + 4 * page.header.slotCount ≤ position) →
    out.data position = page.data position

namespace Dropped

theorem live_iff (dropped : Dropped page slotID count out) {other : Nat} :
    Live out other ↔ Live page other ∧ other ≠ slotID := by
  unfold Live
  rw [dropped.slotCount_eq]
  have shrunk := dropped.count_le
  constructor
  · rintro ⟨below, used⟩
    have different : other ≠ slotID := by
      rintro rfl
      exact used (by rw [dropped.entry]; exact ⟨rfl, rfl⟩)
    rw [dropped.others other (by omega) different] at used
    exact ⟨⟨by omega, used⟩, different⟩
  · rintro ⟨⟨below, used⟩, different⟩
    rw [← dropped.others other below different] at used
    refine ⟨?_, used⟩
    by_contra past
    exact used (dropped.trimmed other (by omega) below)

theorem layout_out (dropped : Dropped page slotID count out)
    (layout : Layout page) (below : slotID < page.header.slotCount) :
    Layout out := by
  have shrunk := dropped.count_le
  have start := layout.start_le
  have readOld : ∀ {other}, Live out other →
      Live page other ∧
        readSlot out.data other = readSlot page.data other := by
    intro other live
    have old := dropped.live_iff.mp live
    exact ⟨old.1, dropped.others other old.1.1 old.2⟩
  refine ⟨?_, ?_, ?_, ?_, ?_, ?_, ?_⟩
  · rw [dropped.freeStart_eq, dropped.slotCount_eq]
  · rw [dropped.slotCount_eq, dropped.freeEnd_eq]
    omega
  · rw [dropped.freeEnd_eq]
    exact layout.end_le
  · intro other live
    obtain ⟨old, same⟩ := readOld live
    rw [same]
    exact layout.inside other old
  · intro other live nonempty
    obtain ⟨old, same⟩ := readOld live
    rw [same] at nonempty ⊢
    rw [dropped.freeEnd_eq]
    exact layout.above other old nonempty
  · intro left right leftLive rightLive different leftSize rightSize
    obtain ⟨leftOld, leftSame⟩ := readOld leftLive
    obtain ⟨rightOld, rightSame⟩ := readOld rightLive
    rw [leftSame] at leftSize ⊢
    rw [rightSame] at rightSize ⊢
    exact layout.disjoint left right leftOld rightOld different
      leftSize rightSize
  · have shifted := slotBytes_update page.data out.data
      below dropped.others
    have fewer := slotBytes_mono out.data shrunk
    have packedOld := layout.packed
    rw [dropped.entry] at shifted
    unfold liveBytes at packedOld ⊢
    rw [dropped.freeEnd_eq, dropped.slotCount_eq]
    simp only at shifted
    omega

theorem content_out (dropped : Dropped page slotID count out)
    (layout : Layout page) (below : slotID < page.header.slotCount) :
    content out = Function.update (content page) slotID none := by
  have layoutOut := dropped.layout_out layout below
  have start := layout.start_le
  funext other
  by_cases same : other = slotID
  · subst same
    rw [Function.update_self]
    exact content_not_live fun live => (dropped.live_iff.mp live).2 rfl
  · rw [Function.update_of_ne same]
    by_cases old : Live page other
    · rw [layoutOut.content_live (dropped.live_iff.mpr ⟨old, same⟩),
        layout.content_live old, dropped.others other old.1 same]
      by_cases nonempty : 0 < (readSlot page.data other).length
      · have low := layout.above other old nonempty
        exact congrArg some <| Buf.read_congr fun position lower _ =>
          dropped.frame position (by omega) (by omega)
      · have empty : (readSlot page.data other).length = 0 := by omega
        rw [empty, Buf.read_zero_length, Buf.read_zero_length]
    · rw [content_not_live old, content_not_live]
      exact fun live => old (dropped.live_iff.mp live).1

end Dropped

theorem Layout.delete_dropped (layout : Layout page)
    (live : Live page slotID) :
    (delete page slotID).1 = .ok () ∧
      ∃ count, Dropped page slotID count (delete page slotID).2 := by
  have bound := layout.slotCount_le
  have below := live.1
  have entry : ∀ header dirty,
      readSlot (Page.writeHeader
        { header := header
          data := writeSlot page.data slotID ⟨0, 0⟩
          dirty := dirty }).data slotID = ⟨0, 0⟩ := by
    intro header dirty
    rw [readSlot_writeHeader _ (by omega)]
    exact readSlot_writeSlot_same _ _ (by simp only; omega)
      (by simp only; omega)
  have others : ∀ header dirty other, other < page.header.slotCount →
      other ≠ slotID →
      readSlot (Page.writeHeader
        { header := header
          data := writeSlot page.data slotID ⟨0, 0⟩
          dirty := dirty }).data other = readSlot page.data other := by
    intro header dirty other inRange different
    rw [readSlot_writeHeader _ (by omega)]
    exact readSlot_writeSlot_ne _ _ (by omega) (by omega) different
  have frame : ∀ header dirty position, 32 ≤ position →
      (position < 64 ∨ 64 + 4 * page.header.slotCount ≤ position) →
      (Page.writeHeader
        { header := header
          data := writeSlot page.data slotID ⟨0, 0⟩
          dirty := dirty }).data position = page.data position := by
    intro header dirty position lower outside
    rw [Page.writeHeader_data_outside _ lower]
    exact writeSlot_apply_outside _ _ (by omega) (by omega)
  unfold delete
  simp only
  rw [if_neg (by omega), if_neg live.2]
  split
  · have trimmedLe := trimSlots_le (writeSlot page.data slotID ⟨0, 0⟩)
      page.header.slotCount
    refine ⟨rfl, trimSlots (writeSlot page.data slotID ⟨0, 0⟩)
      page.header.slotCount, rfl, trimmedLe, ?_, rfl, entry _ _,
      others _ _, ?_, frame _ _⟩
    · exact directoryEnd_eq (by omega)
    · intro other past inRange
      rw [readSlot_writeHeader _ (by omega)]
      exact trimSlots_unused _ _ _ past inRange
  · refine ⟨rfl, page.header.slotCount, rfl, Nat.le_refl _,
      layout.start_eq, rfl, entry _ _, others _ _, ?_, frame _ _⟩
    intro other past inRange
    omega

theorem delete_dead (dead : ¬ Live page slotID) :
    delete page slotID = (.error .slotNotFound, page) := by
  unfold delete
  simp only
  split
  · rfl
  · rename_i inRange
    have unused : (readSlot page.data slotID).unused := by
      by_contra used
      exact dead ⟨by omega, used⟩
    rw [if_pos unused]

end Delete

/-! ## Runs -/

inductive SlotOp where
  | insert (payload : Bytes)
  | update (slotID : Nat) (payload : Bytes)
  | delete (slotID : Nat)
  | compact
  deriving DecidableEq, Repr

def SlotOp.Admissible : SlotOp → Prop
  | .insert payload => payload.length < 65532
  | .update _ payload => payload.length < 65532
  | .delete _ => True
  | .compact => True

abbrev PageAndMap := Page × (Nat → Option Bytes)

/-- Drive page and map with one call.  The map learns which slot an insertion
returned and whether a call failed, and nothing else. -/
def SlotOp.step : SlotOp → PageAndMap → PageAndMap
  | .insert payload, (page, map) =>
      match Slotted.insert page payload with
      | (.ok slot, after) => (after, Function.update map slot (some payload))
      | (.error _, after) => (after, map)
  | .update slotID payload, (page, map) =>
      match Slotted.update page slotID payload with
      | (.ok _, after) => (after, Function.update map slotID (some payload))
      | (.error _, after) => (after, map)
  | .delete slotID, (page, map) =>
      match Slotted.delete page slotID with
      | (.ok _, after) => (after, Function.update map slotID none)
      | (.error _, after) => (after, map)
  | .compact, (page, map) => (Slotted.compact page, map)

def runSlotOps (ops : List SlotOp) (start : PageAndMap) : PageAndMap :=
  ops.foldl (fun state op => op.step state) start

def fresh (id : PageID) (type : PageType) : Page :=
  wrapSlotted (Page.newPage id type)

theorem fresh_layout (id : PageID) (type : PageType) :
    Layout (fresh id type) := by
  have header : (fresh id type).header =
      { id := id, type := type, slotCount := 0, freeStart := 64,
        freeEnd := 16384 } := rfl
  refine ⟨?_, ?_, ?_, ?_, ?_, ?_, ?_⟩
  · simp only [header]
  · simp only [header]
    omega
  · simp only [header]
    omega
  · intro slotID live
    exact absurd live.1 (by rw [header]; exact Nat.not_lt_zero _)
  · intro slotID live
    exact absurd live.1 (by rw [header]; exact Nat.not_lt_zero _)
  · intro left right live
    exact absurd live.1 (by rw [header]; exact Nat.not_lt_zero _)
  · simp only [liveBytes, header]
    exact Nat.le_refl _

theorem fresh_content (id : PageID) (type : PageType) :
    content (fresh id type) = fun _ => none := by
  funext slotID
  apply content_not_live
  intro live
  exact Nat.not_lt_zero _ live.1

/-- One call keeps the layout, the agreement of page and map, and the bytes
between the header and the directory. -/
theorem step_agrees {page : Page} (layout : Layout page) {op : SlotOp}
    (admissible : op.Admissible) :
    Layout (op.step (page, content page)).1 ∧
    content (op.step (page, content page)).1 =
      (op.step (page, content page)).2 ∧
    (∀ position, 32 ≤ position → position < 64 →
      (op.step (page, content page)).1.data position =
        page.data position) := by
  cases op with
  | insert payload =>
      have spec := layout.insert_spec admissible
      simp only [SlotOp.step]
      by_cases full : 16384 < insertDemand page payload
      · obtain ⟨failed, same⟩ := spec.full full
        split
        · rename_i slot after result
          rw [result] at failed
          cases failed
        · rename_i error after result
          have layoutOut := spec.layout_out
          have reserved := spec.reserved
          rw [result] at layoutOut reserved same
          exact ⟨layoutOut, same, reserved⟩
      · obtain ⟨done, _, bound, _, _⟩ := spec.fits (by omega)
        split
        · rename_i slot after result
          have layoutOut := spec.layout_out
          have reserved := spec.reserved
          rw [result] at layoutOut reserved bound done
          cases done
          exact ⟨layoutOut, bound, reserved⟩
        · rename_i error after result
          rw [result] at done
          cases done
  | update slotID payload =>
      have spec := layout.update_spec slotID admissible
      have layoutOut := spec.layout_out
      have reserved := spec.reserved
      simp only [SlotOp.step]
      split
      · rename_i done after result
        have bound := (spec.done (by rw [result])).2
        rw [result] at layoutOut reserved bound
        exact ⟨layoutOut, bound, reserved⟩
      · rename_i error after result
        have same := spec.failed error (by rw [result])
        rw [result] at layoutOut reserved same
        exact ⟨layoutOut, same, reserved⟩
  | delete slotID =>
      simp only [SlotOp.step]
      by_cases live : Live page slotID
      · obtain ⟨done, count, dropped⟩ := layout.delete_dropped live
        split
        · rename_i done after result
          rw [result] at dropped
          exact ⟨dropped.layout_out layout live.1,
            dropped.content_out layout live.1,
            fun position lower upper =>
              dropped.frame position lower (Or.inl upper)⟩
        · rename_i error after result
          rw [result] at done
          cases done
      · rw [delete_dead live]
        exact ⟨layout, rfl, fun _ _ _ => rfl⟩
  | compact =>
      exact ⟨layout.compact, layout.compact_content layout.compact,
        fun position lower upper => layout.compact_reserved lower upper⟩

theorem run_agrees {page : Page} (layout : Layout page) :
    ∀ ops : List SlotOp, (∀ op, op ∈ ops → op.Admissible) →
      Layout (runSlotOps ops (page, content page)).1 ∧
      content (runSlotOps ops (page, content page)).1 =
        (runSlotOps ops (page, content page)).2 ∧
      (∀ position, 32 ≤ position → position < 64 →
        (runSlotOps ops (page, content page)).1.data position =
          page.data position) := by
  intro ops
  induction ops generalizing page with
  | nil =>
      intro _
      exact ⟨layout, rfl, fun _ _ _ => rfl⟩
  | cons op rest inductionHypothesis =>
      intro admissible
      obtain ⟨nextLayout, agreement, reserved⟩ :=
        step_agrees layout (admissible op List.mem_cons_self)
      obtain ⟨lastLayout, lastAgreement, lastReserved⟩ :=
        inductionHypothesis nextLayout fun other member =>
          admissible other (List.mem_cons_of_mem _ member)
      have stepEq : (op.step (page, content page)) =
          ((op.step (page, content page)).1,
            content (op.step (page, content page)).1) := by
        rw [agreement]
      have runEq : runSlotOps (op :: rest) (page, content page) =
          runSlotOps rest ((op.step (page, content page)).1,
            content (op.step (page, content page)).1) := by
        simp only [runSlotOps, List.foldl_cons]
        rw [← stepEq]
      rw [runEq]
      exact ⟨lastLayout, lastAgreement, fun position lower upper => by
        rw [lastReserved position lower upper, reserved position lower upper]⟩

/-- What it means that `page` behaves as the partial map `map`: each clause
speaks of the next call made on the page. -/
structure BehavesAs (page : Page) (map : Nat → Option Bytes) : Prop where
  get_bound : ∀ slotID payload, map slotID = some payload →
    get page slotID = .ok payload ∧ getDirect page slotID = .ok payload
  get_unbound : ∀ slotID, map slotID = none →
    get page slotID = .error .slotNotFound ∧
      getDirect page slotID = .error .slotNotFound
  insert_fresh : ∀ payload slot, payload.length < 65532 →
    (insert page payload).1 = .ok slot → map slot = none
  insert_result : ∀ payload, payload.length < 65532 →
    (∃ slot, (insert page payload).1 = .ok slot) ∨
      (insert page payload).1 = .error .pageFull
  insert_full : ∀ payload, payload.length < 65532 →
    ((insert page payload).1 = .error .pageFull ↔
      16384 < 64 + 4 * page.header.slotCount +
        ((List.range page.header.slotCount).map fun slotID =>
          ((map slotID).getD []).length).sum + payload.length +
        (if ∃ slotID, slotID < page.header.slotCount ∧ map slotID = none
          then 0 else 4))
  update_bound : ∀ slotID payload, payload.length < 65532 →
    (update page slotID payload).1 = .ok () → map slotID ≠ none
  update_unbound : ∀ slotID payload, payload.length < 65532 →
    map slotID = none →
    (update page slotID payload).1 = .error .slotNotFound
  delete_result : ∀ slotID,
    (map slotID = none → (delete page slotID).1 = .error .slotNotFound) ∧
      (map slotID ≠ none → (delete page slotID).1 = .ok ())
  above_directory : ∀ slotID payload, map slotID = some payload →
    payload ≠ [] →
    64 + 4 * page.header.slotCount ≤ (readSlot page.data slotID).offset ∧
      (readSlot page.data slotID).offset + payload.length ≤ 16384 ∧
      (readSlot page.data slotID).length = payload.length
  disjoint : ∀ left right leftPayload rightPayload,
    map left = some leftPayload → map right = some rightPayload →
    left ≠ right → leftPayload ≠ [] → rightPayload ≠ [] →
    (readSlot page.data left).offset + leftPayload.length ≤
        (readSlot page.data right).offset ∨
      (readSlot page.data right).offset + rightPayload.length ≤
        (readSlot page.data left).offset

namespace Layout

variable {page : Page}

theorem contentBytes_eq (layout : Layout page) :
    ((List.range page.header.slotCount).map fun slotID =>
      ((content page slotID).getD []).length).sum = liveBytes page := by
  unfold liveBytes slotBytes
  congr 1
  apply List.map_congr_left
  intro slotID member
  by_cases live : Live page slotID
  · simp [layout.content_live live]
  · have unused : (readSlot page.data slotID).unused := by
      by_contra used
      exact live ⟨List.mem_range.mp member, used⟩
    simp [content_not_live live, unused.2]

theorem entryCost_eq (layout : Layout page) :
    entryCost page =
      if ∃ slotID, slotID < page.header.slotCount ∧ content page slotID = none
        then 0 else 4 := by
  unfold entryCost
  cases found : findUnused page with
  | some slot =>
      obtain ⟨below, dead⟩ := findUnused_some found
      have free : ∃ slotID, slotID < page.header.slotCount ∧
          content page slotID = none :=
        ⟨slot, below, content_not_live dead⟩
      rw [Option.isNone_some, if_neg Bool.false_ne_true, if_pos free]
  | none =>
      have used : ¬ ∃ slotID, slotID < page.header.slotCount ∧
          content page slotID = none := by
        rintro ⟨slot, below, unbound⟩
        have live := findUnused_none found below
        rw [layout.content_live live] at unbound
        cases unbound
      rw [Option.isNone_none, if_pos rfl, if_neg used]
      rfl

theorem behavesAs (layout : Layout page) :
    BehavesAs page (content page) := by
  have liveOf : ∀ {slotID payload}, content page slotID = some payload →
      Live page slotID ∧
        payload = page.data.read (readSlot page.data slotID).offset
          (readSlot page.data slotID).length := by
    intro slotID payload bound
    have live : Live page slotID := by
      rw [← layout.content_isSome, bound]
      rfl
    rw [layout.content_live live] at bound
    exact ⟨live, (Option.some.inj bound).symm⟩
  have deadOf : ∀ {slotID}, content page slotID = none →
      ¬ Live page slotID := by
    intro slotID unbound live
    rw [layout.content_live live] at unbound
    cases unbound
  refine ⟨?_, ?_, ?_, ?_, ?_, ?_, ?_, ?_, ?_, ?_⟩
  · intro slotID payload bound
    obtain ⟨live, payloadEq⟩ := liveOf bound
    have read := layout.get_live live
    rw [← payloadEq] at read
    exact ⟨read, read⟩
  · intro slotID unbound
    have read := get_not_live (deadOf unbound)
    exact ⟨read, read⟩
  · intro payload slot small done
    have spec := layout.insert_spec small
    by_cases full : 16384 < insertDemand page payload
    · rw [(spec.full full).1] at done
      cases done
    · obtain ⟨result, dead, _⟩ := spec.fits (by omega)
      rw [result] at done
      cases done
      exact content_not_live dead
  · intro payload small
    have spec := layout.insert_spec small
    by_cases full : 16384 < insertDemand page payload
    · exact Or.inr (spec.full full).1
    · exact Or.inl ⟨_, (spec.fits (by omega)).1⟩
  · intro payload small
    have spec := layout.insert_spec small
    rw [layout.contentBytes_eq, ← layout.entryCost_eq]
    constructor
    · intro failed
      by_contra under
      obtain ⟨result, _⟩ := spec.fits (by unfold insertDemand; omega)
      rw [result] at failed
      cases failed
    · intro exceeds
      exact (spec.full (by unfold insertDemand; omega)).1
  · intro slotID payload small done unbound
    exact deadOf unbound ((layout.update_spec slotID small).done done).1
  · intro slotID payload small unbound
    exact (layout.update_spec slotID small).dead (deadOf unbound)
  · intro slotID
    constructor
    · intro unbound
      rw [delete_dead (deadOf unbound)]
    · intro bound
      obtain ⟨payload, payloadEq⟩ := Option.ne_none_iff_exists'.mp bound
      exact (layout.delete_dropped (liveOf payloadEq).1).1
  · intro slotID payload bound nonempty
    obtain ⟨live, payloadEq⟩ := liveOf bound
    have lengthEq : payload.length = (readSlot page.data slotID).length := by
      rw [payloadEq, Buf.read_length]
    have positive : 0 < payload.length := List.length_pos_iff.mpr nonempty
    have low := layout.above slotID live (by omega)
    have inside := layout.inside slotID live
    have start := layout.start_le
    exact ⟨by omega, by omega, lengthEq.symm⟩
  · intro left right leftPayload rightPayload leftBound rightBound different
      leftNonempty rightNonempty
    obtain ⟨leftLive, leftEq⟩ := liveOf leftBound
    obtain ⟨rightLive, rightEq⟩ := liveOf rightBound
    have leftLength :
        leftPayload.length = (readSlot page.data left).length := by
      rw [leftEq, Buf.read_length]
    have rightLength :
        rightPayload.length = (readSlot page.data right).length := by
      rw [rightEq, Buf.read_length]
    have leftPositive := List.length_pos_iff.mpr leftNonempty
    have rightPositive := List.length_pos_iff.mpr rightNonempty
    rw [leftLength, rightLength]
    exact layout.disjoint left right leftLive rightLive different
      (by omega) (by omega)

end Layout

/-- Whatever calls were made on a fresh page, page and map agree, the next call
behaves as the map says, and bytes 32 to 63 are as they were. -/
theorem slottedPage_refines_map (id : PageID) (type : PageType)
    (ops : List SlotOp) (admissible : ∀ op, op ∈ ops → op.Admissible) :
    BehavesAs (runSlotOps ops (fresh id type, fun _ => none)).1
        (runSlotOps ops (fresh id type, fun _ => none)).2 ∧
      ∀ position, 32 ≤ position → position < 64 →
        (runSlotOps ops (fresh id type, fun _ => none)).1.data position =
          (fresh id type).data position := by
  have agreed := run_agrees (fresh_layout id type) ops admissible
  rw [fresh_content] at agreed
  obtain ⟨layout, agreement, reserved⟩ := agreed
  refine ⟨?_, reserved⟩
  rw [← agreement]
  exact layout.behavesAs

/-- The run theorem on a page that is filled, shrunk to nothing, emptied and
compacted. -/
theorem slottedPage_refines_map_sample :
    BehavesAs
        (runSlotOps
          [.insert [1, 2, 3], .insert [], .update 0 [], .delete 1, .compact]
          (fresh 10 .pageRecord, fun _ => none)).1
        (runSlotOps
          [.insert [1, 2, 3], .insert [], .update 0 [], .delete 1, .compact]
          (fresh 10 .pageRecord, fun _ => none)).2 :=
  (slottedPage_refines_map 10 .pageRecord
    [.insert [1, 2, 3], .insert [], .update 0 [], .delete 1, .compact]
    (by simp [SlotOp.Admissible])).1

end CocoDB.Slotted
