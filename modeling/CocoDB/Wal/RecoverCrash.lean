import CocoDB.Wal.RedoPages

/-!
# Crashes during recovery

A crash may cut recovery off after any of its writes, or in the middle of one.
Opening the file again finds a meta page the first run started from or saved, and
recovering once more ends with the same ordinary pages and the same `NextPageID`:
whole page images make what the first run left behind irrelevant.
-/

namespace CocoDB.Recovery

open Lib DefaultPager

def TornMeta (written : Write) (contents : Contents) : Prop :=
  ∀ slot : Fin 2, written.offset = slot.val * defaultPageSize →
    readMeta (.ofContents contents) slot = none

def CrashState (start : Contents) (trace : List Write) (crashed : Contents) :
    Prop :=
  Crashed TornMeta start trace crashed

variable {records : List WalRecord} {again : List (PageID × Bytes)}

def placed (pages : List (PageID × Bytes)) : List (Nat × Bytes) :=
  pages.map fun page => (place page.1, page.2)

/-- Page images that are redone: whole pages, past the meta pages, each with a
place of its own. -/
structure Ordinary (images : List (PageID × Bytes)) : Prop where
  lower : ∀ page, page ∈ images → 2 ≤ page.1.toNat
  upper : ∀ page, page ∈ images → page.1.toNat < 2 ^ 49
  sized : ∀ page, page ∈ images → page.2.length = defaultPageSize

theorem SealedUpdates.ordinary (sealed : SealedUpdates records)
    (addressable : AddressableUpdates records) :
    Ordinary (pagesOf (updatesOf records)) := by
  rw [sealed.updatesOf_eq]
  have logged : ∀ page, page ∈
      pagesOf (records.filter (isCommittedUpdate records)) →
      ∃ record, record ∈ records ∧ isCommittedUpdate records record ∧
        page = (record.pageID, record.pageData) := by
    intro page member
    obtain ⟨record, recordMember, rfl⟩ := List.mem_map.mp member
    obtain ⟨logged, update⟩ := List.mem_filter.mp recordMember
    exact ⟨record, logged, update, rfl⟩
  refine ⟨?_, ?_, ?_⟩
  · intro page member
    obtain ⟨record, inLog, update, rfl⟩ := logged page member
    exact (sealed record inLog update).1
  · intro page member
    obtain ⟨record, inLog, update, rfl⟩ := logged page member
    exact addressable record inLog update
  · intro page member
    obtain ⟨record, inLog, update, rfl⟩ := logged page member
    exact (sealed record inLog update).2.length_eq

section Pages

variable {images : List (PageID × Bytes)}

theorem Ordinary.append_again (ordinary : Ordinary images)
    (last : ∀ page, page ∈ again → lastBytes images page.1 = some page.2) :
    Ordinary (images ++ again) := by
  have known : ∀ page, page ∈ images ++ again → page ∈ images := by
    intro page member
    rcases List.mem_append.mp member with old | new
    · exact old
    · exact lastBytes_mem (last page new)
  exact ⟨fun page member => ordinary.lower page (known page member),
    fun page member => ordinary.upper page (known page member),
    fun page member => ordinary.sized page (known page member)⟩

theorem Ordinary.lastBytes_placed (ordinary : Ordinary images)
    (last : ∀ page, page ∈ again → lastBytes images page.1 = some page.2)
    (number : Nat) :
    lastBytes (placed (images ++ again)) number =
      lastBytes (placed images) number := by
  have whole := ordinary.append_again last
  by_cases some_page : ∃ page, page ∈ images ∧ place page.1 = number
  · obtain ⟨page, member, rfl⟩ := some_page
    have apart : ∀ other, other ∈ images ++ again →
        place other.1 = place page.1 → other.1 = page.1 := by
      intro other otherMember same
      rw [place_eq (whole.upper other otherMember),
        place_eq (ordinary.upper page member)] at same
      exact UInt64.toNat_inj.mp same
    unfold placed
    rw [lastBytes_map apart, lastBytes_map fun other otherMember =>
      apart other (List.mem_append_left _ otherMember), lastBytes_again last]
  · have absent : ∀ pages : List (PageID × Bytes),
        (∀ page, page ∈ pages → page ∈ images) →
        lastBytes (placed pages) number = none := by
      intro pages known
      cases found : lastBytes (placed pages) number with
      | none => rfl
      | some bytes =>
          obtain ⟨page, member, same⟩ := List.mem_map.mp (lastBytes_mem found)
          exact absurd ⟨page, known page member, congrArg Prod.fst same⟩
            some_page
    rw [absent images fun _ member => member,
      absent (images ++ again) fun page member => ?_]
    rcases List.mem_append.mp member with old | new
    · exact old
    · exact lastBytes_mem (last page new)

theorem Ordinary.not_covers (ordinary : Ordinary images) {number : Nat}
    (absent : lastBytes (placed images) number = none) {page : PageID × Bytes}
    (member : page ∈ images) {position : Nat}
    (inside : number * defaultPageSize ≤ position ∧
      position < number * defaultPageSize + defaultPageSize) :
    ¬ (imageWrite page).Covers position := by
  have different : place page.1 ≠ number := by
    intro same
    have listed : (number, page.2) ∈ placed images :=
      List.mem_map.mpr ⟨page, member, by rw [same]⟩
    have found := lastBytes_isSome listed
    rw [absent] at found
    cases found
  have disjoint := pages_disjoint defaultPageSize different
  have length := ordinary.sized page member
  rintro ⟨lower, upper⟩
  have offset : (imageWrite page).offset = place page.1 * defaultPageSize :=
    rfl
  have bytes : (imageWrite page).bytes.length = defaultPageSize := length
  omega

end Pages

/-! ## The meta pages after a crash -/

private theorem append_pair_cases {α : Type} {front rest pages : List α}
    {first second : α} (split : pages ++ [first, second] = front ++ rest) :
    (∃ later, pages = front ++ later ∧ rest = later ++ [first, second]) ∨
      (front = pages ++ [first] ∧ rest = [second]) ∨
      (front = pages ++ [first, second] ∧ rest = []) := by
  rcases List.append_eq_append_iff.mp split with
    ⟨later, rfl, cut⟩ | ⟨later, rfl, rfl⟩
  · match later with
    | [] => exact .inl ⟨[], by simp, by simpa using cut.symm⟩
    | [_] =>
        cases cut
        exact .inr (.inl ⟨rfl, rfl⟩)
    | [_, _] =>
        cases cut
        exact .inr (.inr ⟨rfl, rfl⟩)
    | _ :: _ :: _ :: _ => cases cut
  · exact .inl ⟨later, rfl, rfl⟩

section Reopening

variable {start crashed : Contents} {info : MetaPage} {slot : Fin 2}
  {cacheBytes : Nat} {pages : List (PageID × Bytes)}

def Candidate (info : MetaPage) (records : List WalRecord)
    (found : MetaPage) : Prop :=
  found = info ∨ found = flushedInfo info (updatesOf records) ∨
    found = recoveredInfo info records

theorem flushedInfo_formed (formed : info.WellFormed)
    (updates : List WalRecord) : (flushedInfo info updates).WellFormed :=
  ⟨formed.databaseID_length, formed.pageSize_eq⟩

theorem recoveredInfo_formed (formed : info.WellFormed)
    (records : List WalRecord) : (recoveredInfo info records).WellFormed :=
  ⟨formed.databaseID_length, formed.pageSize_eq⟩

def flushedWrite (info : MetaPage) (slot : Fin 2) (records : List WalRecord) :
    Write :=
  ⟨(otherSlot slot).val * defaultPageSize,
    (flushedInfo info (updatesOf records)).encode⟩

def recoveredWrite (info : MetaPage) (slot : Fin 2)
    (records : List WalRecord) : Write :=
  ⟨slot.val * defaultPageSize, (recoveredInfo info records).encode⟩

theorem metaWrites_fresh (backend : Backend) (info : MetaPage) (slot : Fin 2)
    (cacheBytes : Nat) (records : List WalRecord) :
    metaWrites (fresh backend info slot cacheBytes false) records =
      [flushedWrite info slot records, recoveredWrite info slot records] := by
  show [_, (⟨(otherSlot (otherSlot slot)).val * defaultPageSize, _⟩ : Write)] = _
  rw [other_other]
  rfl

theorem Ordinary.readMeta_writes (ordinary : Ordinary pages)
    (large : 2 * defaultPageSize ≤ start.size)
    (crash : Crashed TornMeta start (pages.map imageWrite) crashed)
    (slot : Fin 2) :
    readMeta (.ofContents crashed) slot =
      readMeta (.ofContents start) slot := by
  refine readMeta_congr (large.trans crash.size_ge) large ?_
  intro position _ below
  refine crash.data_outside fun written member covers => ?_
  obtain ⟨page, pageMember, rfl⟩ := List.mem_map.mp member
  have lower := Nat.mul_le_mul_right defaultPageSize
    (ordinary.lower page pageMember)
  have offset : (imageWrite page).offset =
      page.1.toNat * defaultPageSize := by
    show place page.1 * defaultPageSize = _
    rw [place_eq (ordinary.upper page pageMember)]
  have bound := slot_end slot
  have reached := covers.1
  omega

theorem slot_cases (slot other : Fin 2) : other = slot ∨ other = otherSlot slot := by
  revert slot other
  decide

theorem chooseMeta_candidates {backend : Backend}
    (candidates : ∀ other found, readMeta backend other = some found →
      Candidate info records found)
    (readable : ∃ other, (readMeta backend other).isSome) :
    ∃ found chosenSlot,
      chooseMeta (readMeta backend 0) (readMeta backend 1) =
        some (found, chosenSlot) ∧ Candidate info records found := by
  refine chooseMeta_some (candidates 0) (candidates 1) ?_
  obtain ⟨other, present⟩ := readable
  rcases slot_cases 0 other with rfl | rfl
  · exact .inl present
  · exact .inr present

/-- What a crash leaves in the active slot and in the other one, once the first
meta page is being written. -/
def Saving (info : MetaPage) (records : List WalRecord)
    (active other : Option MetaPage) : Prop :=
  (active = some info ∧ other = none) ∨
  (active = some info ∧
    other = some (flushedInfo info (updatesOf records))) ∨
  (active = none ∧ other = some (flushedInfo info (updatesOf records))) ∨
  (active = some (recoveredInfo info records) ∧
    other = some (flushedInfo info (updatesOf records)))

theorem saved_meta (large : 2 * defaultPageSize ≤ start.size)
    (formed : info.WellFormed) (images : List Write) :
    readMeta (.ofContents (start.writes (images ++
        [flushedWrite info slot records, recoveredWrite info slot records])))
      slot = some (recoveredInfo info records) ∧
    readMeta (.ofContents (start.writes (images ++
        [flushedWrite info slot records, recoveredWrite info slot records])))
      (otherSlot slot) = some (flushedInfo info (updatesOf records)) := by
  have flushedFormed := flushedInfo_formed formed (updatesOf records)
  have recoveredFormed := recoveredInfo_formed formed records
  rw [Contents.writes_append]
  let imaged := start.writes images
  let flushed := imaged.write (flushedWrite info slot records)
  have imagedLarge : 2 * defaultPageSize ≤ imaged.size :=
    large.trans (start.size_le_writes _)
  have flushedLarge : 2 * defaultPageSize ≤ flushed.size :=
    imagedLarge.trans (Nat.le_max_left _ _)
  refine ⟨readMeta_write recoveredFormed slot
    (flushedLarge.trans (Nat.le_max_left _ _)), ?_⟩
  exact (readMeta_torn flushedLarge recoveredFormed.databaseID_length (other_ne slot).symm
    (flushed.tornWrite_write _)).trans
      (readMeta_write flushedFormed (otherSlot slot) flushedLarge)

/-- A crash among the image writes leaves both meta pages as they were; a later
one leaves at least one of the two that the run uses. -/
theorem crashed_meta (ordinary : Ordinary pages)
    (large : 2 * defaultPageSize ≤ start.size) (formed : info.WellFormed)
    (active : readMeta (.ofContents start) slot = some info)
    (crash : CrashState start
      (pages.map imageWrite ++
        [flushedWrite info slot records, recoveredWrite info slot records])
      crashed) :
    (∀ other, readMeta (.ofContents crashed) other =
      readMeta (.ofContents start) other) ∨
    Saving info records (readMeta (.ofContents crashed) slot)
      (readMeta (.ofContents crashed) (otherSlot slot)) := by
  have flushedFormed := flushedInfo_formed formed (updatesOf records)
  have recoveredFormed := recoveredInfo_formed formed records
  let imaged := start.writes (pages.map imageWrite)
  let flushed := imaged.write (flushedWrite info slot records)
  have imagedLarge : 2 * defaultPageSize ≤ imaged.size :=
    large.trans (start.size_le_writes _)
  have flushedLarge : 2 * defaultPageSize ≤ flushed.size :=
    imagedLarge.trans (Nat.le_max_left _ _)
  have imagedActive : readMeta (.ofContents imaged) slot = some info := by
    rw [ordinary.readMeta_writes large
      (.between (List.append_nil _).symm) slot, active]
  have flushedActive : readMeta (.ofContents flushed) slot = some info :=
    (readMeta_torn imagedLarge flushedFormed.databaseID_length (other_ne slot)
      (imaged.tornWrite_write _)).trans imagedActive
  have flushedOther : readMeta (.ofContents flushed) (otherSlot slot) =
      some (flushedInfo info (updatesOf records)) :=
    readMeta_write flushedFormed (otherSlot slot) flushedLarge
  cases crash with
  | @between front rest split =>
      rcases append_pair_cases split with
        ⟨later, cut, _⟩ | ⟨rfl, _⟩ | ⟨rfl, _⟩
      · exact .inl (ordinary.readMeta_writes large (.between cut))
      · rw [Contents.writes_append]
        exact .inr (.inr (.inl ⟨flushedActive, flushedOther⟩))
      · exact .inr (.inr (.inr (.inr (saved_meta large formed _))))
  | @torn front rest written _ split torn known =>
      rcases append_pair_cases split with
        ⟨later, cut, remaining⟩ | ⟨rfl, remaining⟩ | ⟨_, remaining⟩
      · cases later with
        | nil =>
            -- The first meta page is torn.
            cases remaining
            rw [List.append_nil] at cut
            subst cut
            exact .inr (.inl
              ⟨(readMeta_torn imagedLarge flushedFormed.databaseID_length (other_ne slot)
                torn).trans imagedActive, known (otherSlot slot) rfl⟩)
        | cons image later =>
            cases remaining
            exact .inl (ordinary.readMeta_writes large
              (.torn cut torn known))
      · -- The last meta page is torn.
        cases remaining
        rw [Contents.writes_append] at torn
        exact .inr (.inr (.inr (.inl ⟨known slot rfl,
          (readMeta_torn flushedLarge recoveredFormed.databaseID_length (other_ne slot).symm
            torn).trans flushedOther⟩)))
      · cases remaining

theorem chooseMeta_crashed (ordinary : Ordinary pages)
    (large : 2 * defaultPageSize ≤ start.size) (formed : info.WellFormed)
    (chosen : chooseMeta (readMeta (.ofContents start) 0)
      (readMeta (.ofContents start) 1) = some (info, slot))
    (crash : CrashState start
      (pages.map imageWrite ++
        [flushedWrite info slot records, recoveredWrite info slot records])
      crashed) :
    ∃ found chosenSlot, chooseMeta (readMeta (.ofContents crashed) 0)
        (readMeta (.ofContents crashed) 1) = some (found, chosenSlot) ∧
      Candidate info records found := by
  rcases crashed_meta ordinary large formed (readMeta_of_chooseMeta chosen)
    crash with same | saving
  · exact ⟨info, slot, by rw [same, same, chosen], .inl rfl⟩
  · refine chooseMeta_candidates ?_ ?_
    · intro other found present
      rcases slot_cases slot other with rfl | rfl
      · rw [present] at saving
        rcases saving with ⟨same, _⟩ | ⟨same, _⟩ | ⟨same, _⟩ | ⟨same, _⟩
        · exact .inl (Option.some.inj same)
        · exact .inl (Option.some.inj same)
        · cases same
        · exact .inr (.inr (Option.some.inj same))
      · rw [present] at saving
        rcases saving with ⟨_, same⟩ | ⟨_, same⟩ | ⟨_, same⟩ | ⟨_, same⟩
        · cases same
        · exact .inr (.inl (Option.some.inj same))
        · exact .inr (.inl (Option.some.inj same))
        · exact .inr (.inl (Option.some.inj same))
    · rcases saving with ⟨same, _⟩ | ⟨same, _⟩ | ⟨_, same⟩ | ⟨same, _⟩
      · exact ⟨slot, by rw [same]; rfl⟩
      · exact ⟨slot, by rw [same]; rfl⟩
      · exact ⟨otherSlot slot, by rw [same]; rfl⟩
      · exact ⟨slot, by rw [same]; rfl⟩

end Reopening

section TwoRuns

variable {first second : DefaultPager} {recovered rerun : DefaultPager}
  {more : List (PageID × Bytes)}

theorem Recovered.same_data (ordinary : Ordinary (pagesOf (updatesOf records)))
    (firstFormed : first.info.WellFormed)
    (secondFormed : second.info.WellFormed)
    (firstRun : Recovered first records again recovered)
    (secondRun : Recovered second records more rerun)
    (agree : ∀ position, 2 * defaultPageSize ≤ position →
      (∀ page, page ∈ pagesOf (updatesOf records) →
        ¬ (imageWrite page).Covers position) →
      second.backend.contents.data position =
        first.backend.contents.data position)
    {position : Nat} (past : 2 * defaultPageSize ≤ position) :
    rerun.backend.contents.data position =
      recovered.backend.contents.data position := by
  have positive : 0 < defaultPageSize := by decide
  let number := position / defaultPageSize
  have lower : 2 ≤ number := (Nat.le_div_iff_mul_le positive).mpr past
  have within := Nat.mod_lt position positive
  have parts : number * defaultPageSize + position % defaultPageSize =
      position := Nat.div_add_mod' position defaultPageSize
  have firstRead := firstRun.read_place firstFormed ordinary.sized lower
  have secondRead := secondRun.read_place secondFormed ordinary.sized lower
  have firstLast := ordinary.lastBytes_placed firstRun.last number
  have secondLast := ordinary.lastBytes_placed secondRun.last number
  unfold placed at firstLast secondLast
  rw [firstLast] at firstRead
  rw [secondLast] at secondRead
  have sameOld : lastBytes (placed (pagesOf (updatesOf records))) number =
      none →
      second.backend.contents.data.read (number * defaultPageSize)
        defaultPageSize =
      first.backend.contents.data.read (number * defaultPageSize)
        defaultPageSize := by
    intro absent
    refine Buf.read_congr fun other from_page before => ?_
    have otherPast : 2 * defaultPageSize ≤ other :=
      (Nat.mul_le_mul_right defaultPageSize lower).trans from_page
    exact agree other otherPast fun page member =>
      ordinary.not_covers absent member ⟨from_page, before⟩
  have same : rerun.backend.contents.data.read (number * defaultPageSize)
        defaultPageSize =
      recovered.backend.contents.data.read (number * defaultPageSize)
        defaultPageSize := by
    rw [firstRead, secondRead]
    cases last : lastBytes (placed (pagesOf (updatesOf records))) number with
    | none =>
        unfold placed at last
        rw [last, Option.getD_none, Option.getD_none]
        exact sameOld last
    | some bytes =>
        unfold placed at last
        rw [last]
        rfl
  have byte := congrArg (fun bytes => bytes[position % defaultPageSize]?) same
  simp only [Buf.read_getElem?, within, if_true, parts] at byte
  exact Option.some.inj byte

theorem Recovered.end_le (firstFormed : first.info.WellFormed)
    (firstRun : Recovered first records again recovered)
    (secondRun : Recovered second records more rerun)
    (large : 2 * defaultPageSize ≤ second.backend.contents.size)
    {written : Write}
    (member : written ∈
      (pagesOf (updatesOf records) ++ again).map imageWrite ++
        metaWrites first records) :
    written.offset + written.bytes.length ≤ rerun.backend.contents.size := by
  rw [secondRun.contents_eq]
  rcases List.mem_append.mp member with image | saved
  · obtain ⟨page, pageMember, rfl⟩ := List.mem_map.mp image
    have logged : page ∈ pagesOf (updatesOf records) := by
      rcases List.mem_append.mp pageMember with old | new
      · exact old
      · exact lastBytes_mem (firstRun.last page new)
    exact Contents.covered_lt_size _ (List.mem_append_left _
      (List.mem_map_of_mem (List.mem_append_left _ logged)))
  · exact (metaWrites_below firstFormed saved).trans
      (large.trans (Contents.size_le_writes _ _))

theorem nextAfter_fixed {next : PageID} {updates : List WalRecord}
    (above : ∀ record, record ∈ updates →
      record.pageID.toNat + 1 ≤ next.toNat) :
    nextAfter next updates = next := by
  induction updates using List.reverseRecOn with
  | nil => rfl
  | append_singleton updates last inductionHypothesis =>
      rw [nextAfter_append, inductionHypothesis fun record member =>
        above record (List.mem_append_left _ member)]
      have bound := above last (by simp)
      rw [if_neg]
      rw [ge_iff_le, UInt64.le_iff_toNat_le]
      omega

theorem Candidate.nextAfter_eq {info found : MetaPage}
    (small : ∀ record, record ∈ updatesOf records →
      record.pageID.toNat < 2 ^ 49)
    (candidate : Candidate info records found) :
    nextAfter found.nextPageID (updatesOf records) =
      nextAfter info.nextPageID (updatesOf records) := by
  have fixed : nextAfter (nextAfter info.nextPageID (updatesOf records))
      (updatesOf records) = nextAfter info.nextPageID (updatesOf records) :=
    nextAfter_fixed (le_nextAfter small info.nextPageID).2
  rcases candidate with rfl | rfl | rfl
  · rfl
  · exact fixed
  · exact fixed

theorem Candidate.formed {info found : MetaPage} (formed : info.WellFormed)
    (candidate : Candidate info records found) : found.WellFormed := by
  rcases candidate with rfl | rfl | rfl
  · exact formed
  · exact flushedInfo_formed formed _
  · exact recoveredInfo_formed formed _

end TwoRuns

structure SamePages (left right : DefaultPager) : Prop where
  data_eq : ∀ position, 2 * defaultPageSize ≤ position →
    left.backend.contents.data position =
      right.backend.contents.data position
  size_eq : left.backend.contents.size = right.backend.contents.size
  nextPageID_eq : left.info.nextPageID = right.info.nextPageID

section Idempotent

variable {start crashed : Contents} {info : MetaPage} {slot : Fin 2}
  {cacheBytes : Nat} {randomA randomB : Bytes}

theorem recover_crashed {wal : WAL} (rerunOrder : List PageID → List PageID)
    {recovered : DefaultPager}
    (large : 2 * defaultPageSize ≤ start.size) (formed : info.WellFormed)
    (chosen : chooseMeta (readMeta (.ofContents start) 0)
      (readMeta (.ofContents start) 1) = some (info, slot))
    (nonempty : wal.readAll ≠ []) (sealed : SealedUpdates wal.readAll)
    (addressable : AddressableUpdates wal.readAll)
    (done : Recovered (fresh (.ofContents start) info slot cacheBytes false)
      wal.readAll again recovered)
    (crash : CrashState start recovered.backend.trace crashed) :
    ∃ reopened result emptied rerun,
      openPager (.ofContents crashed) cacheBytes false randomA randomB =
        .ok reopened ∧
      recover rerunOrder wal reopened = (.ok result, emptied, rerun) ∧
      emptied.readAll = [] ∧ SamePages rerun recovered := by
  have ordinary := sealed.ordinary addressable
  have trace : recovered.backend.trace =
      (pagesOf (updatesOf wal.readAll) ++ again).map imageWrite ++
        metaWrites (fresh (.ofContents start) info slot cacheBytes false)
          wal.readAll :=
    done.trace_eq.trans (List.nil_append _)
  have contents : recovered.backend.contents =
      start.writes recovered.backend.trace := by
    rw [trace]
    exact done.contents_eq
  have crashedLarge := large.trans crash.size_ge
  have shaped := crash
  rw [trace, metaWrites_fresh] at shaped
  obtain ⟨found, foundSlot, rechosen, candidate⟩ :=
    chooseMeta_crashed (ordinary.append_again done.last) large formed chosen
      shaped
  let reopened :=
    fresh (.ofContents crashed) found foundSlot cacheBytes false
  have foundFormed : reopened.info.WellFormed := candidate.formed formed
  have settled : Settled [] reopened :=
    EmptyCache.settled (fun _ => rfl)
  obtain ⟨more, rerun, shape, redone⟩ := recover_spec rerunOrder settled
    nonempty (sealed.redoable addressable)
  refine ⟨reopened, _, _, rerun, ?_, shape, wal.readAll_truncate, ?_⟩
  · rw [openPager_eq crashedLarge, rechosen]
  · refine ⟨?_, ?_, ?_⟩
    · intro position past
      refine done.same_data ordinary formed foundFormed redone ?_ past
      intro other otherPast apart
      refine crash.data_outside fun written member => ?_
      rw [trace] at member
      rcases List.mem_append.mp member with image | saved
      · obtain ⟨page, pageMember, rfl⟩ := List.mem_map.mp image
        rcases List.mem_append.mp pageMember with old | new
        · exact apart page old
        · exact apart page (lastBytes_mem (done.last page new))
      · have below := metaWrites_below formed saved
        rintro ⟨_, upper⟩
        omega
    · apply Nat.le_antisymm
      · rw [redone.contents_eq]
        refine Contents.writes_size_le ?_ ?_
        · rw [contents]
          exact crash.size_le
        · exact fun written member =>
            redone.end_le foundFormed done large member
      · rw [done.contents_eq]
        refine Contents.writes_size_le ?_ ?_
        · rw [redone.contents_eq]
          exact crash.size_ge.trans (Contents.size_le_writes _ _)
        · exact fun written member =>
            done.end_le formed redone crashedLarge member
    · rw [redone.nextPageID_eq, done.nextPageID_eq]
      refine candidate.nextAfter_eq fun record member => ?_
      rw [sealed.updatesOf_eq] at member
      obtain ⟨logged, update⟩ := List.mem_filter.mp member
      exact addressable record logged update

theorem openPager_recovered {wal : WAL} {recovered : DefaultPager}
    (large : 2 * defaultPageSize ≤ start.size) (formed : info.WellFormed)
    (done : Recovered (fresh (.ofContents start) info slot cacheBytes false)
      wal.readAll again recovered) :
    ∃ reopened,
      openPager (.ofContents recovered.backend.contents) cacheBytes false
        randomA randomB = .ok reopened ∧
      reopened.backend.contents = recovered.backend.contents ∧
      reopened.info.nextPageID = recovered.info.nextPageID := by
  have contents : recovered.backend.contents = start.writes
      ((pagesOf (updatesOf wal.readAll) ++ again).map imageWrite ++
        [flushedWrite info slot wal.readAll,
          recoveredWrite info slot wal.readAll]) := by
    rw [done.contents_eq, metaWrites_fresh]
    rfl
  obtain ⟨atSlot, atOther⟩ := saved_meta large formed
    ((pagesOf (updatesOf wal.readAll) ++ again).map imageWrite)
  rw [← contents] at atSlot atOther
  have chosen : ∃ found foundSlot,
      chooseMeta (readMeta (.ofContents recovered.backend.contents) 0)
        (readMeta (.ofContents recovered.backend.contents) 1) =
          some (found, foundSlot) ∧
      found.nextPageID =
        nextAfter info.nextPageID (updatesOf wal.readAll) := by
    have good : ∀ other found,
        readMeta (.ofContents recovered.backend.contents) other =
          some found →
        found.nextPageID =
          nextAfter info.nextPageID (updatesOf wal.readAll) := by
      intro other found present
      rcases slot_cases slot other with rfl | rfl
      · cases atSlot.symm.trans present
        rfl
      · cases atOther.symm.trans present
        rfl
    refine chooseMeta_some (good 0) (good 1) ?_
    rcases slot_cases slot 0 with same | same
    · rw [same, atSlot]
      exact .inl rfl
    · rw [same, atOther]
      exact .inl rfl
  obtain ⟨found, foundSlot, chosen, next⟩ := chosen
  refine ⟨fresh (.ofContents recovered.backend.contents) found foundSlot
    cacheBytes false, ?_, rfl, ?_⟩
  · rw [openPager_eq, chosen]
    rw [contents]
    exact large.trans (Contents.size_le_writes _ _)
  · rw [done.nextPageID_eq]
    exact next

/-- Recovery that is cut off by a crash and run again from the start ends with
the same ordinary pages and the same `NextPageID` as recovery that was not; and
after that nothing is left to recover. -/
theorem recover_idempotent (order rerunOrder : List PageID → List PageID)
    {wal : WAL} {pager : DefaultPager}
    (large : 2 * defaultPageSize ≤ start.size)
    (opened : openPager (.ofContents start) cacheBytes false randomA randomB =
      .ok pager)
    (formed : pager.info.WellFormed) (sealed : SealedUpdates wal.readAll)
    (addressable : AddressableUpdates wal.readAll) :
    ∃ result emptied recovered,
      recover order wal pager = (.ok result, emptied, recovered) ∧
      (∀ crashed, CrashState start recovered.backend.trace crashed →
        ∃ reopened result' emptied' rerun,
          openPager (.ofContents crashed) cacheBytes false randomA randomB =
            .ok reopened ∧
          recover rerunOrder wal reopened = (.ok result', emptied', rerun) ∧
          emptied'.readAll = [] ∧ SamePages rerun recovered) ∧
      recover rerunOrder emptied recovered = (.ok {}, emptied, recovered) ∧
      ∃ reopened,
        openPager (.ofContents recovered.backend.contents) cacheBytes false
          randomA randomB = .ok reopened ∧
        recover rerunOrder emptied reopened = (.ok {}, emptied, reopened) ∧
        SamePages reopened recovered := by
  rw [openPager_eq large] at opened
  cases chosen : chooseMeta (readMeta (.ofContents start) 0)
      (readMeta (.ofContents start) 1) with
  | none =>
      rw [chosen] at opened
      cases opened
  | some choice =>
      obtain ⟨info, slot⟩ := choice
      rw [chosen] at opened
      obtain rfl : fresh (.ofContents start) info slot cacheBytes false =
        pager := Except.ok.inj opened
      by_cases none : wal.readAll = []
      · have first := recover_nothing order none
          (fresh (.ofContents start) info slot cacheBytes false)
        have nothing := recover_nothing rerunOrder none
          (fresh (.ofContents start) info slot cacheBytes false)
        have reopens : openPager (.ofContents start) cacheBytes false randomA
            randomB = .ok (fresh (.ofContents start) info slot cacheBytes
              false) := by
          rw [openPager_eq large, chosen]
        refine ⟨_, _, _, first, ?_, nothing, _, reopens, nothing, ?_⟩
        · intro crashed crash
          have same : crashed = start := by
            cases crash with
            | @between front rest split =>
                obtain ⟨rfl, _⟩ := List.append_eq_nil_iff.mp split.symm
                rfl
            | torn split _ _ =>
                exact absurd split.symm (by simp [fresh, Backend.ofContents])
          subst same
          exact ⟨_, _, _, _, reopens, nothing, none,
            fun _ _ => rfl, rfl, rfl⟩
        · exact ⟨fun _ _ => rfl, rfl, rfl⟩
      · have settled : Settled []
            (fresh (.ofContents start) info slot cacheBytes false) :=
          EmptyCache.settled (fun _ => rfl)
        obtain ⟨again, recovered, shape, done⟩ := recover_spec order settled
          none (sealed.redoable addressable)
        obtain ⟨reopened, opens, contents, next⟩ :=
          openPager_recovered large formed done
        refine ⟨_, _, recovered, shape, ?_,
          recover_nothing rerunOrder wal.readAll_truncate recovered, reopened,
          opens, recover_nothing rerunOrder wal.readAll_truncate reopened, ?_⟩
        · intro crashed crash
          exact recover_crashed rerunOrder large formed chosen none sealed
            addressable done crash
        · exact ⟨fun position _ => by rw [contents], by rw [contents], next⟩

end Idempotent

/-! ## A new database with one logged transaction -/

def sampleMeta (generation : UInt64) : MetaPage :=
  { MetaPage.newInitial (List.replicate 16 0) with generation := generation }

theorem sampleMeta_formed (generation : UInt64) :
    (sampleMeta generation).WellFormed :=
  ⟨rfl, rfl⟩

def sampleFile : Contents :=
  (Contents.empty.write ⟨slotA.val * defaultPageSize,
    (sampleMeta 1).encode⟩).write
      ⟨(otherSlot slotA).val * defaultPageSize, (sampleMeta 0).encode⟩

theorem sampleFile_size : sampleFile.size = 2 * defaultPageSize :=
  metaPair_size (sampleMeta_formed 1) (sampleMeta_formed 0)

theorem sampleFile_open :
    openPager (.ofContents sampleFile) 0 false [] [] =
      .ok (fresh (.ofContents sampleFile) (sampleMeta 1) 0 0 false) := by
  have large : 2 * defaultPageSize ≤ sampleFile.size :=
    Nat.le_of_eq sampleFile_size.symm
  have first : readMeta (.ofContents sampleFile) 0 = some (sampleMeta 1) :=
    readMeta_metaPair_first (sampleMeta_formed 1) (sampleMeta_formed 0)
  have second : readMeta (.ofContents sampleFile) 1 = some (sampleMeta 0) :=
    readMeta_metaPair_second (sampleMeta_formed 1) (sampleMeta_formed 0)
  rw [openPager_eq large, first, second]
  rfl

theorem recover_idempotent_sample :
    ∃ result emptied recovered,
      recover id (sampleLog 2)
          (fresh (.ofContents sampleFile) (sampleMeta 1) 0 0 false) =
        (.ok result, emptied, recovered) ∧
      (∀ crashed, CrashState sampleFile recovered.backend.trace crashed →
        ∃ reopened result' emptied' rerun,
          openPager (.ofContents crashed) 0 false [] [] = .ok reopened ∧
          recover id (sampleLog 2) reopened =
            (.ok result', emptied', rerun) ∧
          emptied'.readAll = [] ∧ SamePages rerun recovered) ∧
      recover id emptied recovered = (.ok {}, emptied, recovered) ∧
      ∃ reopened,
        openPager (.ofContents recovered.backend.contents) 0 false [] [] =
          .ok reopened ∧
        recover id emptied reopened = (.ok {}, emptied, reopened) ∧
        SamePages reopened recovered := by
  refine recover_idempotent id id (Nat.le_of_eq sampleFile_size.symm)
    sampleFile_open (sampleMeta_formed 1) (sampleLog_sealed (by decide)) ?_
  rw [sampleLog_readAll]
  exact sampleRecords_addressable (by decide)

end CocoDB.Recovery
