import CocoDB.Maintenance.Scheduler
import CocoDB.Wal.LogSpec
import CocoDB.Wal.Recover

/-!
# Checkpoints and committed pages

`Truncate` drops the log, so at that moment every committed page has to be in
the main file.  What `FlushAll` samples are the pages that are dirty then; a
page that a commit logs later is not among them, and a page that the open
transaction has changed reaches the file with changes nobody has committed.

When `RunOnce` meets neither, a page whose last committed image is not in the
file is dirty, and during a checkpoint it is among the pages still to be
flushed.
-/

namespace CocoDB

open Lib

namespace Page

def content (page : Page) : Bytes :=
  page.header.encode.take 12 ++ (page.header.encode.drop 20).take 8 ++
    page.data.read 32 (defaultPageSize - 32)

theorem encode_front (header : PageHeader) :
    header.encode.take 12 =
      be 8 header.id.toNat ++ [header.type.toByte] ++ [0] ++
        be 2 header.flags := by
  simp [PageHeader.encode, List.take_append]

theorem encode_counters (header : PageHeader) :
    (header.encode.drop 20).take 8 =
      be 2 header.slotCount ++ be 2 header.freeStart ++
        be 2 header.freeEnd ++ be 2 0 := by
  simp [PageHeader.encode, List.take_append, List.drop_append,
    List.drop_eq_nil_of_le, List.take_of_length_le]

theorem content_congr {page other : Page}
    (ids : page.header.id = other.header.id)
    (types : page.header.type = other.header.type)
    (flags : page.header.flags = other.header.flags)
    (slots : page.header.slotCount = other.header.slotCount)
    (starts : page.header.freeStart = other.header.freeStart)
    (ends : page.header.freeEnd = other.header.freeEnd)
    (bytes : page.data.read 32 (defaultPageSize - 32) =
      other.data.read 32 (defaultPageSize - 32)) :
    page.content = other.content := by
  simp only [content, encode_front, encode_counters, ids, types, flags, slots,
    starts, ends, bytes]

theorem content_stamped (page : Page) (lsn : LSN) (dirty : Bool) :
    ({ page with
      header := { page.header with lsn := lsn }, dirty := dirty } :
        Page).content = page.content :=
  content_congr rfl rfl rfl rfl rfl rfl rfl

theorem content_sealPage (page : Page) :
    page.sealPage.content = page.content := by
  have headers := sealPage_header_eq page
  refine content_congr ?_ ?_ ?_ ?_ ?_ ?_ page.sealPage_body <;>
    rw [headers]

theorem pageContent_sealPage (page : Page) :
    Scheduler.pageContent page.sealPage.image = page.content := by
  have front : page.sealPage.image.take 12 = page.header.encode.take 12 := by
    rw [image, Buf.read_take, Nat.min_eq_left (by decide),
      page.sealPage_header (by omega), List.drop_zero]
  have counters : (page.sealPage.image.drop 20).take 8 =
      (page.header.encode.drop 20).take 8 := by
    rw [image, Buf.read_drop, Buf.read_take, Nat.min_eq_left (by decide),
      Nat.zero_add, page.sealPage_header (by omega)]
  have body : page.sealPage.image.drop 32 =
      page.data.read 32 (defaultPageSize - 32) := by
    rw [image, Buf.read_drop, Nat.zero_add, sealPage_body]
  rw [Scheduler.pageContent, front, counters, body, content]

end Page

namespace Scheduler

variable {pager after : DefaultPager}

/-! ## How the pager changes -/

def Stored (backend : Backend) (id : PageID) (content : Bytes) : Prop :=
  ∃ bytes, backend.readAt (pageOffset id) defaultPageSize = some bytes ∧
    pageContent bytes = content

/-- A pager in use: its pages lie behind the meta pages and have a place each in
the file, and a page that is not dirty is what the file has. -/
structure Healthy (pager : DefaultPager) : Prop where
  sound : pager.Sound
  clean : ∀ {id entry}, pager.cache.find id = some entry →
    (pager.heap entry.page).dirty = false →
    Stored pager.backend id (pager.heap entry.page).content
  formed : pager.info.WellFormed
  behind : ∀ {id entry}, pager.cache.find id = some entry → 2 ≤ id.toNat
  first : 2 ≤ pager.info.nextPageID.toNat
  last : pager.info.nextPageID.toNat ≤ 2 ^ 49

/-- The page objects stay in the cache.  The pages of `changed` may get another
content; those of `cleaned` may no longer be dirty, and may be written to the
file. -/
structure Evolves (changed cleaned : PageID → Prop)
    (pager after : DefaultPager) : Prop where
  healthy : Healthy after
  finds : ∀ {id entry}, pager.cache.find id = some entry →
    ∃ entry', after.cache.find id = some entry' ∧ entry'.page = entry.page
  content : ∀ {id entry}, pager.cache.find id = some entry → ¬ changed id →
    (after.heap entry.page).content = (pager.heap entry.page).content
  dirty : ∀ {id entry}, pager.cache.find id = some entry → ¬ cleaned id →
    (pager.heap entry.page).dirty = true →
    (after.heap entry.page).dirty = true
  file : ∀ {image : PageImage} {entry},
    pager.cache.find image.id = some entry → ¬ cleaned image.id →
    OnFile pager image → OnFile after image

def Quiet (pager after : DefaultPager) : Prop :=
  Evolves (fun _ => False) (fun _ => False) pager after

theorem Quiet.trans {last : DefaultPager} (first : Quiet pager after)
    (second : Quiet after last) : Quiet pager last := by
  refine ⟨second.healthy, ?_, ?_, ?_, ?_⟩
  · intro id entry found
    obtain ⟨entry', found', same⟩ := first.finds found
    obtain ⟨entry'', found'', same'⟩ := second.finds found'
    exact ⟨entry'', found'', same'.trans same⟩
  · intro id entry found unchanged
    obtain ⟨entry', found', same⟩ := first.finds found
    have later := second.content found' unchanged
    rw [same] at later
    exact later.trans (first.content found unchanged)
  · intro id entry found uncleaned marked
    obtain ⟨entry', found', same⟩ := first.finds found
    have later := second.dirty found' uncleaned
    rw [same] at later
    exact later (first.dirty found uncleaned marked)
  · intro image entry found uncleaned stored
    obtain ⟨entry', found', same⟩ := first.finds found
    exact second.file found' uncleaned (first.file found uncleaned stored)

def SameObjects (pager after : DefaultPager) : Prop :=
  ∀ id, (after.cache.find id).map CacheEntry.page =
    (pager.cache.find id).map CacheEntry.page

theorem SameObjects.finds (same : SameObjects pager after) {id : PageID}
    {entry : CacheEntry} (found : pager.cache.find id = some entry) :
    ∃ entry', after.cache.find id = some entry' ∧
      entry'.page = entry.page := by
  have mapped := same id
  rw [found, Option.map_some] at mapped
  exact Option.map_eq_some_iff.mp mapped

theorem SameObjects.symm (same : SameObjects pager after) :
    SameObjects after pager := fun id => (same id).symm

theorem Healthy.same (healthy : Healthy pager) (sound : after.Sound)
    (info : after.info = pager.info) (same : SameObjects pager after)
    (clean : ∀ {id entry}, pager.cache.find id = some entry →
      (after.heap entry.page).dirty = false →
      Stored after.backend id (after.heap entry.page).content) :
    Healthy after := by
  refine ⟨sound, ?_, by rw [info]; exact healthy.formed, ?_,
    by rw [info]; exact healthy.first, by rw [info]; exact healthy.last⟩
  · intro id entry found
    obtain ⟨entry', found', samePage⟩ := same.symm.finds found
    rw [← samePage]
    exact clean found'
  · intro id entry found
    obtain ⟨entry', found', _⟩ := same.symm.finds found
    exact healthy.behind found'

theorem Healthy.withCache (healthy : Healthy pager) {cache : PageCache}
    (pinned : cache.Pinned)
    (same : SameObjects pager { pager with cache := cache }) :
    Quiet pager { pager with cache := cache } :=
  ⟨healthy.same (healthy.sound.heap pinned same healthy.sound.header_id) rfl
    same healthy.clean, same.finds, fun _ _ => rfl, fun _ _ marked => marked,
    fun _ _ stored => stored⟩

theorem Healthy.withLog (healthy : Healthy pager) (wal : Option WAL) :
    Quiet pager { pager with walFlusher := wal } := by
  have sound := healthy.sound
  refine ⟨⟨⟨sound.pinned, sound.known, sound.distinct, sound.header_id,
    sound.below, sound.noFree⟩, healthy.clean, healthy.formed, healthy.behind,
    healthy.first, healthy.last⟩, fun found => ⟨_, found, rfl⟩,
    fun _ _ => rfl, fun _ _ marked => marked, fun _ _ stored => stored⟩

theorem Healthy.setObject (healthy : Healthy pager) {id : PageID}
    {entry : CacheEntry} (found : pager.cache.find id = some entry)
    {page : Page} (sameID : page.header.id = id)
    {changed cleaned : PageID → Prop}
    (contents : ¬ changed id →
      page.content = (pager.heap entry.page).content)
    (marks : ¬ cleaned id → (pager.heap entry.page).dirty = true →
      page.dirty = true)
    (clean : page.dirty = false → Stored pager.backend id page.content) :
    Evolves changed cleaned pager (pager.setObject entry.page page) := by
  have sound := healthy.sound
  have own : (pager.setObject entry.page page).heap entry.page = page :=
    Function.update_self _ _ _
  have others : ∀ {other entry'}, other ≠ id →
      pager.cache.find other = some entry' →
      (pager.setObject entry.page page).heap entry'.page =
        pager.heap entry'.page := by
    intro other entry' different found'
    exact Function.update_of_ne
      (fun same => different (sound.distinct found' found same)) _ _
  have there : ∀ {other entry'}, pager.cache.find other = some entry' →
      other = id → entry'.page = entry.page := by
    rintro other entry' found' rfl
    rw [found] at found'
    rw [Option.some.inj found']
  refine ⟨healthy.same (sound.setObject page found sameID).1 rfl
    (fun _ => rfl) ?_, fun found' => ⟨_, found', rfl⟩, ?_, ?_,
    fun _ _ stored => stored⟩
  · intro other entry' found'
    by_cases here : other = id
    · rw [there found' here, own, here]
      exact clean
    · rw [others here found']
      exact healthy.clean found'
  · intro other entry' found' unchanged
    by_cases here : other = id
    · rw [there found' here, own]
      exact contents (here ▸ unchanged)
    · rw [others here found']
  · intro other entry' found' uncleaned marked
    by_cases here : other = id
    · rw [there found' here] at marked ⊢
      rw [own]
      exact marks (here ▸ uncleaned) marked
    · rw [others here found']
      exact marked

theorem sameObjects_markDirty (id : PageID) (lsn : LSN) :
    SameObjects pager { pager with cache := pager.cache.markDirty id lsn } := by
  intro other
  show ((pager.cache.markDirty id lsn).find other).map CacheEntry.page = _
  rw [PageCache.find_markDirty]
  by_cases here : other = id
  · rw [if_pos here, here, Option.map_map]
    rfl
  · rw [if_neg here]

theorem Healthy.markDirty (healthy : Healthy pager) {id : PageID}
    {entry : CacheEntry} (found : pager.cache.find id = some entry) :
    Quiet pager (pager.markDirty entry.page) ∧
      ((pager.markDirty entry.page).heap entry.page).dirty = true := by
  have sameID := healthy.sound.header_id found
  rw [DefaultPager.markDirty_cached found sameID]
  have marked : Quiet pager (pager.setObject entry.page
      { pager.heap entry.page with dirty := true }) := by
    refine healthy.setObject found ?_ (fun _ => rfl) (fun _ _ => rfl)
      fun unmarked => (nomatch unmarked)
    exact sameID
  refine ⟨marked.trans (marked.healthy.withCache ?_
    (sameObjects_markDirty _ _)), ?_⟩
  · exact healthy.sound.pinned.markDirty _ _
  · show (Function.update pager.heap entry.page _ entry.page).dirty = true
    rw [Function.update_self]

theorem Healthy.cachePut (healthy : Healthy pager) (page : Page)
    (behind : 2 ≤ page.header.id.toNat)
    (small : page.header.id.toNat < pager.info.nextPageID.toNat)
    (absent : pager.cache.find page.header.id = none)
    (clean : page.dirty = false →
      Stored pager.backend page.header.id page.content) :
    Quiet pager ((pager.newObject page).2.cachePut pager.nextRef) := by
  obtain ⟨sound, ⟨entry, found, entryPage⟩, stored, others⟩ :=
    healthy.sound.cachePut page small
  have apart : ∀ {id entry'}, pager.cache.find id = some entry' →
      id ≠ page.header.id := by
    rintro id entry' found' rfl
    rw [absent] at found'
    cases found'
  have heap : ∀ {id entry'}, pager.cache.find id = some entry' →
      ((pager.newObject page).2.cachePut pager.nextRef).heap entry'.page =
        pager.heap entry'.page := fun found' =>
    Function.update_of_ne (Nat.ne_of_lt (healthy.sound.known found')) _ _
  refine ⟨⟨sound, ?_, healthy.formed, ?_, healthy.first, healthy.last⟩, ?_,
    ?_, ?_, fun _ _ stored => stored⟩
  · intro id entry' found'
    by_cases here : id = page.header.id
    · subst here
      rw [found] at found'
      rw [← Option.some.inj found', entryPage, stored]
      exact clean
    · rw [(others id here).1] at found'
      rw [heap found']
      exact healthy.clean found'
  · intro id entry' found'
    by_cases here : id = page.header.id
    · rw [here]
      exact behind
    · rw [(others id here).1] at found'
      exact healthy.behind found'
  · intro id entry' found'
    exact ⟨entry', (others id (apart found')).1.trans found', rfl⟩
  · intro id entry' found' _
    rw [heap found']
  · intro id entry' found' _ marked
    rw [heap found']
    exact marked

theorem sameObjects_get (id : PageID) :
    SameObjects pager { pager with cache := (pager.cache.get id).2 } := by
  intro other
  show ((pager.cache.get id).2.find other).map CacheEntry.page = _
  rw [PageCache.find_get]
  by_cases here : other = id
  · rw [if_pos here, here, Option.map_map]
    rfl
  · rw [if_neg here]

theorem content_parsePage {id : PageID} {image : Bytes}
    (sealed : SealedImage id image) :
    (DefaultPager.parsePage image).content = pageContent image := by
  rw [← Page.pageContent_sealPage, sealed.reseal, sealed.parse_sealed.2.2]

theorem Healthy.get (healthy : Healthy pager) {id : PageID}
    (available : Available pager id) : Quiet pager (pager.get id).2 := by
  obtain ⟨behind, below, reachable⟩ := available
  have first := pager.cache.get_fst id
  cases found : pager.cache.find id with
  | some entry =>
      rw [found, Option.map_some] at first
      have shape : pager.cache.get id =
          (some entry.page, (pager.cache.get id).2) := Prod.ext first rfl
      have result : (pager.get id).2 =
          { pager with cache := (pager.cache.get id).2 } := by
        unfold DefaultPager.get
        rw [shape]
      rw [result]
      exact healthy.withCache (healthy.sound.pinned.get id)
        (sameObjects_get id)
  | none =>
      rw [found, Option.map_none] at first
      have shape : pager.cache.get id = (none, (pager.cache.get id).2) :=
        Prod.ext first rfl
      rw [found] at reachable
      obtain ⟨image, sealed, readable⟩ :=
        reachable.resolve_left Bool.false_ne_true
      obtain ⟨intact, sameID, _⟩ := sealed.parse_sealed
      have result : (pager.get id).2 =
          (pager.newObject (DefaultPager.parsePage image)).2.cachePut
            pager.nextRef := by
        unfold DefaultPager.get
        rw [shape]
        simp only [readable, intact.valid, if_true]
        rfl
      rw [result]
      refine healthy.cachePut _ ?_ ?_ ?_ ?_
      · rw [sameID]
        exact behind
      · rw [sameID]
        exact below
      · rw [sameID]
        exact found
      · intro _
        rw [sameID]
        exact ⟨image, readable, (content_parsePage sealed).symm⟩

theorem Healthy.allocate (healthy : Healthy pager) (type : PageType)
    (room : pager.info.nextPageID.toNat < 2 ^ 49) :
    Quiet pager (pager.allocate type).2 := by
  have next : (pager.info.nextPageID + 1).toNat =
      pager.info.nextPageID.toNat + 1 := toNat_succ64 (by omega)
  have sound := healthy.sound
  have first := healthy.first
  let bumped : DefaultPager :=
    { pager with
      info := { pager.info with nextPageID := pager.info.nextPageID + 1 } }
  have grown : bumped.info.nextPageID.toNat =
      pager.info.nextPageID.toNat + 1 := next
  have bump : Quiet pager bumped := by
    refine ⟨⟨⟨sound.pinned, sound.known, sound.distinct, sound.header_id, ?_,
      sound.noFree⟩, healthy.clean, ⟨healthy.formed.1, healthy.formed.2⟩,
      healthy.behind, by omega, by omega⟩, fun found => ⟨_, found, rfl⟩, fun _ _ => rfl,
      fun _ _ marked => marked, fun _ _ stored => stored⟩
    intro id entry found
    have below := sound.below found
    omega
  have absent : bumped.cache.find pager.info.nextPageID = none := by
    cases found : pager.cache.find pager.info.nextPageID with
    | none => rfl
    | some entry => exact absurd (sound.below found) (Nat.lt_irrefl _)
  have put : Quiet bumped ((bumped.newObject
      (Page.newPage pager.info.nextPageID type)).2.cachePut
        bumped.nextRef) := by
    refine bump.healthy.cachePut _ first ?_ absent fun unmarked =>
      (nomatch unmarked)
    show pager.info.nextPageID.toNat < bumped.info.nextPageID.toNat
    omega
  obtain ⟨_, ⟨entry, found, samePage⟩, _, _⟩ := bump.healthy.sound.cachePut
    (Page.newPage pager.info.nextPageID type)
    (show pager.info.nextPageID.toNat < bumped.info.nextPageID.toNat by omega)
  have mark := (put.healthy.markDirty found).1
  rw [samePage] at mark
  have result : pager.allocate type = pager.extend type := by
    unfold DefaultPager.allocate
    rw [if_pos sound.noFree]
  rw [result]
  exact (bump.trans put).trans mark

theorem Healthy.pageOffset_eq (healthy : Healthy pager) {id : PageID}
    {entry : CacheEntry} (found : pager.cache.find id = some entry) :
    pageOffset id = some (id.toNat * defaultPageSize) := by
  have below := healthy.sound.below found
  have last := healthy.last
  exact CocoDB.pageOffset_eq (by omega)

theorem Stored.write_outside {backend : Backend} {id : PageID} {start : Nat}
    {content : Bytes} {written : Write} {synced : Contents}
    {trace : List Write} (stored : Stored backend id content)
    (offset : pageOffset id = some start)
    (apart : start + defaultPageSize ≤ written.offset ∨
      written.offset + written.bytes.length ≤ start) :
    Stored ⟨backend.contents.write written, synced, trace⟩ id content := by
  obtain ⟨bytes, read, same⟩ := stored
  refine ⟨bytes, ?_, same⟩
  rw [offset] at read ⊢
  exact Backend.readAt_write_outside apart read

theorem Healthy.saveMeta (healthy : Healthy pager) :
    Quiet pager pager.syncBackend.saveMeta := by
  have sound := healthy.sound
  unfold DefaultPager.saveMeta
  by_cases fixed : pager.syncBackend.readOnly = true
  · rw [if_pos fixed]
    exact ⟨⟨⟨sound.pinned, sound.known, sound.distinct, sound.header_id,
      sound.below, sound.noFree⟩, healthy.clean, healthy.formed,
      healthy.behind, healthy.first, healthy.last⟩,
      fun found => ⟨_, found, rfl⟩, fun _ _ => rfl,
      fun _ _ marked => marked, fun _ _ stored => stored⟩
  · rw [if_neg fixed]
    have slot := (DefaultPager.otherSlot
      pager.syncBackend.activeMetaSlot).isLt
    have length : ({ pager.syncBackend.info with
        generation := pager.syncBackend.info.generation + 1 } :
          MetaPage).encode.length = defaultPageSize :=
      MetaPage.WellFormed.encode_length ⟨healthy.formed.1, healthy.formed.2⟩
    have apart : ∀ {id entry}, pager.cache.find id = some entry →
        (DefaultPager.otherSlot pager.syncBackend.activeMetaSlot).val *
            defaultPageSize + defaultPageSize ≤
          id.toNat * defaultPageSize := by
      intro id entry found
      have behind := healthy.behind found
      rw [← Nat.succ_mul]
      exact Nat.mul_le_mul_right _ (by omega)
    refine ⟨⟨⟨sound.pinned, sound.known, sound.distinct, sound.header_id,
      sound.below, sound.noFree⟩, ?_, ⟨healthy.formed.1, healthy.formed.2⟩,
      healthy.behind, healthy.first, healthy.last⟩,
      fun found => ⟨_, found, rfl⟩, fun _ _ => rfl,
      fun _ _ marked => marked, ?_⟩
    · intro id entry found unmarked
      refine (healthy.clean found unmarked).write_outside
        (healthy.pageOffset_eq found) (.inr ?_)
      rw [length]
      exact apart found
    · intro image entry found _ stored
      refine Stored.write_outside stored (healthy.pageOffset_eq found)
        (.inr ?_)
      rw [length]
      exact apart found

theorem sameObjects_getUnpin (id : PageID) :
    SameObjects pager
      { pager with cache := (pager.cache.get id).2.unpin id } := by
  intro other
  show (((pager.cache.get id).2.unpin id).find other).map CacheEntry.page = _
  rw [PageCache.find_get_unpin]

theorem Healthy.written (healthy : Healthy pager) {id : PageID}
    {entry : CacheEntry} (found : pager.cache.find id = some entry)
    {sealed : Page} (sealedID : sealed.header.id = id)
    (kept : sealed.content = (pager.heap entry.page).content)
    (image : pageContent sealed.image = (pager.heap entry.page).content)
    (pinned : ((pager.cache.get id).2.unpin id).Pinned) {backend : Backend}
    (written : pager.backend.writeAt sealed.image (pageOffset id) =
      some backend) (flusher : Option WAL) :
    Evolves (fun _ => False) (fun other => other = id) pager
      { pager.setObject entry.page { sealed with dirty := false } with
        cache := (pager.cache.get id).2.unpin id
        backend := backend
        walFlusher := flusher } := by
  have sound := healthy.sound
  have length : sealed.image.length = defaultPageSize := Buf.read_length _ _ _
  have body : ({ sealed with dirty := false } : Page).content =
      (pager.heap entry.page).content := kept
  have here : Stored backend id (pager.heap entry.page).content :=
    ⟨sealed.image, Backend.readAt_written_same length written, image⟩
  have elsewhere : ∀ {other entry' content}, other ≠ id →
      pager.cache.find other = some entry' →
      Stored pager.backend other content → Stored backend other content := by
    intro other entry' content different found' stored
    have place := healthy.pageOffset_eq found
    rw [place] at written
    rw [← Option.some.inj written]
    refine stored.write_outside (healthy.pageOffset_eq found') ?_
    rw [length]
    exact pages_disjoint defaultPageSize
      (fun equal => different (UInt64.toNat_inj.mp equal))
  have heap : ∀ {other entry'}, other ≠ id →
      pager.cache.find other = some entry' →
      Function.update pager.heap entry.page { sealed with dirty := false }
        entry'.page = pager.heap entry'.page := by
    intro other entry' different found'
    exact Function.update_of_ne
      (fun same => different (sound.distinct found' found same)) _ _
  have there : ∀ {other entry'}, pager.cache.find other = some entry' →
      other = id → entry'.page = entry.page := by
    rintro other entry' found' rfl
    rw [found] at found'
    rw [Option.some.inj found']
  have cached := (sound.setObject { sealed with dirty := false } found
    sealedID).1.heap pinned (sameObjects_getUnpin id)
      (sound.setObject { sealed with dirty := false } found sealedID).1.header_id
  refine ⟨healthy.same ⟨cached.pinned, cached.known, cached.distinct,
      cached.header_id, cached.below, cached.noFree⟩ rfl
      (sameObjects_getUnpin id) ?_, (sameObjects_getUnpin id).finds, ?_, ?_,
    fun found' different stored => elsewhere different found' stored⟩
  · intro other entry' found' unmarked
    by_cases same : other = id
    · subst same
      show Stored backend other (Function.update pager.heap entry.page
        { sealed with dirty := false } entry'.page).content
      rw [there found' rfl, Function.update_self, body]
      exact here
    · have samePage := heap same found'
      change (Function.update pager.heap entry.page _ entry'.page).dirty =
        false at unmarked
      show Stored backend other (Function.update pager.heap entry.page _
        entry'.page).content
      rw [samePage] at unmarked ⊢
      exact elsewhere same found' (healthy.clean found' unmarked)
  · intro other entry' found' _
    show (Function.update pager.heap entry.page _ entry'.page).content = _
    by_cases same : other = id
    · rw [there found' same, Function.update_self, body]
    · rw [heap same found']
  · intro other entry' found' different marked
    show (Function.update pager.heap entry.page _ entry'.page).dirty = true
    rw [heap different found']
    exact marked

theorem Healthy.flush (healthy : Healthy pager) (id : PageID) :
    (Quiet pager (pager.flush id).2 ∧
      ((pager.flush id).1 = .ok () → ∀ entry,
        pager.cache.find id = some entry →
        (pager.heap entry.page).dirty = false)) ∨
    (Evolves (fun _ => False) (fun other => other = id) pager
        (pager.flush id).2 ∧
      ∃ entry, pager.cache.find id = some entry ∧
        ∀ image : PageImage, image.id = id →
          (pager.heap entry.page).content = pageContent image.bytes →
          OnFile (pager.flush id).2 image) := by
  cases found : pager.cache.find id with
  | none =>
      rw [DefaultPager.flush_missing found]
      exact .inl ⟨healthy.withLog pager.walFlusher,
        fun _ entry present => (nomatch present)⟩
  | some entry =>
      have sameID := healthy.sound.header_id found
      have present : (pager.cache.find id).isSome = true := by
        rw [found]
        rfl
      have pinned := healthy.sound.pinned.get_unpin id present
      obtain ⟨flusher, result⟩ := DefaultPager.flush_cached found
      rw [result]
      by_cases marked : (pager.heap entry.page).dirty = true
      · rw [if_pos marked]
        have sealedID := Page.sealPage_id (pager.heap entry.page)
        have kept := Page.content_sealPage (pager.heap entry.page)
        have image := Page.pageContent_sealPage (pager.heap entry.page)
        have dirty := Page.sealPage_dirty (pager.heap entry.page)
        generalize (pager.heap entry.page).sealPage = sealed at *
        rw [sameID] at sealedID
        cases written : pager.backend.writeAt sealed.image (pageOffset id) with
        | none =>
            have stored : Quiet pager (pager.setObject entry.page sealed) :=
              healthy.setObject found sealedID (fun _ => kept)
                (fun _ old => dirty.trans old) fun unmarked => by
                  rw [kept]
                  exact healthy.clean found (dirty.symm.trans unmarked)
            have cached := stored.trans (stored.healthy.withCache pinned
              (sameObjects_getUnpin id))
            exact .inl ⟨cached.trans (cached.healthy.withLog flusher),
              fun failed => (nomatch failed)⟩
        | some backend =>
            refine .inr ⟨healthy.written found sealedID kept image pinned
              written flusher, entry, rfl, ?_⟩
            intro other sameImage content
            refine ⟨sealed.image, ?_, image.trans content⟩
            rw [sameImage]
            exact Backend.readAt_written_same (Buf.read_length _ _ _) written
      · rw [if_neg marked]
        left
        refine ⟨healthy.withCache pinned (sameObjects_getUnpin id), ?_⟩
        intro _ other same
        rw [← Option.some.inj same]
        exact Bool.eq_false_iff.mpr marked

/-! ## The invariant -/

def lastImage (committed : List PageImage) (id : PageID) : Option PageImage :=
  committed.find? fun image => image.id = id

def Tracked (state : Scheduler) (id : PageID) : Prop :=
  ∃ tx ref, state.writer = some tx ∧ (id, ref) ∈ tx.dirtyPages

def CommitPhase.pending : CommitPhase → Option (List (PageID × Nat))
  | .idle => none
  | .logging rest => some rest
  | .stamping _ _ rest => some rest
  | .syncing _ => some []
  | .returning _ => some []

def CommitPhase.Recorded : CommitPhase → Prop
  | .syncing _ => True
  | .returning _ => True
  | _ => False

def CheckpointPhase.remaining : CheckpointPhase → Option (List PageID)
  | .idle => none
  | .flushing rest => some rest
  | .truncating => some []

/-- The invariant, with the records the log holds. -/
structure Safe (records : List WalRecord) (state : Scheduler) : Prop where
  healthy : Healthy state.manager.pager
  holds : state.manager.wal.Holds records
  writing : ∀ {tx}, state.writer = some tx →
    tx.readOnly = false ∧ tx.isOpen = true
  tracked : ∀ {tx id ref}, state.writer = some tx →
    (id, ref) ∈ tx.dirtyPages →
    ∃ entry, state.manager.pager.cache.find id = some entry ∧
      entry.page = ref
  idle : state.commit = .idle → state.logged = []
  busy : state.commit ≠ .idle → state.writer ≠ none
  stamping : ∀ {tx ref lsn rest}, state.writer = some tx →
    state.commit = .stamping ref lsn rest → ∃ id, (id, ref) ∈ tx.dirtyPages
  pending : ∀ {tx rest}, state.writer = some tx →
    CommitPhase.pending state.commit = some rest →
    (∀ entry, entry ∈ rest → entry ∈ tx.dirtyPages) ∧
    ∀ entry, entry ∈ tx.dirtyPages →
      entry ∈ rest ∨ ∃ image, image ∈ state.logged ∧ image.id = entry.1
  logged : ∀ {image}, image ∈ state.logged →
    ∃ tx ref, state.writer = some tx ∧ image.txnID = tx.txnID ∧
      (image.id, ref) ∈ tx.dirtyPages ∧
      (state.manager.pager.heap ref).content = pageContent image.bytes
  safely : ∀ {image}, image ∈ state.logged →
    OnFile state.manager.pager image ∨
    (HasUpdate records image ∧
      (CommitPhase.Recorded state.commit → HasCommit records image.txnID))
  history : ∀ {id image}, lastImage state.committed id = some image →
    ∃ entry, state.manager.pager.cache.find id = some entry ∧
      ((state.manager.pager.heap entry.page).dirty = true ∨
        OnFile state.manager.pager image) ∧
      (¬ state.Tracked id →
        (state.manager.pager.heap entry.page).content =
          pageContent image.bytes)
  kept : ∀ newer image older, state.committed = newer ++ image :: older →
    (∃ there, there ∈ newer ++ [image] ∧ there.id = image.id ∧
      OnFile state.manager.pager there) ∨
    (HasUpdate records image ∧ HasCommit records image.txnID)
  remaining : ∀ {rest},
    CheckpointPhase.remaining state.checkpoint = some rest →
    (∀ {id image}, lastImage state.committed id = some image →
      OnFile state.manager.pager image ∨ id ∈ rest) ∧
    ∀ image, image ∈ state.logged →
      OnFile state.manager.pager image ∨ image.id ∈ rest

section Images

variable {committed newer older : List PageImage} {image : PageImage}
  {id : PageID}

theorem lastImage_id (last : lastImage committed id = some image) :
    image.id = id := by
  simpa using List.find?_some last

theorem lastImage_newer (newer older : List PageImage) (image : PageImage) :
    ∃ there, lastImage (newer ++ image :: older) image.id = some there ∧
      there ∈ newer ++ [image] := by
  unfold lastImage
  rw [List.find?_append]
  cases found : newer.find? fun other => other.id = image.id with
  | none =>
      refine ⟨image, ?_, by simp⟩
      rw [Option.none_or, List.find?_cons_of_pos (by simp)]
  | some there =>
      refine ⟨there, rfl, List.mem_append_left _ ?_⟩
      exact List.mem_of_find?_eq_some found

theorem HasUpdate.mono {records more : List WalRecord}
    (has : HasUpdate records image)
    (grow : ∀ record, record ∈ records → record ∈ more) :
    HasUpdate more image := by
  obtain ⟨record, member, rest⟩ := has
  exact ⟨record, grow record member, rest⟩

theorem HasCommit.mono {records more : List WalRecord} {txnID : TxnID}
    (has : HasCommit records txnID)
    (grow : ∀ record, record ∈ records → record ∈ more) :
    HasCommit more txnID := by
  obtain ⟨record, member, rest⟩ := has
  exact ⟨record, grow record member, rest⟩

end Images

section Preservation

variable {records more : List WalRecord} {state : Scheduler}

theorem Safe.cached (safe : Safe records state) {newer older : List PageImage}
    {image : PageImage} (split : state.committed = newer ++ image :: older) :
    ∃ there entry, lastImage state.committed image.id = some there ∧
      there ∈ newer ++ [image] ∧
      state.manager.pager.cache.find image.id = some entry := by
  obtain ⟨there, last, member⟩ := lastImage_newer newer older image
  rw [← split] at last
  obtain ⟨entry, found, _⟩ := safe.history last
  exact ⟨there, entry, last, member, found⟩

/-- The pager changes.  The content of a page changes only when the open
transaction has changed it and does not commit yet; a page is cleaned only when
its last committed image gets into the file. -/
theorem Safe.evolve (safe : Safe records state) (manager : TxnManager)
    {changed cleaned : PageID → Prop}
    (evolves : Evolves changed cleaned state.manager.pager manager.pager)
    (holds : manager.wal.Holds more)
    (grow : ∀ record, record ∈ records → record ∈ more)
    (covered : ∀ id, changed id → state.Tracked id ∧ state.commit = .idle)
    (clean : ∀ id, cleaned id → ¬ state.Tracked id ∧
      ∀ image, lastImage state.committed id = some image →
        OnFile manager.pager image) :
    Safe more { state with manager := manager } := by
  have logging : ∀ {image id}, image ∈ state.logged → ¬ changed id := by
    intro image id member change
    rw [safe.idle (covered id change).2] at member
    cases member
  have onFile : ∀ {id image}, lastImage state.committed id = some image →
      OnFile state.manager.pager image → OnFile manager.pager image := by
    intro id image last stored
    have sameID := lastImage_id last
    obtain ⟨entry, found, _⟩ := safe.history last
    by_cases cleans : cleaned id
    · exact (clean id cleans).2 image last
    · exact evolves.file (by rw [sameID]; exact found)
        (by rw [sameID]; exact cleans) stored
  have images : ∀ {image}, image ∈ state.logged →
      OnFile state.manager.pager image → OnFile manager.pager image := by
    intro image member stored
    obtain ⟨tx, ref, running, _, dirty, _⟩ := safe.logged member
    obtain ⟨entry, found, _⟩ := safe.tracked running dirty
    exact evolves.file found
      (fun cleans => (clean image.id cleans).1 ⟨tx, ref, running, dirty⟩) stored
  refine ⟨evolves.healthy, holds, safe.writing, ?_, safe.idle, safe.busy,
    safe.stamping, safe.pending, ?_, ?_, ?_, ?_, ?_⟩
  · intro tx id ref running member
    obtain ⟨entry, found, same⟩ := safe.tracked running member
    obtain ⟨entry', found', same'⟩ := evolves.finds found
    exact ⟨entry', found', same'.trans same⟩
  · intro image member
    obtain ⟨tx, ref, running, sameTxn, dirty, content⟩ := safe.logged member
    obtain ⟨entry, found, same⟩ := safe.tracked running dirty
    refine ⟨tx, ref, running, sameTxn, dirty, ?_⟩
    rw [← same] at content ⊢
    exact (evolves.content found (logging member)).trans content
  · intro image member
    exact (safe.safely member).imp (images member) fun logged =>
      ⟨logged.1.mono grow, fun isRecorded => (logged.2 isRecorded).mono grow⟩
  · intro id image last
    obtain ⟨entry, found, state', content⟩ := safe.history last
    obtain ⟨entry', found', same⟩ := evolves.finds found
    refine ⟨entry', found', ?_, ?_⟩
    · by_cases cleans : cleaned id
      · exact .inr ((clean id cleans).2 image last)
      · rw [same]
        exact state'.imp (evolves.dirty found cleans) (onFile last)
    · intro untracked
      rw [same, evolves.content found fun change =>
        untracked (covered id change).1]
      exact content untracked
  · intro newer image older split
    obtain ⟨last, entry, isLast, lastMember, found⟩ := safe.cached split
    refine (safe.kept newer image older split).imp ?_ fun logged =>
      ⟨logged.1.mono grow, logged.2.mono grow⟩
    rintro ⟨there, member, sameID, stored⟩
    by_cases cleans : cleaned image.id
    · exact ⟨last, lastMember, lastImage_id isLast,
        (clean image.id cleans).2 last isLast⟩
    · exact ⟨there, member, sameID, evolves.file (by rw [sameID]; exact found)
        (by rw [sameID]; exact cleans) stored⟩
  · intro rest phase
    obtain ⟨files, waiting⟩ := safe.remaining phase
    refine ⟨?_, fun image member =>
      (waiting image member).imp_left (images member)⟩
    intro id image last
    exact (files last).imp_left (onFile last)

theorem Safe.quiet (safe : Safe records state) (manager : TxnManager)
    (quiet : Quiet state.manager.pager manager.pager)
    (log : manager.wal = state.manager.wal) :
    Safe records { state with manager := manager } := by
  refine safe.evolve manager quiet ?_ (fun _ member => member)
    (fun _ never => ?_) fun _ never => ?_
  · rw [log]
    exact safe.holds
  · cases never
  · cases never

theorem Safe.append (safe : Safe records state) {record : WalRecord}
    (short : record.payload.length < 2 ^ 32) (manager : TxnManager)
    (pager : manager.pager = { state.manager.pager with
      walFlusher := some (state.manager.wal.append record).2 }) :
    Safe (records ++ [{ record with
        lsn := state.manager.wal.lastLSN + 1 }.received])
      { state with manager := manager } := by
  have quiet := safe.healthy.withLog
    (some (state.manager.wal.append record).2)
  rw [← pager] at quiet
  refine safe.evolve manager quiet ?_
    (fun _ member => List.mem_append_left _ member) (fun _ never => ?_)
    fun _ never => ?_
  · have log : manager.wal = (state.manager.wal.append record).2 := by
      rw [TxnManager.wal, pager, Option.getD_some]
    rw [log]
    exact safe.holds.append short
  · cases never
  · cases never

end Preservation

end Scheduler

end CocoDB
