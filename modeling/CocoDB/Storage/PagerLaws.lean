import CocoDB.Storage.CacheView
import CocoDB.Storage.Pager

/-!
# The default pager keeps its contract

While no page is freed, the default pager hands out fresh pages, finds every page
it handed out, and keeps what was written to it: entries are never evicted, and
a page that is not cached is the page in the file.
-/

namespace CocoDB.DefaultPager

open Lib

/-- The page behind an identifier: the cached object, or the page that `get`
would load. -/
def pageOf (pager : DefaultPager) (id : PageID) : Page :=
  match pager.cache.find id with
  | some entry => pager.heap entry.page
  | none =>
      parsePage
        ((pager.backend.readAt (pageOffset id) defaultPageSize).getD [])

def Loadable (pager : DefaultPager) (id : PageID) : Prop :=
  ∃ bytes,
    pager.backend.readAt (pageOffset id) defaultPageSize = some bytes ∧
    Page.validateChecksum (parsePage bytes).data = true ∧
    (parsePage bytes).header.id = id

/-- Write to the page behind an identifier.  Callers hold a pointer from `get`,
so the page is cached. -/
def setPageOf (id : PageID) (page : Page) (pager : DefaultPager) :
    DefaultPager :=
  match pager.cache.find id with
  | some entry => pager.setObject entry.page page
  | none =>
      let (ref, created) := pager.newObject page
      created.cachePut ref

instance : Pager DefaultPager where
  get id pager :=
    match pager.get id with
    | (.error error, after) => (.error error, after)
    | (.ok _, after) => (.ok (), after)
  page := pageOf
  setPage := setPageOf
  markDirty id pager :=
    match pager.cache.find id with
    | some entry => pager.markDirty entry.page
    | none => pager
  allocate type pager :=
    let (ref, after) := pager.allocate type
    (.ok (after.heap ref).header.id, after)
  pageCount pager := pager.info.nextPageID.toNat

/-- The cache and the heap agree, and no page was ever freed. -/
structure Sound (pager : DefaultPager) : Prop where
  pinned : pager.cache.Pinned
  known : ∀ {id entry}, pager.cache.find id = some entry →
    entry.page < pager.nextRef
  distinct : ∀ {id other entry entry'},
    pager.cache.find id = some entry → pager.cache.find other = some entry' →
    entry.page = entry'.page → id = other
  header_id : ∀ {id entry}, pager.cache.find id = some entry →
    (pager.heap entry.page).header.id = id
  below : ∀ {id entry}, pager.cache.find id = some entry →
    id.toNat < pager.info.nextPageID.toNat
  noFree : pager.info.freeListRoot = invalidPageID

def Held (pager : DefaultPager) (id : PageID) : Prop :=
  id.toNat < pager.info.nextPageID.toNat ∧
    ((pager.cache.find id).isSome ∨ pager.Loadable id)

variable {pager : DefaultPager} {id other : PageID}

theorem pageOf_cached {entry : CacheEntry}
    (found : pager.cache.find id = some entry) :
    pager.pageOf id = pager.heap entry.page := by
  simp only [pageOf, found]

theorem Sound.cached (sound : Sound pager) : Cached pager :=
  ⟨sound.pinned, sound.known, sound.distinct, sound.header_id⟩

theorem pageOf_congr {after : DefaultPager}
    (backend : after.backend = pager.backend)
    (finds : after.cache.find id = pager.cache.find id)
    (views : after.view id = pager.view id) :
    after.pageOf id = pager.pageOf id := by
  cases found : pager.cache.find id with
  | none =>
      rw [found] at finds
      simp only [pageOf, found, finds, backend]
  | some entry =>
      rw [found] at finds
      rw [view_found finds, view_found found] at views
      rw [pageOf_cached finds, pageOf_cached found]
      exact Option.some.inj views

/-! ## Putting a page object into the cache -/

theorem Sound.cachePut (sound : Sound pager) (page : Page)
    (small : page.header.id.toNat < pager.info.nextPageID.toNat) :
    let after := (pager.newObject page).2.cachePut pager.nextRef
    Sound after ∧
      (∃ entry, after.cache.find page.header.id = some entry ∧
        entry.page = pager.nextRef) ∧
      after.heap pager.nextRef = page ∧
      (∀ other, other ≠ page.header.id →
        after.cache.find other = pager.cache.find other ∧
        after.pageOf other = pager.pageOf other) := by
  intro after
  obtain ⟨put, seen, there, others⟩ := sound.cached.cachePut page
  refine ⟨⟨put.pinned, put.known, put.distinct, put.header_id, ?_,
    sound.noFree⟩, there, Function.update_self _ _ _, ?_⟩
  · intro id entry found
    show id.toNat < pager.info.nextPageID.toNat
    by_cases here : id = page.header.id
    · rw [here]
      exact small
    · rw [others id here] at found
      exact sound.below found
  · intro other different
    exact ⟨others other different, pageOf_congr rfl (others other different)
      ((congrFun seen other).trans (Function.update_of_ne different _ _))⟩

/-! ## The operations -/

/-- A change of the heap that keeps the identifiers of the page objects keeps
the cache and the heap in step. -/
theorem Sound.heap (sound : Sound pager) {heap : Nat → Page}
    {cache : PageCache} (pinned : cache.Pinned)
    (entries : ∀ id, (cache.find id).map CacheEntry.page =
      (pager.cache.find id).map CacheEntry.page)
    (ids : ∀ {id entry}, pager.cache.find id = some entry →
      (heap entry.page).header.id = id) :
    Sound { pager with heap := heap, cache := cache } := by
  have cached := sound.cached.heap pinned entries ids
  refine ⟨cached.pinned, cached.known, cached.distinct, cached.header_id, ?_,
    sound.noFree⟩
  intro id entry found
  have mapped := entries id
  rw [show cache.find id = some entry from found] at mapped
  obtain ⟨entry', found', _⟩ := Option.map_eq_some_iff.mp mapped.symm
  exact sound.below found'

theorem Held.mono (held : Held pager id) {after : DefaultPager}
    (backend : after.backend = pager.backend)
    (count : pager.info.nextPageID.toNat ≤ after.info.nextPageID.toNat)
    (entry : (pager.cache.find id).isSome →
      (after.cache.find id).isSome) : Held after id := by
  refine ⟨held.1.trans_le count, held.2.imp entry ?_⟩
  rintro ⟨bytes, readable, rest⟩
  exact ⟨bytes, by rw [backend]; exact readable, rest⟩

theorem Sound.get_spec (sound : Sound pager) (held : Held pager id) :
    ∃ ref after entry, pager.get id = (.ok ref, after) ∧ Sound after ∧
      after.cache.find id = some entry ∧ entry.page = ref ∧
      after.info = pager.info ∧
      ∀ other, Held pager other →
        Held after other ∧ after.pageOf other = pager.pageOf other := by
  unfold DefaultPager.get
  have first := pager.cache.get_fst id
  have finds := pager.cache.find_get id
  cases found : pager.cache.find id with
  | some entry =>
      rw [found, Option.map_some] at first
      have shape : pager.cache.get id =
          (some entry.page, (pager.cache.get id).2) :=
        Prod.ext first rfl
      have entries : ∀ other,
          ((pager.cache.get id).2.find other).map CacheEntry.page =
            (pager.cache.find other).map CacheEntry.page := by
        intro other
        rw [finds other]
        by_cases here : other = id
        · rw [if_pos here, here, Option.map_map]
          rfl
        · rw [if_neg here]
      refine ⟨entry.page, { pager with cache := (pager.cache.get id).2 },
        { entry with pins := entry.pins + 1 }, by rw [shape],
        sound.heap (sound.pinned.get id) entries fun known =>
          sound.header_id known, ?_, rfl, rfl, ?_⟩
      · rw [finds id, if_pos rfl, found, Option.map_some]
      · intro other otherHeld
        refine ⟨otherHeld.mono rfl (Nat.le_refl _) ?_, ?_⟩
        · intro present
          have mapped := congrArg Option.isSome (entries other)
          rw [Option.isSome_map, Option.isSome_map] at mapped
          rw [mapped]
          exact present
        · have mapped := entries other
          unfold pageOf
          cases old : pager.cache.find other with
          | none =>
              rw [old, Option.map_none, Option.map_eq_none_iff] at mapped
              rw [mapped]
          | some oldEntry =>
              rw [old, Option.map_some] at mapped
              obtain ⟨new, newFound, same⟩ :=
                Option.map_eq_some_iff.mp mapped
              rw [newFound]
              exact congrArg pager.heap same
  | none =>
      rw [found, Option.map_none] at first
      have shape : pager.cache.get id = (none, (pager.cache.get id).2) :=
        Prod.ext first rfl
      obtain ⟨bytes, readable, valid, sameID⟩ :=
        held.2.resolve_left (by simp [found])
      obtain ⟨after, ⟨entry, entryFound, entryPage⟩, stored, others⟩ :=
        sound.cachePut (parsePage bytes) (by rw [sameID]; exact held.1)
      refine ⟨pager.nextRef, _, entry, by
        rw [shape]
        simp only [readable, valid, if_true]
        rfl, after, sameID ▸ entryFound, entryPage, rfl, ?_⟩
      intro other otherHeld
      by_cases here : other = id
      · subst here
        rw [sameID] at entryFound
        refine ⟨⟨held.1, .inl (by rw [entryFound]; rfl)⟩, ?_⟩
        rw [pageOf_cached entryFound, entryPage, stored]
        unfold pageOf
        rw [found, readable]
        rfl
      · obtain ⟨sameFind, samePage⟩ := others other (sameID ▸ here)
        exact ⟨otherHeld.mono rfl (Nat.le_refl _) fun present =>
          sameFind ▸ present, samePage⟩

theorem Sound.setObject (sound : Sound pager) {entry : CacheEntry}
    (page : Page) (found : pager.cache.find id = some entry)
    (sameID : page.header.id = id) :
    Sound (pager.setObject entry.page page) ∧
      (pager.setObject entry.page page).pageOf id = page ∧
      ∀ other, other ≠ id →
        (pager.setObject entry.page page).pageOf other =
          pager.pageOf other := by
  obtain ⟨stored, seen⟩ := sound.cached.setObject found sameID
  refine ⟨⟨stored.pinned, stored.known, stored.distinct, stored.header_id,
    sound.below, sound.noFree⟩, ?_, ?_⟩
  · have cached : (pager.setObject entry.page page).cache.find id =
        some entry := found
    rw [pageOf_cached cached]
    exact Function.update_self _ _ _
  · intro other different
    exact pageOf_congr rfl rfl
      ((congrFun seen other).trans (Function.update_of_ne different _ _))

theorem Sound.setPageOf_spec (sound : Sound pager) (held : Held pager id)
    {page : Page} (sameID : page.header.id = id) :
    Sound (pager.setPageOf id page) ∧
      (pager.setPageOf id page).info = pager.info ∧
      (pager.setPageOf id page).pageOf id = page ∧
      (∀ other, other ≠ id →
        (pager.setPageOf id page).pageOf other = pager.pageOf other) ∧
      ∀ other, Held pager other →
        Held (pager.setPageOf id page) other := by
  unfold DefaultPager.setPageOf
  cases found : pager.cache.find id with
  | some entry =>
      obtain ⟨after, same, others⟩ := sound.setObject page found sameID
      exact ⟨after, rfl, same, others, fun other otherHeld =>
        otherHeld.mono rfl (Nat.le_refl _) fun present => present⟩
  | none =>
      obtain ⟨after, ⟨entry, entryFound, entryPage⟩, stored, others⟩ :=
        sound.cachePut page (by rw [sameID]; exact held.1)
      rw [sameID] at entryFound others
      refine ⟨after, rfl, ?_, fun other different =>
        (others other different).2, ?_⟩
      · exact (pageOf_cached entryFound).trans (by rw [entryPage, stored])
      · intro other otherHeld
        refine otherHeld.mono rfl (Nat.le_refl _) fun present => ?_
        by_cases here : other = id
        · rw [here]
          exact Option.isSome_iff_exists.mpr ⟨entry, entryFound⟩
        · exact (others other here).1 ▸ present

theorem Sound.markDirty_spec (sound : Sound pager) {entry : CacheEntry}
    (found : pager.cache.find id = some entry) :
    Sound (pager.markDirty entry.page) ∧
      (pager.markDirty entry.page).info = pager.info ∧
      (pager.markDirty entry.page).pageOf id =
        { pager.pageOf id with dirty := true } ∧
      (∀ other, other ≠ id →
        (pager.markDirty entry.page).pageOf other = pager.pageOf other) ∧
      (∃ marked, (pager.markDirty entry.page).cache.find id = some marked ∧
        marked.page = entry.page) ∧
      ∀ other, Held pager other →
        Held (pager.markDirty entry.page) other := by
  have sameID := sound.header_id found
  have finds := pager.cache.find_markDirty id (pager.heap entry.page).header.lsn
  have shape := markDirty_cached found sameID
  have entries : ∀ other, ((pager.cache.markDirty id
        (pager.heap entry.page).header.lsn).find other).map
          CacheEntry.page =
      (pager.cache.find other).map CacheEntry.page := by
    intro other
    rw [finds other]
    by_cases here : other = id
    · rw [if_pos here, here, Option.map_map]
      rfl
    · rw [if_neg here]
  obtain ⟨stored, same, others⟩ := sound.setObject
    { pager.heap entry.page with dirty := true } found sameID
  rw [shape]
  refine ⟨stored.heap (sound.pinned.markDirty _ _) entries
    fun known => stored.header_id known, rfl, ?_, ?_, ?_, ?_⟩
  · unfold pageOf
    simp only [finds id, if_true, found, Option.map_some]
    exact Function.update_self _ _ _
  · intro other different
    refine Eq.trans ?_ (others other different)
    unfold pageOf
    simp only [finds other, if_neg different]
    rfl
  · refine ⟨{ entry with
      dirty := true, pageLSN := (pager.heap entry.page).header.lsn }, ?_, rfl⟩
    refine (finds id).trans ?_
    rw [if_pos rfl, found, Option.map_some]
  · intro other otherHeld
    refine otherHeld.mono rfl (Nat.le_refl _) fun present => ?_
    have mapped := congrArg Option.isSome (entries other)
    rw [Option.isSome_map, Option.isSome_map] at mapped
    show ((pager.cache.markDirty id _).find other).isSome = true
    rw [mapped]
    exact present

theorem Sound.extend_spec (sound : Sound pager) (type : PageType)
    (roomy : pager.info.nextPageID.toNat + 1 < 2 ^ 64) :
    ∃ ref after entry, pager.extend type = (ref, after) ∧ Sound after ∧
      after.info =
        { pager.info with nextPageID := pager.info.nextPageID + 1 } ∧
      after.cache.find pager.info.nextPageID = some entry ∧
      entry.page = ref ∧
      after.heap ref = Page.newPage pager.info.nextPageID type ∧
      ∀ other, Held pager other →
        Held after other ∧ after.pageOf other = pager.pageOf other := by
  have next : (pager.info.nextPageID + 1).toNat =
      pager.info.nextPageID.toNat + 1 := by
    rw [UInt64.toNat_add]
    exact Nat.mod_eq_of_lt roomy
  let bumped : DefaultPager :=
    { pager with
      info := { pager.info with nextPageID := pager.info.nextPageID + 1 } }
  have bumpedSound : Sound bumped := by
    refine ⟨sound.pinned, sound.known, sound.distinct, sound.header_id, ?_,
      sound.noFree⟩
    intro id entry found
    have bound := sound.below found
    show id.toNat < (pager.info.nextPageID + 1).toNat
    omega
  have bumpedHeld : ∀ {other}, Held pager other → Held bumped other := by
    intro other held
    refine held.mono rfl ?_ fun present => present
    show pager.info.nextPageID.toNat ≤ (pager.info.nextPageID + 1).toNat
    omega
  obtain ⟨put, ⟨entry, found, samePage⟩, stored, others⟩ :=
    bumpedSound.cachePut (Page.newPage pager.info.nextPageID type) (by
      show pager.info.nextPageID.toNat < (pager.info.nextPageID + 1).toNat
      omega)
  obtain ⟨marked, info, page, frame, ⟨final, finalFound, finalPage⟩, held⟩ :=
    put.markDirty_spec found
  rw [samePage] at marked info page frame finalFound held
  have ref : final.page = pager.nextRef := finalPage.trans samePage
  refine ⟨pager.nextRef, _, final, rfl, marked, info, finalFound, ref, ?_, ?_⟩
  · refine (congrArg _ ref.symm).trans
      ((pageOf_cached finalFound).symm.trans (page.trans ?_))
    rw [pageOf_cached found, samePage, stored]
    rfl
  · intro other otherHeld
    have different : other ≠ pager.info.nextPageID := by
      rintro rfl
      exact absurd otherHeld.1 (Nat.lt_irrefl _)
    obtain ⟨sameFind, samePage⟩ := others other different
    refine ⟨held other ((bumpedHeld otherHeld).mono rfl (Nat.le_refl _)
      fun present => sameFind ▸ present), ?_⟩
    exact (frame other different).trans samePage

theorem sound_fresh (backend : Backend) {info : MetaPage} (slot : Fin 2)
    (maxCacheBytes : Nat) (readOnly : Bool)
    (noFree : info.freeListRoot = invalidPageID) :
    Sound (fresh backend info slot maxCacheBytes readOnly) :=
  ⟨PageCache.pinned_empty _, fun found => (nomatch found),
    fun found => (nomatch found), fun found => (nomatch found),
    fun found => (nomatch found), noFree⟩

instance : LawfulPager DefaultPager where
  Good := Sound
  Allocated := Held
  room pager := 2 ^ 64 - 1 - pager.info.nextPageID.toNat
  allocated_lt _ held := held.1
  allocated_valid := by
    rintro pager _ _ held rfl
    have bound := held.1
    have small := UInt64.toNat_lt pager.info.nextPageID
    have largest : invalidPageID.toNat = 2 ^ 64 - 1 := rfl
    omega
  page_id := by
    intro pager id sound held
    show (pager.pageOf id).header.id = id
    unfold pageOf
    cases found : pager.cache.find id with
    | some entry => exact sound.header_id found
    | none =>
        obtain ⟨bytes, readable, _, sameID⟩ :=
          held.2.resolve_left (by simp [found])
        rw [readable]
        exact sameID
  get_ok := by
    intro pager id sound held
    obtain ⟨ref, after, _, got, afterSound, _⟩ := sound.get_spec held
    simp only [Pager.get, got]
    exact ⟨trivial, afterSound⟩
  get_allocated := by
    intro pager id other sound held otherHeld
    obtain ⟨ref, after, _, got, _, _, _, _, frame⟩ := sound.get_spec held
    simp only [Pager.get, got]
    exact (frame other otherHeld).1
  get_page := by
    intro pager id other sound held otherHeld
    obtain ⟨ref, after, _, got, _, _, _, _, frame⟩ := sound.get_spec held
    simp only [Pager.get, got]
    exact (frame other otherHeld).2
  get_room := by
    intro pager id sound held
    obtain ⟨ref, after, _, got, _, _, _, info, _⟩ := sound.get_spec held
    simp only [Pager.get, got, info]
    exact Nat.le_refl _
  setPage_good sound held same := (sound.setPageOf_spec held same).1
  setPage_allocated sound held same otherHeld :=
    (sound.setPageOf_spec held same).2.2.2.2 _ otherHeld
  setPage_same sound held same := (sound.setPageOf_spec held same).2.2.1
  setPage_other sound held same _ different :=
    (sound.setPageOf_spec held same).2.2.2.1 _ different
  setPage_room sound held same := by
    show _ ≤ 2 ^ 64 - 1 - (DefaultPager.setPageOf _ _ _).info.nextPageID.toNat
    rw [(sound.setPageOf_spec held same).2.1]
  markDirty_good := by
    intro pager id sound held
    simp only [Pager.markDirty]
    cases found : pager.cache.find id with
    | some entry => exact (sound.markDirty_spec found).1
    | none => exact sound
  markDirty_allocated := by
    intro pager id other sound held otherHeld
    simp only [Pager.markDirty]
    cases found : pager.cache.find id with
    | some entry =>
        exact (sound.markDirty_spec found).2.2.2.2.2 other otherHeld
    | none => exact otherHeld
  markDirty_page := by
    intro pager id other sound held otherHeld dirty
    simp only [Pager.markDirty]
    cases found : pager.cache.find id with
    | none => rfl
    | some entry =>
        obtain ⟨_, _, same, others, _⟩ := sound.markDirty_spec found
        by_cases here : other = id
        · subst here
          refine same.trans ?_
          show _ = pager.pageOf other
          have flag : (pager.pageOf other).dirty = true := dirty
          rw [← flag]
        · exact others other here
  markDirty_room := by
    intro pager id sound held
    simp only [Pager.markDirty]
    cases found : pager.cache.find id with
    | some entry => simp only [(sound.markDirty_spec found).2.1, le_refl]
    | none => exact Nat.le_refl _
  allocate_spec := by
    intro pager type sound roomy
    have small : pager.info.nextPageID.toNat + 1 < 2 ^ 64 := by
      omega
    obtain ⟨ref, after, entry, extended, afterSound, info, found, samePage,
      page, frame⟩ := sound.extend_spec type small
    have count : after.info.nextPageID.toNat =
        pager.info.nextPageID.toNat + 1 := by
      rw [info, UInt64.toNat_add]
      exact Nat.mod_eq_of_lt small
    refine ⟨pager.info.nextPageID, after, ?_, afterSound, ?_, ?_, ?_, ?_, ?_,
      ?_⟩
    · simp only [Pager.allocate, DefaultPager.allocate, if_pos sound.noFree,
        extended, page]
      rfl
    · exact fun held => absurd held.1 (Nat.lt_irrefl _)
    · exact ⟨by omega, .inl (by rw [found]; rfl)⟩
    · exact fun other held => (frame other held).1
    · show after.pageOf _ = _
      rw [pageOf_cached found, samePage, page]
    · exact fun other held => (frame other held).2
    · omega

end CocoDB.DefaultPager
