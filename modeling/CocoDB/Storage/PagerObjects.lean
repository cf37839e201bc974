import CocoDB.Storage.PagerLaws

/-!
# The page objects of the default pager

Callers that keep a pointer to a page rely on the cache: as long as no entry is
removed, the calls of the pager keep the object of every page, and of the meta
page they change the next identifier only.  The record directory notes its root
there as well.
-/

namespace CocoDB.DefaultPager

open LawfulPager

def objectOf (pager : DefaultPager) (id : PageID) : Option Nat :=
  (pager.cache.find id).map CacheEntry.page

/-- The page objects are still there, and the meta page is the same but for the
next identifier and the root of the directory. -/
structure Continues (before after : DefaultPager) : Prop where
  objects : ∀ {id ref}, before.objectOf id = some ref →
    after.objectOf id = some ref
  info : after.info =
    { before.info with
      nextPageID := after.info.nextPageID
      recordDirRoot := after.info.recordDirRoot }

section Continues

variable {pager middle after : DefaultPager} {id : PageID} {ref : Nat}

theorem Continues.refl (pager : DefaultPager) : Continues pager pager :=
  ⟨fun known => known, rfl⟩

theorem Continues.trans (first : Continues pager middle)
    (second : Continues middle after) : Continues pager after :=
  ⟨fun known => second.objects (first.objects known), by
    rw [second.info, first.info]⟩

theorem objectOf_eq_some :
    pager.objectOf id = some ref ↔
      ∃ entry, pager.cache.find id = some entry ∧ entry.page = ref :=
  Option.map_eq_some_iff

theorem pageOf_object (known : pager.objectOf id = some ref) :
    pager.pageOf id = pager.heap ref := by
  obtain ⟨entry, found, rfl⟩ := objectOf_eq_some.mp known
  exact pageOf_cached found

theorem Sound.held_object (sound : pager.Sound)
    (known : pager.objectOf id = some ref) : pager.Held id := by
  obtain ⟨entry, found, rfl⟩ := objectOf_eq_some.mp known
  exact ⟨sound.below found, .inl (by rw [found]; rfl)⟩

theorem Sound.pageOf_id (sound : pager.Sound) (held : pager.Held id) :
    (pager.pageOf id).header.id = id :=
  @page_id DefaultPager _ _ pager id sound held

theorem Sound.ne_invalid (sound : pager.Sound) (held : pager.Held id) :
    id ≠ invalidPageID :=
  @allocated_valid DefaultPager _ _ pager id sound held

theorem continues_of_entries (entries : ∀ id,
      (after.cache.find id).map CacheEntry.page =
        (pager.cache.find id).map CacheEntry.page)
    (info : after.info = pager.info) : Continues pager after :=
  ⟨fun {id ref} known => (entries id).trans known, by rw [info]⟩

theorem Sound.continues_cachePut (sound : pager.Sound) {page : Page}
    (missing : pager.cache.find page.header.id = none) :
    Continues pager ((pager.newObject page).2.cachePut pager.nextRef) := by
  obtain ⟨_, _, _, others⟩ := sound.cached.cachePut page
  refine ⟨fun {other ref} known => ?_, rfl⟩
  by_cases here : other = page.header.id
  · rw [here, objectOf, missing] at known
    cases known
  · rw [objectOf, others other here]
    exact known

theorem Sound.continues_get (sound : pager.Sound) (held : pager.Held id) :
    Continues pager (pager.get id).2 := by
  have first := pager.cache.get_fst id
  unfold DefaultPager.get
  cases found : pager.cache.find id with
  | some entry =>
      rw [found, Option.map_some] at first
      have shape : pager.cache.get id =
          (some entry.page, (pager.cache.get id).2) :=
        Prod.ext first rfl
      rw [shape]
      exact continues_of_entries (entries_get pager.cache id) rfl
  | none =>
      rw [found, Option.map_none] at first
      have shape : pager.cache.get id = (none, (pager.cache.get id).2) :=
        Prod.ext first rfl
      obtain ⟨bytes, readable, valid, sameID⟩ :=
        held.2.resolve_left (by simp [found])
      rw [shape]
      simp only [readable, valid, if_true]
      refine sound.continues_cachePut ?_
      rw [sameID]
      exact found

theorem Sound.continues_setPageOf (sound : pager.Sound) {page : Page}
    (sameID : page.header.id = id) :
    Continues pager (pager.setPageOf id page) := by
  unfold DefaultPager.setPageOf
  cases found : pager.cache.find id with
  | some entry => exact continues_of_entries (fun _ => rfl) rfl
  | none =>
      refine sound.continues_cachePut ?_
      rw [sameID]
      exact found

theorem continues_markDirty (pager : DefaultPager) (ref : Nat) :
    Continues pager (pager.markDirty ref) := by
  unfold DefaultPager.markDirty
  simp only
  split
  · exact continues_of_entries (fun _ => rfl) rfl
  · exact continues_of_entries (entries_markDirty pager.cache _ _) rfl

theorem Sound.continues_allocate (sound : pager.Sound) (type : PageType) :
    Continues pager (pager.allocate type).2 := by
  unfold DefaultPager.allocate
  rw [if_pos sound.noFree]
  have missing : pager.cache.find pager.info.nextPageID = none := by
    cases found : pager.cache.find pager.info.nextPageID with
    | none => rfl
    | some entry => exact absurd (sound.below found) (Nat.lt_irrefl _)
  let bumped : DefaultPager :=
    { pager with
      info := { pager.info with nextPageID := pager.info.nextPageID + 1 } }
  obtain ⟨_, _, _, others⟩ := (show Cached bumped from
    ⟨sound.pinned, sound.known, sound.distinct, sound.header_id⟩).cachePut
      (Page.newPage pager.info.nextPageID type)
  have put : Continues pager ((bumped.newObject (Page.newPage
      pager.info.nextPageID type)).2.cachePut bumped.nextRef) := by
    refine ⟨fun {other ref} known => ?_, rfl⟩
    by_cases here : other = pager.info.nextPageID
    · rw [here, objectOf, missing] at known
      cases known
    · rw [objectOf, others other here]
      exact known
  exact put.trans (continues_markDirty _ _)

theorem continues_kept (base : DefaultPager) : Kept (Continues base) where
  get := by
    intro pager id sound held continues
    have got := continues.trans (sound.continues_get held)
    simp only [Pager.get]
    rcases outcome : pager.get id with ⟨result, after⟩
    rw [outcome] at got
    cases result <;> exact got
  setPage sound _ same continues :=
    continues.trans (sound.continues_setPageOf same)
  markDirty := by
    intro pager id sound held continues
    simp only [Pager.markDirty]
    cases pager.cache.find id with
    | some entry => exact continues.trans (continues_markDirty _ _)
    | none => exact continues
  allocate type sound _ continues :=
    continues.trans (sound.continues_allocate type)

end Continues

end CocoDB.DefaultPager
