import CocoDB.Storage.FreeListRun
import CocoDB.Storage.MetaRun
import CocoDB.Storage.Seal

/-!
# Coherence of the pager

Runs of `Allocate`, `Get`, changes in place, `Flush` and `FlushAll` from a new
file.  The page under an identifier is always the one that was last written, up
to its first bytes, which `Seal` takes from the parsed header; and what
`FlushAll` leaves in the file is what is cached.
-/

namespace CocoDB.DefaultPager

open Lib

/-- A pager, and what its caller last wrote to each page. -/
structure PagerRun where
  pager : DefaultPager
  latest : PageID → Option Page

inductive PagerAction where
  | allocate (type : PageType)
  | get (id : PageID)
  | modify (id : PageID) (page : Page)
  | flush (id : PageID)
  | flushAll

/-- What a single caller does.  A change in place is made to the page object
that `Get` or `Allocate` returned, and followed by `MarkDirty`; `FlushAll` visits
the dirty pages in any order. -/
inductive PagerStep : PagerAction → PagerRun → PagerRun → Prop
  | allocate {pager : DefaultPager} {latest : PageID → Option Page}
      (type : PageType) :
      PagerStep (.allocate type) ⟨pager, latest⟩
        ⟨(pager.allocate type).2,
          Function.update latest (allocatedID type pager)
            (some (Page.newPage (allocatedID type pager) type))⟩
  | get {pager : DefaultPager} {latest : PageID → Option Page} {id : PageID}
      (held : (latest id).isSome) :
      PagerStep (.get id) ⟨pager, latest⟩ ⟨(pager.get id).2, latest⟩
  | modify {pager : DefaultPager} {latest : PageID → Option Page}
      {id : PageID} {entry : CacheEntry} (page : Page)
      (held : (latest id).isSome)
      (found : pager.cache.find id = some entry)
      (sameID : page.header.id = id) :
      PagerStep (.modify id page) ⟨pager, latest⟩
        ⟨(pager.setObject entry.page page).markDirty entry.page,
          Function.update latest id (some page)⟩
  | flush {pager : DefaultPager} {latest : PageID → Option Page}
      (id : PageID) :
      PagerStep (.flush id) ⟨pager, latest⟩ ⟨(pager.flush id).2, latest⟩
  | flushAll {pager : DefaultPager} {latest : PageID → Option Page}
      {order : List PageID → List PageID}
      (visits : ∀ ids, (order ids).Perm ids) :
      PagerStep .flushAll ⟨pager, latest⟩ ⟨(pager.flushAll order).2, latest⟩

/-- The page that `Get` returns. -/
def Returns (pager : DefaultPager) (id : PageID) (page : Page) : Prop :=
  ∃ ref after, pager.get id = (.ok ref, after) ∧ after.heap ref = page

def SameBytes (page other : Page) : Prop :=
  ∀ position, position < defaultPageSize →
    position < 28 ∨ 32 ≤ position → page.data position = other.data position

def HeaderWritten (page : Page) : Prop :=
  ∀ position, position < 28 →
    page.writeHeader.data position = page.data position

/-- Every allocated page is cached, and `Get` returns what was last written to
it. -/
def Coherent (run : PagerRun) : Prop :=
  ∀ id page, run.latest id = some page →
    (run.pager.cache.find id).isSome ∧
      ∃ current, Returns run.pager id current ∧ SameBytes current page

/-- A new pager on the same file returns the pages that are cached now, and they
pass their checksum. -/
def Durable (run : PagerRun) : Prop :=
  ∀ cacheBytes readOnly randomA randomB, ∃ reopened,
    openPager (.ofContents run.pager.backend.contents) cacheBytes readOnly
      randomA randomB = .ok reopened ∧
    ∀ id, (run.latest id).isSome → ∃ current stored,
      Returns run.pager id current ∧ Returns reopened id stored ∧
        SameBytes stored current ∧ Page.validateChecksum stored.data = true

/-! ## Pages that agree -/

/-- The parsed headers agree, and so do the bytes behind them; the header bytes
may have been written since. -/
structure Agrees (current page : Page) : Prop where
  header : current.header =
    { page.header with checksum := current.header.checksum }
  body : ∀ position, 32 ≤ position →
    current.data position = page.data position
  front : (∀ position, position < 28 →
      current.data position = page.data position) ∨
    ∀ position, position < 28 →
      current.data position = page.writeHeader.data position

theorem Agrees.refl (page : Page) : Agrees page page :=
  ⟨rfl, fun _ _ => rfl, .inl fun _ _ => rfl⟩

theorem Agrees.withDirty {current page : Page} (agrees : Agrees current page)
    (dirty : Bool) : Agrees { current with dirty := dirty } page :=
  ⟨agrees.header, agrees.body, agrees.front⟩

theorem Agrees.sameBytes {current page : Page} (agrees : Agrees current page)
    (written : HeaderWritten page) : SameBytes current page := by
  intro position _ outside
  rcases outside with front | body
  · rcases agrees.front with same | same
    · exact same position front
    · exact (same position front).trans (written position front)
  · exact agrees.body position body

def headerFields (header : PageHeader) : Bytes :=
  be 8 header.id.toNat ++ [header.type.toByte] ++ [0] ++
    be 2 header.flags ++ be 8 header.lsn.toNat ++ be 2 header.slotCount ++
    be 2 header.freeStart ++ be 2 header.freeEnd ++ be 2 0

theorem headerFields_length (header : PageHeader) :
    (headerFields header).length = 28 := by
  simp [headerFields]

theorem writeHeader_front (page : Page) {position : Nat}
    (front : position < 28) :
    page.writeHeader.data position =
      (headerFields page.header).get
        ⟨position, by rw [headerFields_length]; exact front⟩ := by
  have length := headerFields_length page.header
  have inside : position < page.header.encode.length := by
    rw [PageHeader.encode_length]
    omega
  have written : page.data.write 0 page.header.encode (0 + position) = _ :=
    Buf.write_apply_inside inside
  rw [Nat.zero_add] at written
  refine written.trans ?_
  have shape : page.header.encode = headerFields page.header ++
      be 4 page.header.checksum.toNat := rfl
  simp only [shape, List.get_eq_getElem]
  exact List.getElem_append_left (by omega)

theorem writeHeader_data_congr {current page : Page}
    (header : current.header =
      { page.header with checksum := current.header.checksum })
    {position : Nat} (front : position < 28) :
    current.writeHeader.data position = page.writeHeader.data position := by
  rw [writeHeader_front current front, writeHeader_front page front]
  have same : headerFields current.header = headerFields page.header := by
    rw [header]
    rfl
  simp only [List.get_eq_getElem, same]

theorem sealPage_data_outside (page : Page) {position : Nat}
    (outside : position < 28 ∨ 32 ≤ position) :
    page.sealPage.data position = page.writeHeader.data position := by
  unfold Page.sealPage
  exact Buf.write_apply_outside (by rw [be_length]; omega)

theorem Agrees.sealPage {current page : Page} (agrees : Agrees current page) :
    Agrees current.sealPage page := by
  refine ⟨?_, ?_, .inr ?_⟩
  · rw [Page.sealPage_header_eq, agrees.header]
  · intro position body
    rw [sealPage_data_outside _ (.inr body),
      Page.writeHeader_data_outside _ body]
    exact agrees.body position body
  · intro position front
    rw [sealPage_data_outside _ (.inl front)]
    exact writeHeader_data_congr agrees.header front

/-! ## The invariant -/

/-- The first page whose place in the file would be at a negative offset. -/
def overflowID : PageID := 0x2000000000000

theorem pageOffset_overflowID : pageOffset overflowID = none := by
  decide

structure OnDisk (backend : Backend) (id : PageID) (current : Page) :
    Prop where
  read : backend.readAt (pageOffset id) defaultPageSize = some current.image
  sealed : ∃ page : Page, current = { page.sealPage with dirty := false }

/-- The allocated pages lie behind the meta pages and have a place each in the
file, unless the page past the last place is among them. -/
def Spaced (next : PageID) (latest : PageID → Option Page) : Prop :=
  (2 ≤ next.toNat ∧ next.toNat ≤ 2 ^ 49 ∧
    ∀ id, (latest id).isSome → 2 ≤ id.toNat ∧ id.toNat < next.toNat) ∨
  (latest overflowID).isSome

structure Tracks (run : PagerRun) : Prop where
  cached : Cached run.pager
  writable : run.pager.readOnly = false
  rootless : run.pager.info.freeListRoot = invalidPageID
  formed : run.pager.info.WellFormed
  large : 2 * defaultPageSize ≤ run.pager.backend.contents.size
  current : ∀ {id page}, run.latest id = some page →
    ∃ current, run.pager.view id = some current ∧ Agrees current page
  known : ∀ {id current}, run.pager.view id = some current →
    (run.latest id).isSome
  addressed : ∀ {id current}, run.pager.view id = some current →
    current.dirty = false → (pageOffset id).isSome
  clean : run.latest overflowID = none → ∀ {id current},
    run.pager.view id = some current → current.dirty = false →
    OnDisk run.pager.backend id current
  spaced : Spaced run.pager.info.nextPageID run.latest

section Steps

variable {pager after : DefaultPager} {latest : PageID → Option Page}
  {id : PageID}

theorem Spaced.offset {next : PageID} (spaced : Spaced next latest)
    (below : latest overflowID = none) (held : (latest id).isSome) :
    pageOffset id = some (id.toNat * defaultPageSize) ∧ 2 ≤ id.toNat := by
  rcases spaced with ⟨_, last, range⟩ | present
  · obtain ⟨behind, less⟩ := range id held
    exact ⟨pageOffset_eq (by omega), behind⟩
  · rw [below] at present
    cases present

theorem readOnly_markDirty (ref : Nat) (pager : DefaultPager) :
    (pager.markDirty ref).readOnly = pager.readOnly := by
  unfold DefaultPager.markDirty
  simp only
  split <;> rfl

theorem Tracks.replaced (tracks : Tracks ⟨pager, latest⟩)
    (cached : Cached after) (writable : after.readOnly = false)
    (rootless : after.info.freeListRoot = invalidPageID)
    (formed : after.info.WellFormed) (backend : after.backend = pager.backend)
    {current page : Page}
    (seen : after.view = Function.update pager.view id (some current))
    (agrees : Agrees current page) (dirty : current.dirty = true)
    (spaced : Spaced after.info.nextPageID
      (Function.update latest id (some page))) :
    Tracks ⟨after, Function.update latest id (some page)⟩ := by
  have kept : ∀ other, (latest other).isSome →
      (Function.update latest id (some page) other).isSome := by
    intro other held
    by_cases here : other = id
    · rw [here, Function.update_self]
      rfl
    · rwa [Function.update_of_ne here]
  have views : ∀ {other shown}, after.view other = some shown →
      (other = id ∧ shown = current) ∨ pager.view other = some shown := by
    intro other shown shownAt
    rw [seen] at shownAt
    by_cases here : other = id
    · rw [here, Function.update_self] at shownAt
      exact .inl ⟨here, (Option.some.inj shownAt).symm⟩
    · rw [Function.update_of_ne here] at shownAt
      exact .inr shownAt
  refine ⟨cached, writable, rootless, formed, ?_, ?_, ?_, ?_, ?_, spaced⟩
  · show _ ≤ after.backend.contents.size
    rw [backend]
    exact tracks.large
  · intro other written writtenAt
    change Function.update latest id (some page) other = some written
      at writtenAt
    show ∃ current, after.view other = some current ∧ Agrees current written
    rw [seen]
    by_cases here : other = id
    · rw [here, Function.update_self] at writtenAt
      rw [here, Function.update_self, ← Option.some.inj writtenAt]
      exact ⟨current, rfl, agrees⟩
    · rw [Function.update_of_ne here] at writtenAt
      rw [Function.update_of_ne here]
      exact tracks.current writtenAt
  · intro other shown shownAt
    show (Function.update latest id (some page) other).isSome
    rcases views shownAt with ⟨rfl, _⟩ | old
    · rw [Function.update_self]
      rfl
    · exact kept other (tracks.known old)
  · intro other shown shownAt unmarked
    rcases views shownAt with ⟨_, rfl⟩ | old
    · rw [dirty] at unmarked
      cases unmarked
    · exact tracks.addressed old unmarked
  · intro below other shown shownAt unmarked
    rcases views shownAt with ⟨_, rfl⟩ | old
    · rw [dirty] at unmarked
      cases unmarked
    · show OnDisk after.backend other shown
      rw [backend]
      refine tracks.clean ?_ old unmarked
      by_contra present
      have later := kept overflowID (Option.isSome_iff_ne_none.mpr present)
      rw [show Function.update latest id (some page) overflowID = none from
        below] at later
      cases later

theorem Spaced.update {next : PageID} {page : Page}
    (spaced : Spaced next latest) (held : (latest id).isSome) :
    Spaced next (Function.update latest id (some page)) := by
  have present : ∀ other,
      (Function.update latest id (some page) other).isSome =
        (latest other).isSome := by
    intro other
    by_cases here : other = id
    · rw [here, Function.update_self, held]
      rfl
    · rw [Function.update_of_ne here]
  unfold Spaced
  simp only [present]
  exact spaced

theorem Spaced.extend {next : PageID} {page : Page}
    (spaced : Spaced next latest) :
    Spaced (next + 1) (Function.update latest next (some page)) := by
  rcases spaced with ⟨first, last, range⟩ | present
  · by_cases full : next = overflowID
    · right
      rw [full, Function.update_self]
      rfl
    · have different : next.toNat ≠ 2 ^ 49 := fun same =>
        full (UInt64.toNat_inj.mp same)
      have succ : (next + 1).toNat = next.toNat + 1 :=
        toNat_succ64 (by omega)
      refine .inl ⟨by omega, by omega, ?_⟩
      intro other held
      by_cases here : other = next
      · rw [here]
        omega
      · rw [Function.update_of_ne here] at held
        have bounds := range other held
        omega
  · right
    by_cases here : overflowID = next
    · rw [here, Function.update_self]
      rfl
    · rwa [Function.update_of_ne here]

theorem Tracks.allocate (tracks : Tracks ⟨pager, latest⟩)
    (type : PageType) :
    Tracks ⟨(pager.allocate type).2,
      Function.update latest (allocatedID type pager)
        (some (Page.newPage (allocatedID type pager) type))⟩ := by
  have rootless : pager.info.freeListRoot = invalidPageID := tracks.rootless
  have same : pager.allocate type = pager.extend type := if_pos rootless
  have cached : Cached pager := tracks.cached
  have formed : pager.info.WellFormed := tracks.formed
  obtain ⟨created, seen, _, info, backend⟩ := (cached.withInfo
    { pager.info with nextPageID := pager.info.nextPageID + 1 }).createPage
      pager.info.nextPageID type
  have result : (pager.extend type).2 = (createPage pager.info.nextPageID type
    { pager with info := { pager.info with
      nextPageID := pager.info.nextPageID + 1 } }).2 := rfl
  rw [allocatedID_extend type rootless, same, result]
  refine tracks.replaced created ?_ ?_ ?_ backend seen (.refl _) rfl ?_
  · exact (readOnly_markDirty _ _).trans tracks.writable
  · rw [info]
    exact rootless
  · rw [info]
    exact ⟨formed.databaseID_length, formed.pageSize_eq⟩
  · rw [info]
    exact tracks.spaced.extend

theorem Tracks.modify (tracks : Tracks ⟨pager, latest⟩)
    {entry : CacheEntry} {page : Page} (held : (latest id).isSome)
    (found : pager.cache.find id = some entry)
    (sameID : page.header.id = id) :
    Tracks ⟨(pager.setObject entry.page page).markDirty entry.page,
      Function.update latest id (some page)⟩ := by
  have cached : Cached pager := tracks.cached
  obtain ⟨modified, seen, info, backend⟩ := cached.modify found sameID
  refine tracks.replaced modified ?_ ?_ ?_ backend seen
    ((Agrees.refl page).withDirty true) rfl ?_
  · exact (readOnly_markDirty _ _).trans tracks.writable
  · rw [info]
    exact tracks.rootless
  · rw [info]
    exact tracks.formed
  · rw [info]
    exact tracks.spaced.update held

theorem Tracks.looked (tracks : Tracks ⟨pager, latest⟩)
    (cached : Cached after) (readOnly : after.readOnly = pager.readOnly)
    (info : after.info = pager.info) (backend : after.backend = pager.backend)
    (seen : after.view = pager.view) : Tracks ⟨after, latest⟩ := by
  refine ⟨cached, readOnly.trans tracks.writable, ?_, ?_, ?_, ?_, ?_, ?_, ?_,
    ?_⟩
  · rw [info]
    exact tracks.rootless
  · rw [info]
    exact tracks.formed
  · rw [backend]
    exact tracks.large
  · rw [seen]
    exact tracks.current
  · rw [seen]
    exact tracks.known
  · rw [seen]
    exact tracks.addressed
  · rw [seen, backend]
    exact tracks.clean
  · rw [info]
    exact tracks.spaced

theorem readOnly_get (id : PageID) (pager : DefaultPager) :
    (pager.get id).2.readOnly = pager.readOnly := by
  unfold DefaultPager.get
  split
  · rfl
  · split
    · rfl
    · simp only
      split <;> rfl

theorem Tracks.get (tracks : Tracks ⟨pager, latest⟩)
    (held : (latest id).isSome) : Tracks ⟨(pager.get id).2, latest⟩ := by
  obtain ⟨page, written⟩ := Option.isSome_iff_exists.mp held
  obtain ⟨current, shown, _⟩ := tracks.current written
  have cached : Cached pager := tracks.cached
  obtain ⟨entry, after, got, _, afterCached, seen, _, info, backend⟩ :=
    cached.get shown
  have readOnly := readOnly_get id pager
  rw [got] at readOnly ⊢
  exact tracks.looked afterCached readOnly info backend seen

def Clean (pager : DefaultPager) (id : PageID) : Prop :=
  ∀ current, pager.view id = some current → current.dirty = false

theorem Clean.updated {page : Page}
    (seen : after.view = Function.update pager.view id (some page))
    (unmarked : page.dirty = false) : Clean after id := by
  intro current shown
  rw [seen, Function.update_self] at shown
  rw [← Option.some.inj shown]
  exact unmarked

theorem Clean.of_update {other : PageID} {page : Page}
    (clean : Clean pager other)
    (seen : after.view = Function.update pager.view id (some page))
    (unmarked : other = id → page.dirty = false) : Clean after other := by
  by_cases here : other = id
  · subst here
    exact .updated seen (unmarked rfl)
  · intro current shown
    rw [seen, Function.update_of_ne here] at shown
    exact clean current shown

theorem Tracks.written (tracks : Tracks ⟨pager, latest⟩)
    (cached : Cached after) (readOnly : after.readOnly = pager.readOnly)
    (info : after.info = pager.info) {old : Page}
    (shown : pager.view id = some old)
    (write : pager.backend.writeAt old.sealPage.image (pageOffset id) =
      some after.backend)
    (seen : after.view = Function.update pager.view id
      (some { old.sealPage with dirty := false })) :
    Tracks ⟨after, latest⟩ := by
  have held : (latest id).isSome := tracks.known shown
  obtain ⟨page, pageAt⟩ := Option.isSome_iff_exists.mp held
  obtain ⟨current, currentAt, agrees⟩ := tracks.current pageAt
  obtain rfl := Option.some.inj (shown.symm.trans currentAt)
  have sealedAgrees := agrees.sealPage.withDirty false
  have length : old.sealPage.image.length = defaultPageSize :=
    Buf.read_length _ _ _
  have here : OnDisk after.backend id { old.sealPage with dirty := false } :=
    ⟨Backend.readAt_written_same length write, old, rfl⟩
  have contents := Backend.writeAt_page write
  generalize old.sealPage = sealed at *
  have views : ∀ {other other_page}, after.view other = some other_page →
      (other = id ∧ other_page = { sealed with dirty := false }) ∨
      (other ≠ id ∧ pager.view other = some other_page) := by
    intro other other_page otherAt
    rw [seen] at otherAt
    by_cases same : other = id
    · rw [same, Function.update_self] at otherAt
      exact .inl ⟨same, (Option.some.inj otherAt).symm⟩
    · rw [Function.update_of_ne same] at otherAt
      exact .inr ⟨same, otherAt⟩
  refine ⟨cached, readOnly.trans tracks.writable, ?_, ?_, ?_, ?_, ?_, ?_, ?_,
    ?_⟩
  · rw [info]
    exact tracks.rootless
  · rw [info]
    exact tracks.formed
  · rw [contents]
    exact tracks.large.trans (Nat.le_max_left _ _)
  · intro other otherPage otherAt
    show ∃ current, after.view other = some current ∧ _
    rw [seen]
    by_cases same : other = id
    · subst same
      obtain rfl := Option.some.inj (pageAt.symm.trans otherAt)
      rw [Function.update_self]
      exact ⟨_, rfl, sealedAgrees⟩
    · rw [Function.update_of_ne same]
      exact tracks.current otherAt
  · intro other otherPage otherAt
    rcases views otherAt with ⟨rfl, _⟩ | ⟨_, oldAt⟩
    · exact held
    · exact tracks.known oldAt
  · intro other otherPage otherAt unmarked
    rcases views otherAt with ⟨rfl, _⟩ | ⟨_, oldAt⟩
    · cases offset : pageOffset other with
      | none =>
          rw [offset] at write
          cases write
      | some start => rfl
    · exact tracks.addressed oldAt unmarked
  · intro below other otherPage otherAt unmarked
    rcases views otherAt with ⟨rfl, rfl⟩ | ⟨different, oldAt⟩
    · exact here
    · obtain ⟨read, sealedPage⟩ := tracks.clean below oldAt unmarked
      refine ⟨?_, sealedPage⟩
      obtain ⟨place, _⟩ := tracks.spaced.offset below held
      obtain ⟨otherPlace, _⟩ := tracks.spaced.offset below
        (tracks.known oldAt)
      rw [place] at write
      rw [otherPlace] at read ⊢
      rw [← Option.some.inj write]
      refine Backend.readAt_write_outside ?_ read
      rw [length]
      exact pages_disjoint defaultPageSize
        (fun equal => different (UInt64.toNat_inj.mp equal))
  · rw [info]
    exact tracks.spaced

/-- `Flush` keeps every page; when it succeeds the page is clean, and it succeeds
when the page has a place in the file. -/
theorem Tracks.flush (tracks : Tracks ⟨pager, latest⟩) (id : PageID) :
    Tracks ⟨(pager.flush id).2, latest⟩ ∧
      (∀ other, Clean pager other → Clean (pager.flush id).2 other) ∧
      ((pager.flush id).1 = .ok () → Clean (pager.flush id).2 id) ∧
      (((latest id).isSome → (pageOffset id).isSome) →
        (pager.flush id).1 = .ok ()) := by
  have cached : Cached pager := tracks.cached
  cases found : pager.cache.find id with
  | none =>
      rw [flush_missing found]
      refine ⟨tracks, fun _ clean => clean, fun _ current shown => ?_,
        fun _ => rfl⟩
      rw [view, found] at shown
      cases shown
  | some entry =>
      obtain ⟨flusher, shape⟩ := flush_cached found
      have shown := view_found found
      rw [shape]
      by_cases marked : (pager.heap entry.page).dirty = true
      · rw [if_pos marked]
        have sealedID := (Page.sealPage_id (pager.heap entry.page)).trans
          (cached.header_id found)
        have sealedDirty := (Page.sealPage_dirty (pager.heap entry.page)).trans
          marked
        cases write : pager.backend.writeAt
            (pager.heap entry.page).sealPage.image (pageOffset id) with
        | none =>
            obtain ⟨flushed, seen⟩ := cached.flushed found sealedID
              pager.backend flusher
            obtain ⟨page, pageAt⟩ :=
              Option.isSome_iff_exists.mp (tracks.known shown)
            obtain ⟨current, currentAt, agrees⟩ := tracks.current pageAt
            obtain rfl := Option.some.inj (shown.symm.trans currentAt)
            have sealedAgrees := agrees.sealPage
            generalize (pager.heap entry.page).sealPage = sealed at *
            have unchanged : Function.update latest id (some page) = latest :=
              Function.update_eq_self_iff.mpr pageAt.symm
            refine ⟨?_, ?_, ?_, ?_⟩
            · have kept := tracks.replaced flushed tracks.writable
                tracks.rootless tracks.formed rfl seen sealedAgrees
                sealedDirty (by rw [unchanged]; exact tracks.spaced)
              rw [unchanged] at kept
              exact kept
            · intro other clean
              refine clean.of_update seen ?_
              rintro rfl
              have unmarked := clean _ shown
              rw [marked] at unmarked
              cases unmarked
            · intro failed
              cases failed
            · intro placed
              obtain ⟨start, offset⟩ :=
                Option.isSome_iff_exists.mp (placed (tracks.known shown))
              rw [offset] at write
              cases write
        | some backend =>
            obtain ⟨flushed, seen⟩ := cached.flushed found
              (show ({ (pager.heap entry.page).sealPage with dirty := false } :
                Page).header.id = id from sealedID) backend flusher
            exact ⟨tracks.written flushed rfl rfl shown write seen,
              fun other clean => clean.of_update seen fun _ => rfl,
              fun _ => .updated seen rfl, fun _ => rfl⟩
      · rw [if_neg marked]
        obtain ⟨unpinned, same⟩ := cached.withCache
          (cached.pinned.get_unpin id (by rw [found]; rfl))
          (fun other => by rw [PageCache.find_get_unpin])
        refine ⟨tracks.looked unpinned rfl rfl rfl same, ?_, ?_,
          fun _ => rfl⟩
        · intro other clean current currentAt
          rw [same] at currentAt
          exact clean current currentAt
        · intro _ current currentAt
          rw [same, shown] at currentAt
          rw [← Option.some.inj currentAt]
          exact Bool.eq_false_iff.mpr marked

theorem Tracks.flushEach (ids : List PageID)
    (tracks : Tracks ⟨pager, latest⟩) :
    let result := DefaultPager.flushEach ids pager
    Tracks ⟨result.2, latest⟩ ∧
      (∀ other, Clean pager other → Clean result.2 other) ∧
      (result.1 = .ok () → ∀ id, id ∈ ids → Clean result.2 id) ∧
      ((∀ id, (latest id).isSome → (pageOffset id).isSome) →
        result.1 = .ok ()) := by
  induction ids generalizing pager with
  | nil =>
      exact ⟨tracks, fun _ clean => clean, fun _ _ member => (nomatch member),
        fun _ => rfl⟩
  | cons id rest inductionHypothesis =>
      obtain ⟨flushed, keeps, cleaned, succeeds⟩ := tracks.flush id
      unfold DefaultPager.flushEach
      cases result : pager.flush id with
      | mk outcome after =>
          rw [result] at flushed keeps cleaned succeeds
          cases outcome with
          | error error =>
              refine ⟨flushed, keeps, fun failed => (nomatch failed), ?_⟩
              intro placed
              exact absurd (succeeds (placed id)) nofun
          | ok =>
              obtain ⟨final, finalKeeps, finalCleaned, finalSucceeds⟩ :=
                inductionHypothesis flushed
              refine ⟨final, fun other clean =>
                finalKeeps other (keeps other clean), ?_, finalSucceeds⟩
              intro succeeded other member
              rcases List.mem_cons.mp member with rfl | later
              · exact finalKeeps other (cleaned rfl)
              · exact finalCleaned succeeded other later

theorem Tracks.saveMeta (tracks : Tracks ⟨pager, latest⟩) :
    Tracks ⟨pager.syncBackend.saveMeta, latest⟩ := by
  have writable : pager.syncBackend.readOnly = false := tracks.writable
  have formed : pager.syncBackend.info.WellFormed := tracks.formed
  have cached : Cached pager := tracks.cached
  have length : pager.syncBackend.nextMeta.encode.length = defaultPageSize :=
    (nextMeta_formed formed).encode_length
  have contents := saveMeta_contents writable
  have info := saveMeta_info writable
  have shape : pager.syncBackend.saveMeta =
      { pager with
        info := pager.syncBackend.nextMeta
        activeMetaSlot := otherSlot pager.activeMetaSlot
        backend := pager.syncBackend.saveMeta.backend } := by
    unfold DefaultPager.saveMeta
    rw [if_neg (by rw [writable]; decide)]
    rfl
  rw [shape]
  refine ⟨⟨cached.pinned, cached.known, cached.distinct, cached.header_id⟩,
    tracks.writable, tracks.rootless, nextMeta_formed formed, ?_,
    tracks.current, tracks.known, tracks.addressed, ?_, tracks.spaced⟩
  · show _ ≤ pager.syncBackend.saveMeta.backend.contents.size
    rw [contents]
    exact tracks.large.trans (Nat.le_max_left _ _)
  · intro below id current currentAt unmarked
    obtain ⟨read, sealed⟩ := tracks.clean below currentAt unmarked
    refine ⟨?_, sealed⟩
    obtain ⟨place, behind⟩ := tracks.spaced.offset below
      (tracks.known currentAt)
    show pager.syncBackend.saveMeta.backend.readAt _ _ = _
    rw [place] at read ⊢
    have apart : pager.syncBackend.metaWrite.offset +
        pager.syncBackend.metaWrite.bytes.length ≤
          id.toNat * defaultPageSize := by
      have ends := slot_end (otherSlot pager.syncBackend.activeMetaSlot)
      have starts := Nat.mul_le_mul_right defaultPageSize behind
      show (otherSlot pager.syncBackend.activeMetaSlot).val * _ +
        pager.syncBackend.nextMeta.encode.length ≤ _
      rw [length]
      omega
    have moved : (⟨pager.backend.contents.write pager.syncBackend.metaWrite,
        pager.backend.synced, pager.backend.trace⟩ : Backend).readAt
          (some (id.toNat * defaultPageSize)) defaultPageSize =
            some current.image :=
      Backend.readAt_write_outside (.inr apart) read
    unfold Backend.readAt at moved ⊢
    rw [contents]
    exact moved

/-- `FlushAll` keeps every page; when it succeeds every page is clean, and it
succeeds when every page has a place in the file. -/
theorem Tracks.flushAll (tracks : Tracks ⟨pager, latest⟩)
    {order : List PageID → List PageID}
    (visits : ∀ ids, (order ids).Perm ids) :
    Tracks ⟨(pager.flushAll order).2, latest⟩ ∧
      ((pager.flushAll order).1 = .ok () →
        (∀ id, Clean (pager.flushAll order).2 id) ∧
        ∃ slot, (readMeta (.ofContents
          (pager.flushAll order).2.backend.contents) slot).isSome) ∧
      ((∀ id, (latest id).isSome → (pageOffset id).isSome) →
        (pager.flushAll order).1 = .ok ()) := by
  have cached : Cached pager := tracks.cached
  obtain ⟨flushed, keeps, cleaned, succeeds⟩ :=
    tracks.flushEach (order pager.dirtyIDs)
  -- a page that `FlushAll` does not visit is clean from the start
  have covered : ∀ id, id ∈ order pager.dirtyIDs ∨ Clean pager id := by
    intro id
    by_cases visited : id ∈ order pager.dirtyIDs
    · exact .inl visited
    · right
      intro current shown
      obtain ⟨entry, found, rfl⟩ := found_of_view shown
      by_contra marked
      exact visited ((visits _).mem_iff.mpr
        (mem_dirtyIDs found (Bool.not_eq_false _ ▸ marked)))
  unfold DefaultPager.flushAll
  cases result : DefaultPager.flushEach (order pager.dirtyIDs) pager with
  | mk outcome after =>
      rw [result] at flushed keeps cleaned succeeds
      cases outcome with
      | error error =>
          exact ⟨flushed, fun failed => (nomatch failed),
            fun placed => absurd (succeeds placed) nofun⟩
      | ok =>
          refine ⟨flushed.saveMeta, fun _ => ⟨?_, ?_⟩, fun _ => rfl⟩
          rotate_left
          · have writable : after.syncBackend.readOnly = false :=
              flushed.writable
            have formed : after.syncBackend.info.WellFormed := flushed.formed
            have large : 2 * defaultPageSize ≤
                (after.syncBackend.backend.contents.write
                  after.syncBackend.metaWrite).size :=
              flushed.large.trans (Nat.le_max_left _ _)
            refine ⟨otherSlot after.syncBackend.activeMetaSlot, ?_⟩
            show (readMeta (.ofContents
              after.syncBackend.saveMeta.backend.contents) _).isSome
            rw [saveMeta_contents writable]
            exact Option.isSome_iff_exists.mpr
              ⟨_, readMeta_write (nextMeta_formed formed) _ large⟩
          intro id
          have views : after.syncBackend.saveMeta.view = after.view := by
            unfold DefaultPager.saveMeta
            split <;> rfl
          intro current shown
          rw [views] at shown
          rcases covered id with visited | clean
          · exact cleaned rfl id visited current shown
          · exact keeps id clean current shown

end Steps

section Runs

def WritesHeader : PagerAction → PagerRun → Prop
  | .modify _ page, _ => HeaderWritten page
  | _, _ => True

theorem headerWritten_newPage (id : PageID) (type : PageType) :
    HeaderWritten (Page.newPage id type) := by
  intro position front
  rw [writeHeader_front _ front, Page.newPage, writeHeader_front _ front]
  rfl

variable {run : PagerRun} {id : PageID}

theorem Tracks.step {action : PagerAction} {next : PagerRun}
    (tracks : Tracks run) (step : PagerStep action run next) :
    Tracks next := by
  cases step with
  | allocate type => exact tracks.allocate type
  | get held => exact tracks.get held
  | modify page held found sameID => exact tracks.modify held found sameID
  | flush id => exact (tracks.flush id).1
  | flushAll visits => exact (tracks.flushAll visits).1

/-- The header bytes of every page were in step with its header when it was last
written. -/
def HeadersWritten (run : PagerRun) : Prop :=
  ∀ id page, run.latest id = some page → HeaderWritten page

theorem HeadersWritten.update {pager after : DefaultPager}
    {latest : PageID → Option Page} {page : Page}
    (written : HeadersWritten ⟨pager, latest⟩) (new : HeaderWritten page) :
    HeadersWritten ⟨after, Function.update latest id (some page)⟩ := by
  intro other otherPage otherAt
  change Function.update latest id (some page) other = _ at otherAt
  by_cases here : other = id
  · rw [here, Function.update_self] at otherAt
    rw [← Option.some.inj otherAt]
    exact new
  · rw [Function.update_of_ne here] at otherAt
    exact written other otherPage otherAt

theorem HeadersWritten.step {action : PagerAction} {next : PagerRun}
    (written : HeadersWritten run)
    (step : Guarded WritesHeader PagerStep action run next) :
    HeadersWritten next := by
  obtain ⟨writes, taken⟩ := step
  cases taken with
  | allocate type => exact written.update (headerWritten_newPage _ type)
  | get held => exact written
  | modify page held found sameID => exact written.update writes
  | flush id => exact written
  | flushAll visits => exact written

theorem Tracks.returns (tracks : Tracks run) {current : Page}
    (shown : run.pager.view id = some current) :
    Returns run.pager id current := by
  obtain ⟨entry, after, got, _, _, _, object, _⟩ := tracks.cached.get shown
  exact ⟨entry.page, after, got, object⟩

theorem Tracks.coherent (tracks : Tracks run)
    (written : HeadersWritten run) : Coherent run := by
  intro id page pageAt
  obtain ⟨current, shown, agrees⟩ := tracks.current pageAt
  obtain ⟨entry, found, _⟩ := found_of_view shown
  exact ⟨by rw [found]; rfl, current, tracks.returns shown,
    agrees.sameBytes (written id page pageAt)⟩

theorem OnDisk.returns {pager : DefaultPager} {current : Page}
    (stored : OnDisk pager.backend id current)
    (missing : pager.cache.find id = none) :
    ∃ loaded, Returns pager id loaded ∧ SameBytes loaded current ∧
      Page.validateChecksum loaded.data = true := by
  obtain ⟨page, sealed⟩ := stored.sealed
  have valid : Page.validateChecksum (parsePage current.image).data =
      true := by
    have image : SealedImage page.header.id current.image :=
      ⟨page, rfl, by rw [sealed]; rfl⟩
    exact image.parse_sealed.1.valid
  refine ⟨parsePage current.image,
    ⟨_, _, get_loaded missing stored.read valid, ?_⟩, ?_, valid⟩
  · exact Function.update_self _ _ _
  · intro position inside _
    exact SealedImage.parse_apply current inside

theorem Tracks.durable (tracks : Tracks run)
    (clean : ∀ id, Clean run.pager id)
    (readable : ∃ slot, (readMeta
      (.ofContents run.pager.backend.contents) slot).isSome) :
    Durable run := by
  have below : run.latest overflowID = none := by
    by_contra present
    obtain ⟨page, pageAt⟩ := Option.ne_none_iff_exists'.mp present
    obtain ⟨current, shown, _⟩ := tracks.current pageAt
    have placed := tracks.addressed shown (clean _ current shown)
    rw [pageOffset_overflowID] at placed
    cases placed
  intro cacheBytes readOnly randomA randomB
  have found : (readMeta (.ofContents run.pager.backend.contents) 0).isSome ∨
      (readMeta (.ofContents run.pager.backend.contents) 1).isSome := by
    obtain ⟨slot, some_info⟩ := readable
    have slots : ∀ slot : Fin 2, slot = 0 ∨ slot = 1 := by decide
    rcases slots slot with rfl | rfl
    · exact .inl some_info
    · exact .inr some_info
  obtain ⟨info, slot, chosen, _⟩ := @chooseMeta_some (fun _ => True) _ _
    (fun _ _ => trivial) (fun _ _ => trivial) found
  refine ⟨fresh (.ofContents run.pager.backend.contents) info slot cacheBytes
    readOnly, ?_, ?_⟩
  · rw [openPager_eq tracks.large, chosen]
  · intro id held
    obtain ⟨page, pageAt⟩ := Option.isSome_iff_exists.mp held
    obtain ⟨current, shown, _⟩ := tracks.current pageAt
    obtain ⟨read, sealed⟩ :=
      tracks.clean below shown (clean id current shown)
    obtain ⟨loaded, returned, same, valid⟩ := @OnDisk.returns id
      (fresh (.ofContents run.pager.backend.contents) info slot cacheBytes
        readOnly) current ⟨read, sealed⟩ rfl
    exact ⟨current, loaded, tracks.returns shown, returned, same, valid⟩

variable {cacheBytes : Nat} {randomA randomB : Bytes} {pager : DefaultPager}

theorem created_tracks (sizedA : randomA.length = 16)
    (sizedB : randomB.length = 16)
    (created : openPager (.ofContents .empty) cacheBytes false randomA
      randomB = .ok pager) : Tracks ⟨pager, fun _ => none⟩ := by
  have formedA := MetaPage.newInitial_wellFormed sizedA
  have formedB : ({ MetaPage.newInitial randomB with generation := 0 } :
      MetaPage).WellFormed := ⟨sizedB, rfl⟩
  have spaced : Spaced 2 fun _ => none :=
    .inl ⟨by decide, by decide, fun _ held => (nomatch held)⟩
  obtain ⟨backend, contents, rfl⟩ := openPager_created created
  refine ⟨cached_fresh _ _ _ _ _, rfl, rfl, formedA, ?_,
    fun written => (nomatch written), fun shown => (nomatch shown),
    fun shown => (nomatch shown), fun _ _ _ shown => (nomatch shown), spaced⟩
  show 2 * defaultPageSize ≤ backend.contents.size
  rw [contents, metaPair_size formedA formedB]

theorem Tracks.front_flushed (tracks : Tracks run) {current page : Page}
    (below : run.latest overflowID = none) (pageAt : run.latest id = some page)
    (shown : run.pager.view id = some current)
    (unmarked : current.dirty = false) {position : Nat}
    (front : position < 28) :
    current.data position = page.writeHeader.data position := by
  obtain ⟨same, sameAt, agrees⟩ := tracks.current pageAt
  obtain rfl := Option.some.inj (shown.symm.trans sameAt)
  obtain ⟨sealedPage, rfl⟩ := (tracks.clean below shown unmarked).sealed
  show sealedPage.sealPage.data position = _
  rw [sealPage_data_outside _ (.inl front)]
  refine writeHeader_data_congr ?_ front
  have headers : sealedPage.sealPage.header =
    { page.header with checksum := sealedPage.sealPage.header.checksum } :=
      agrees.header
  rw [Page.sealPage_header_eq] at headers
  exact congrArg (fun header : PageHeader =>
    { header with checksum := sealedPage.header.checksum }) headers

/-- The first new page with one byte of its header changed: not that of its
parsed header. -/
def flaggedPage : Page :=
  { Page.newPage 2 .pageRecord with
    data := (Page.newPage 2 .pageRecord).data.write 10 [1] }

end Runs

end CocoDB.DefaultPager
