import CocoDB.Lib.Run
import CocoDB.Storage.CacheView

/-!
# The free list

`Free` of `internal/storage/allocator.go` and the free-list pages of
`freelist.go`.  A freed page is recorded in the page at the root of the list; when
there is no root, or the root is full, the freed page becomes the root itself.
-/

namespace CocoDB.DefaultPager

open Lib

def maxFreeListEntries : Nat :=
  (defaultPageSize - pageHeaderSize - 16) / 8

def setFreeListNext (next : PageID) (page : Page) : Page :=
  { page with data := page.data.write 32 (be 8 next.toNat), dirty := true }

def setFreeListCount (count : Nat) (page : Page) : Page :=
  { page with data := page.data.write 40 (be 4 count), dirty := true }

/-- Add an identifier to a free-list page.  The caller drops the error for a
full page, which is then left as it is. -/
def freeListPush (id : PageID) (page : Page) : Page :=
  let count := freeListCount page
  if maxFreeListEntries ≤ count then page
  else
    setFreeListCount (count + 1)
      { page with data := page.data.write (48 + count * 8) (be 8 id.toNat) }

def chainFreeList (id next : PageID) (pager : DefaultPager) : DefaultPager :=
  let list := setFreeListCount 0
    (setFreeListNext next (Page.newPage id .pageFreeList))
  let rooted :=
    { pager with info := { pager.info with freeListRoot := id } }
  let (ref, created) := rooted.newObject list
  (created.cachePut ref).markDirty ref

def free (id : PageID) (pager : DefaultPager) :
    Except Error Unit × DefaultPager :=
  if pager.info.freeListRoot = invalidPageID then
    (.ok (), pager.chainFreeList id invalidPageID)
  else
    match pager.get pager.info.freeListRoot with
    | (.error error, after) => (.error error, after)
    | (.ok listRef, after) =>
        let list := after.heap listRef
        if freeListCount list < maxFreeListEntries then
          (.ok (), (after.setObject listRef
            (freeListPush id list)).markDirty listRef)
        else (.ok (), after.chainFreeList id after.info.freeListRoot)

/-! ## Free-list pages -/

def freeListEntry (page : Page) (index : Nat) : PageID :=
  UInt64.ofNat (ofBE (page.data.read (48 + index * 8) 8))

def freeListEntries (page : Page) : List PageID :=
  (List.range (freeListCount page)).map (freeListEntry page)

theorem freeListCount_setCount (page : Page) {count : Nat}
    (small : count < 2 ^ 32) :
    freeListCount (setFreeListCount count page) = count := by
  have stored := Buf.read_write_same page.data 40 (be 4 count)
  rw [be_length] at stored
  rw [freeListCount, setFreeListCount, stored, ofBE_be]
  exact Nat.mod_eq_of_lt small

theorem freeListNext_setCount (page : Page) (count : Nat) :
    freeListNext (setFreeListCount count page) = freeListNext page := by
  rw [freeListNext, setFreeListCount, Buf.read_write_disjoint (.inl (by omega)),
    freeListNext]

theorem freeListEntry_setCount (page : Page) (count index : Nat) :
    freeListEntry (setFreeListCount count page) index =
      freeListEntry page index := by
  have length := be_length 4 count
  rw [freeListEntry, setFreeListCount,
    Buf.read_write_disjoint (.inr (by omega)), freeListEntry]

theorem freeListNext_setNext (page : Page) (next : PageID) :
    freeListNext (setFreeListNext next page) = next := by
  have stored := Buf.read_write_same page.data 32 (be 8 next.toNat)
  rw [be_length] at stored
  rw [freeListNext, setFreeListNext, stored, ofBE_be64]

theorem maxFreeListEntries_small : maxFreeListEntries + 1 < 2 ^ 32 := by
  decide

theorem freeListPop_spec {page : Page} (some_left : 0 < freeListCount page)
    (sized : freeListCount page ≤ maxFreeListEntries) :
    ∃ popped, freeListPop page =
        (freeListEntry page (freeListCount page - 1), popped) ∧
      freeListCount popped = freeListCount page - 1 ∧
      freeListNext popped = freeListNext page ∧
      freeListEntries page = freeListEntries popped ++
        [freeListEntry page (freeListCount page - 1)] ∧
      popped.header = page.header ∧ popped.dirty = true := by
  have limit := maxFreeListEntries_small
  have counted : freeListCount
      (setFreeListCount (freeListCount page - 1) page) =
        freeListCount page - 1 := freeListCount_setCount page (by omega)
  refine ⟨setFreeListCount (freeListCount page - 1) page, rfl, counted,
    freeListNext_setCount _ _, ?_, rfl, rfl⟩
  have split : freeListCount page = freeListCount page - 1 + 1 := by omega
  rw [freeListEntries, freeListEntries, counted]
  conv_lhs => rw [split]
  rw [List.range_succ, List.map_append, List.map_singleton]
  congr 1
  exact List.map_congr_left fun index _ =>
    (freeListEntry_setCount page _ index).symm

theorem freeListPush_spec {page : Page} (id : PageID)
    (room : freeListCount page < maxFreeListEntries) :
    freeListCount (freeListPush id page) = freeListCount page + 1 ∧
      freeListNext (freeListPush id page) = freeListNext page ∧
      freeListEntries (freeListPush id page) =
        freeListEntries page ++ [id] ∧
      (freeListPush id page).header = page.header := by
  have limit := maxFreeListEntries_small
  have shape : freeListPush id page =
      setFreeListCount (freeListCount page + 1)
        { page with
          data := page.data.write (48 + freeListCount page * 8)
            (be 8 id.toNat) } := by
    unfold freeListPush
    rw [if_neg (by omega)]
  have counted : freeListCount (freeListPush id page) =
      freeListCount page + 1 := by
    rw [shape]
    exact freeListCount_setCount _ (by omega)
  have length := be_length 8 id.toNat
  refine ⟨counted, ?_, ?_, by rw [shape]; rfl⟩
  · rw [shape, freeListNext_setCount, freeListNext,
      Buf.read_write_disjoint (.inl (by omega)), freeListNext]
  · rw [freeListEntries, counted, List.range_succ, List.map_append,
      List.map_singleton, shape]
    congr 1
    · refine List.map_congr_left fun index member => ?_
      have below := List.mem_range.mp member
      rw [freeListEntry_setCount, freeListEntry,
        Buf.read_write_disjoint (.inl (by omega)), freeListEntry]
    · have stored := Buf.read_write_same page.data
        (48 + freeListCount page * 8) (be 8 id.toNat)
      rw [length] at stored
      rw [freeListEntry_setCount, freeListEntry, stored, ofBE_be64]

theorem newFreeList_spec (id next : PageID) :
    let list := setFreeListCount 0
      (setFreeListNext next (Page.newPage id .pageFreeList))
    freeListCount list = 0 ∧ freeListNext list = next ∧
      freeListEntries list = [] ∧ list.header.id = id ∧
      list.dirty = true := by
  intro list
  have counted : freeListCount list = 0 :=
    freeListCount_setCount _ (by decide)
  refine ⟨counted, ?_, ?_, rfl, rfl⟩
  · rw [freeListNext_setCount, freeListNext_setNext]
  · rw [freeListEntries, counted]
    rfl

end CocoDB.DefaultPager
