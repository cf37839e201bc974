import CocoDB.Lib.Disk
import CocoDB.Storage.Page

/-!
# The file backend

`internal/file/backend.go` over a file that does not fail: reads and writes with
a signed 64-bit offset.  Next to its contents a backend remembers what was last
synced and the writes made since it was opened, from which the states a crash
can leave behind are built.
-/

namespace CocoDB

open Lib

structure Backend where
  contents : Contents
  synced : Contents
  trace : List Write

namespace Backend

def ofContents (contents : Contents) : Backend :=
  { contents := contents, synced := contents, trace := [] }

/-- `ReadAt`: all bytes asked for, or an end-of-file error. -/
def readAt (backend : Backend) (offset : Option Nat) (length : Nat) :
    Option Bytes :=
  match offset with
  | none => none
  | some start =>
      if start + length ≤ backend.contents.size then
        some (backend.contents.data.read start length)
      else none

/-- `WriteAt`: fails at a negative offset only. -/
def writeAt (backend : Backend) (bytes : Bytes) (offset : Option Nat) :
    Option Backend :=
  match offset with
  | none => none
  | some start =>
      let written : Write := ⟨start, bytes⟩
      some
        { backend with
          contents := backend.contents.write written
          trace := backend.trace ++ [written] }

def sync (backend : Backend) : Backend :=
  { backend with synced := backend.contents }

/-- `Truncate(0)` -/
def truncate (backend : Backend) : Backend :=
  { backend with contents := Contents.empty }

end Backend

/-- `int64(id) * int64(pageSize)`, or nothing when the product is negative. -/
def pageOffset (id : PageID) : Option Nat :=
  let product := id.toNat * defaultPageSize % 2 ^ 64
  if product < 2 ^ 63 then some product else none

/-- The place of a page in the file, in pages: the high bits of its identifier
are lost in the product. -/
def place (id : PageID) : Nat := id.toNat % 2 ^ 50

theorem place_eq {id : PageID} (small : id.toNat < 2 ^ 49) :
    place id = id.toNat :=
  Nat.mod_eq_of_lt (by omega)

theorem pageOffset_product (id : PageID) :
    id.toNat * defaultPageSize % 2 ^ 64 = place id * defaultPageSize :=
  Nat.mul_mod_mul_right defaultPageSize id.toNat (2 ^ 50)

theorem eq_place_of_pageOffset {id : PageID} {offset : Nat}
    (found : pageOffset id = some offset) :
    offset = place id * defaultPageSize := by
  simp only [pageOffset, pageOffset_product] at found
  split at found
  · exact (Option.some.inj found).symm
  · cases found

theorem pageOffset_place {id : PageID} (small : place id < 2 ^ 49) :
    pageOffset id = some (place id * defaultPageSize) := by
  unfold pageOffset
  simp only [pageOffset_product]
  rw [if_pos]
  unfold defaultPageSize
  omega

theorem pageOffset_eq {id : PageID} (small : id.toNat < 2 ^ 49) :
    pageOffset id = some (id.toNat * defaultPageSize) := by
  rw [pageOffset_place (by rwa [place_eq small]), place_eq small]

namespace Backend

variable {backend : Backend} {bytes : Bytes} {id : PageID}

theorem readAt_page {length : Nat}
    (read : backend.readAt (pageOffset id) length = some bytes) :
    bytes = backend.contents.data.read (place id * defaultPageSize)
      length := by
  unfold readAt at read
  split at read
  · cases read
  · rename_i start found
    split at read
    · rw [← eq_place_of_pageOffset found]
      exact (Option.some.inj read).symm
    · cases read

theorem writeAt_page {after : Backend}
    (written : backend.writeAt bytes (pageOffset id) = some after) :
    after =
      { backend with
        contents := backend.contents.write
          ⟨place id * defaultPageSize, bytes⟩
        trace := backend.trace ++
          [⟨place id * defaultPageSize, bytes⟩] } := by
  unfold writeAt at written
  split at written
  · cases written
  · rename_i start found
    rw [← eq_place_of_pageOffset found]
    exact (Option.some.inj written).symm

/-! ## Reading what was written -/

variable {start length : Nat}

theorem readAt_write_outside {written : Write} {synced : Contents}
    {trace : List Write}
    (apart : start + length ≤ written.offset ∨
      written.offset + written.bytes.length ≤ start)
    (read : backend.readAt (some start) length = some bytes) :
    readAt ⟨backend.contents.write written, synced, trace⟩ (some start)
      length = some bytes := by
  unfold readAt at read ⊢
  simp only at read ⊢
  split at read
  · rename_i inside
    rw [if_pos (by rw [Contents.write_size]; omega), Contents.write_data,
      Buf.read_write_disjoint apart]
    exact read
  · cases read

theorem readAt_write_same (contents synced : Contents) (trace : List Write)
    (start : Nat) (bytes : Bytes) :
    readAt ⟨contents.write ⟨start, bytes⟩, synced, trace⟩ (some start)
      bytes.length = some bytes := by
  have size : start + bytes.length ≤
      (contents.write ⟨start, bytes⟩).size := by
    rw [Contents.write_size]
    exact Nat.le_max_right _ _
  unfold readAt
  simp only
  rw [if_pos size, Contents.write_data, Buf.read_write_same]

theorem readAt_written_same {offset : Option Nat} {after : Backend}
    (sized : bytes.length = length)
    (written : backend.writeAt bytes offset = some after) :
    after.readAt offset length = some bytes := by
  cases offset with
  | none => cases written
  | some start =>
      rw [← Option.some.inj written, ← sized]
      exact readAt_write_same _ _ _ _ _

end Backend

end CocoDB
