import CocoDB.Storage.Page

/-!
# Overflow pages

`internal/storage/overflow.go`: a page that holds a chunk of a large payload and
the identifier of the page with the next one.
-/

namespace CocoDB

open Lib

namespace Overflow

def headerOffset : Nat := pageHeaderSize

def dataOffset : Nat := headerOffset + 12

def maxPayload : Nat := defaultPageSize - dataOffset

def nextPage (page : Page) : PageID :=
  UInt64.ofNat (ofBE (page.data.read headerOffset 8))

def setNextPage (next : PageID) (page : Page) : Page :=
  { page with
    data := page.data.write headerOffset (be 8 next.toNat), dirty := true }

def chunkLength (page : Page) : Nat := ofBE (page.data.read (headerOffset + 8) 4)

def setChunkLength (length : Nat) (page : Page) : Page :=
  { page with
    data := page.data.write (headerOffset + 8) (be 4 length), dirty := true }

def payload (page : Page) : Bytes :=
  page.data.read dataOffset (min (chunkLength page) maxPayload)

def writeChunk (data : Bytes) (page : Page) : Nat × Page :=
  let count := min data.length maxPayload
  (count, setChunkLength count
    { page with data := page.data.write dataOffset (data.take count) })

theorem nextPage_setNextPage (next : PageID) (page : Page) :
    nextPage (setNextPage next page) = next := by
  have stored := Buf.read_write_same page.data headerOffset (be 8 next.toNat)
  rw [be_length] at stored
  simp only [nextPage, setNextPage, stored, ofBE_be64]

theorem payload_setNextPage (next : PageID) (page : Page) :
    payload (setNextPage next page) = payload page := by
  have apart : headerOffset + (be 8 next.toNat).length ≤ headerOffset + 8 := by
    rw [be_length]
  have length : chunkLength (setNextPage next page) = chunkLength page := by
    simp only [chunkLength, setNextPage]
    rw [Buf.read_write_disjoint (.inr apart)]
  have body : headerOffset + (be 8 next.toNat).length ≤ dataOffset := by
    rw [be_length]
    decide
  simp only [payload, length]
  simp only [setNextPage]
  rw [Buf.read_write_disjoint (.inr body)]

theorem writeChunk_spec (data : Bytes) (page : Page) :
    payload (writeChunk data page).2 = data.take maxPayload ∧
      nextPage (writeChunk data page).2 = nextPage page ∧
      (writeChunk data page).1 = min data.length maxPayload := by
  have small : min data.length maxPayload < 256 ^ 4 :=
    Nat.lt_of_le_of_lt (Nat.min_le_right _ _) (by decide)
  have size : (data.take (min data.length maxPayload)).length =
      min data.length maxPayload := by
    rw [List.length_take, Nat.min_eq_left (Nat.min_le_left _ _)]
  have prefixEq : data.take (min data.length maxPayload) =
      data.take maxPayload := by
    rw [Nat.min_comm, ← List.take_take, List.take_length]
  have count : chunkLength (writeChunk data page).2 =
      min data.length maxPayload := by
    have stored := Buf.read_write_same
      (page.data.write dataOffset (data.take (min data.length maxPayload)))
      (headerOffset + 8) (be 4 (min data.length maxPayload))
    rw [be_length] at stored
    simp only [chunkLength, writeChunk, setChunkLength, stored, ofBE_be]
    exact Nat.mod_eq_of_lt small
  refine ⟨?_, ?_, rfl⟩
  · have apart : headerOffset + 8 +
        (be 4 (min data.length maxPayload)).length ≤ dataOffset := by
      rw [be_length]
      decide
    have whole := Buf.read_write_same page.data dataOffset
      (data.take (min data.length maxPayload))
    rw [size] at whole
    rw [payload, count, Nat.min_eq_left (Nat.min_le_right _ _), ← prefixEq]
    simp only [writeChunk, setChunkLength]
    rw [Buf.read_write_disjoint (.inr apart), whole]
  · have first : headerOffset + 8 ≤ headerOffset + 8 := Nat.le_refl _
    have second : headerOffset + 8 ≤ dataOffset := by decide
    simp only [nextPage, writeChunk, setChunkLength]
    rw [Buf.read_write_disjoint (.inl first),
      Buf.read_write_disjoint (.inl second)]

end Overflow

end CocoDB
