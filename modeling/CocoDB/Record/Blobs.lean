import CocoDB.Record.RoundTrip

/-!
# Blobs

`internal/record/blob.go`: a writer gathers its chunks into one record, and a
reader hands the record out in the chunks that are asked for.
-/

namespace CocoDB.Record

open Lib

structure BlobWriter where
  store : Store
  tx : Transaction
  buf : Bytes

namespace BlobWriter

def new (store : Store) (tx : Transaction) : BlobWriter := ⟨store, tx, []⟩

def write (writer : BlobWriter) (chunk : Bytes) : BlobWriter :=
  { writer with buf := writer.buf ++ chunk }

def close (writer : BlobWriter) :
    Except Error RecordID × Transaction × Store :=
  writer.store.writeRecord writer.tx (some writer.buf) invalidRecordID

theorem foldl_write (chunks : List Bytes) (writer : BlobWriter) :
    chunks.foldl write writer =
      { writer with buf := writer.buf ++ chunks.flatten } := by
  induction chunks generalizing writer with
  | nil => simp
  | cons chunk rest inductionHypothesis =>
      rw [List.foldl_cons, inductionHypothesis]
      simp [write]

end BlobWriter

structure BlobReader where
  data : Bytes
  offset : Nat

def Store.openBlobReader (tx : Option Transaction) (recID : RecordID)
    (store : Store) : Except Error BlobReader × Store :=
  let (found, next) := store.readRecord tx recID
  (found.map fun (_, data) => ⟨data, 0⟩, next)

namespace BlobReader

/-- `Read` into a buffer of the given length; nothing stands for `io.EOF`. -/
def read (size : Nat) (reader : BlobReader) : Option Bytes × BlobReader :=
  if reader.data.length ≤ reader.offset then (none, reader)
  else
    let chunk := (reader.data.drop reader.offset).take size
    (some chunk, { reader with offset := reader.offset + chunk.length })

/-- Read into buffers of the given lengths, up to the end of the blob. -/
def readAll : List Nat → BlobReader → List Bytes
  | [], _ => []
  | size :: sizes, reader =>
      match reader.read size with
      | (none, _) => []
      | (some chunk, next) => chunk :: readAll sizes next

theorem readAll_flatten (sizes : List Nat) (reader : BlobReader) :
    (reader.readAll sizes).flatten =
      (reader.data.drop reader.offset).take sizes.sum := by
  induction sizes generalizing reader with
  | nil => simp [readAll]
  | cons size sizes inductionHypothesis =>
      unfold readAll read
      by_cases ended : reader.data.length ≤ reader.offset
      · rw [if_pos ended, List.drop_eq_nil_of_le ended]
        simp
      · rw [if_neg ended]
        simp only [List.flatten_cons, inductionHypothesis, List.sum_cons]
        rw [← List.drop_drop, List.take_add]
        by_cases short : (reader.data.drop reader.offset).length ≤ size
        · rw [List.take_of_length_le short, List.drop_length,
            List.drop_eq_nil_of_le short]
        · rw [List.length_take_of_le (Nat.le_of_not_le short)]

end BlobReader

end CocoDB.Record
