import CocoDB.Wal.RedoPages
import CocoDB.Wal.TornLog

/-!
# Appending after a recovery

The next session appends behind whatever is in the log file.  Recovery empties
the file when it read any record and leaves it alone otherwise, so a file that
is not empty and starts with an unreadable record stays in front of everything
that is logged afterwards.
-/

namespace CocoDB

open Lib

namespace WAL

def appendAll : List WalRecord → WAL → WAL
  | [], wal => wal
  | record :: rest, wal => appendAll rest (wal.append record).2

/-- The records as they are logged behind sequence number `lsn`. -/
def numbered : LSN → List WalRecord → List WalRecord
  | _, [] => []
  | lsn, record :: rest =>
      { record with lsn := lsn + 1 }.received :: numbered (lsn + 1) rest

theorem Holds.appendAll {wal : WAL} {records added : List WalRecord}
    (holds : wal.Holds records)
    (small : ∀ record, record ∈ added → record.payload.length < 2 ^ 32) :
    (WAL.appendAll added wal).Holds (records ++ numbered wal.lastLSN added) := by
  induction added generalizing wal records with
  | nil =>
      rw [numbered, List.append_nil]
      exact holds
  | cons record rest inductionHypothesis =>
      have next := holds.append (small record List.mem_cons_self)
      have later := inductionHypothesis next fun other member =>
        small other (List.mem_cons_of_mem _ member)
      rw [List.append_assoc] at later
      exact later

/-- The log as the next session finds it when the process dies after a sync. -/
def reopened (wal : WAL) (lastLSN : LSN) : WAL :=
  openWAL (.ofContents wal.sync.backend.synced) lastLSN

/-- Every record that is appended from now on is read by the next session. -/
def KeepsAppends (wal : WAL) : Prop :=
  ∀ (added : List WalRecord) (lastLSN : LSN),
    (∀ record, record ∈ added → record.payload.length < 2 ^ 32) →
    ∀ record, record ∈ numbered wal.lastLSN added →
      record ∈ ((appendAll added wal).reopened lastLSN).readAll

theorem Holds.keepsAppends {wal : WAL} (holds : wal.Holds []) :
    wal.KeepsAppends := by
  intro added lastLSN small record member
  have kept := holds.appendAll small
  have read : ((WAL.appendAll added wal).reopened lastLSN).readAll =
      [] ++ numbered wal.lastLSN added := kept.readAll_eq
  rw [read]
  exact member

theorem append_bytes (backend : Backend) (lastLSN : LSN) (record : WalRecord) :
    ((openWAL backend lastLSN).append record).2.backend.contents.bytes =
      backend.contents.bytes ++
        { record with lsn := lastLSN + 1 }.encode := by
  let data := ({ record with lsn := lastLSN + 1 } : WalRecord).encode
  have size : max backend.contents.size
      (backend.contents.size + data.length) =
        backend.contents.size + data.length := by omega
  have front : (backend.contents.data.write backend.contents.size data).read 0
      backend.contents.size = backend.contents.bytes :=
    Buf.read_write_disjoint (.inl (by omega))
  have back := Buf.read_write_same backend.contents.data
    backend.contents.size data
  change (backend.contents.data.write backend.contents.size data).read 0
    (max backend.contents.size (backend.contents.size + data.length)) = _
  rw [size, ← Buf.read_append, Nat.zero_add, front, back]

end WAL

namespace WalRecord

/-- A record behind unreadable bytes is only found by mistake: as the record at
the very front. -/
theorem first_of_mem {garbage tail : Bytes} (torn : ¬ Readable garbage)
    (length : tail.length = walRecordHeaderSize) {fuel : Nat}
    {record : WalRecord}
    (member : record ∈ readRecords fuel (garbage ++ tail)) :
    record.txnID = UInt64.ofNat
      (ofBE (((garbage ++ tail).drop 19).take 8)) := by
  cases fuel with
  | zero => cases member
  | succ fuel =>
      cases decoded : decode (garbage ++ tail) with
      | none =>
          rw [readRecords_of_none decoded] at member
          cases member
      | some pair =>
          obtain ⟨first, rest⟩ := pair
          obtain ⟨readable, txnID, sizes⟩ := readable_of_decode decoded
          rw [readRecords_of_some decoded] at member
          rcases List.mem_cons.mp member with rfl | later
          · exact txnID
          · exfalso
            -- a second record needs a header of its own, so the first one
            -- ends inside the garbage
            have room : walRecordHeaderSize ≤ rest.length := by
              by_contra short
              have none : decode rest = none := by
                rw [decode, if_pos (by omega)]
              rw [readRecords_of_none none] at later
              cases later
            rw [List.length_append, length] at sizes
            exact torn (readable.front (by omega))

theorem encode_commit_take (lsn : LSN) :
    ({ newTxnCommit 0 with lsn := lsn } : WalRecord).encode.take 26 =
      ({ newTxnCommit 1 with lsn := lsn } : WalRecord).encode.take 26 := by
  have zero : (be 8 0).take 7 = (be 8 1).take 7 := by decide
  simp [encode, newTxnCommit, marker, List.take_append, zero]

/-- Behind at least one byte the first transaction number of the file lies
within those. -/
theorem field_eq {garbage left right : Bytes} (nonempty : garbage ≠ [])
    (front : left.take 26 = right.take 26) :
    ((garbage ++ left).drop 19).take 8 =
      ((garbage ++ right).drop 19).take 8 := by
  have positive : 0 < garbage.length := List.length_pos_iff.mpr nonempty
  have fewer : 27 - garbage.length = min (27 - garbage.length) 26 := by omega
  have width : 8 = 27 - 19 := rfl
  rw [width, ← List.drop_take, ← List.drop_take, List.take_append,
    List.take_append, fewer, ← List.take_take, front, List.take_take]

end WalRecord

namespace WAL

theorem not_keepsAppends {backend : Backend} (lastLSN : LSN)
    (nonempty : backend.contents.size ≠ 0)
    (torn : ¬ WalRecord.Readable backend.contents.bytes) :
    ¬ (openWAL backend lastLSN).KeepsAppends := by
  intro keeps
  have some_bytes : backend.contents.bytes ≠ [] := by
    intro none
    rw [← Contents.bytes_length, none] at nonempty
    exact nonempty rfl
  have found : ∀ txnID : TxnID, txnID = UInt64.ofNat (ofBE
      (((backend.contents.bytes ++ { WalRecord.newTxnCommit txnID with
        lsn := lastLSN + 1 }.encode).drop 19).take 8)) := by
    intro txnID
    have member := keeps [WalRecord.newTxnCommit txnID] 0
      (fun record member => by
        rw [List.mem_singleton.mp member]
        exact Nat.two_pow_pos 32)
      _ List.mem_cons_self
    have bytes := append_bytes backend lastLSN (WalRecord.newTxnCommit txnID)
    change _ ∈ readRecords _ ((openWAL backend lastLSN).append
      (WalRecord.newTxnCommit txnID)).2.backend.contents.bytes at member
    rw [bytes] at member
    exact WalRecord.first_of_mem torn rfl member
  have zero := found 0
  rw [WalRecord.field_eq some_bytes (WalRecord.encode_commit_take _),
    ← found 1] at zero
  exact absurd zero (by decide)

end WAL

namespace Recovery

open WAL

theorem readAll_ne_nil_iff (wal : WAL) :
    wal.readAll ≠ [] ↔ WalRecord.Readable wal.backend.contents.bytes := by
  rw [readAll_bytes]
  constructor
  · intro nonempty
    cases decoded : WalRecord.decode wal.backend.contents.bytes with
    | none =>
        exact absurd (WalRecord.readRecords_of_none decoded _) nonempty
    | some pair => exact (WalRecord.readable_of_decode decoded).1
  · intro readable
    obtain ⟨record, decoded⟩ := readable.decode_eq
    have header := readable.header
    rw [Contents.bytes_length, walRecordHeaderSize] at header
    obtain ⟨fuel, size⟩ : ∃ less, wal.backend.contents.size = less + 1 :=
      ⟨wal.backend.contents.size - 1, by omega⟩
    rw [size, WalRecord.readRecords_of_some decoded]
    exact List.cons_ne_nil _ _

theorem recover_truncates {order : List PageID → List PageID} {wal after : WAL}
    {pager final : DefaultPager} {result : RecoveryResult}
    (nonempty : wal.readAll ≠ [])
    (recovered : recover order wal pager = (.ok result, after, final)) :
    after = wal.truncate := by
  have some_records : ¬ wal.readAll.length = 0 := by
    rwa [List.length_eq_zero_iff]
  simp only [recover, if_neg some_records] at recovered
  split at recovered
  · cases congrArg Prod.fst recovered
  · exact (congrArg (fun triple => triple.2.1) recovered).symm

def tornFile : Backend := .ofContents (.ofBytes [0x43])

theorem tornFile_torn : ¬ WalRecord.Readable tornFile.contents.bytes := by
  intro readable
  have header := readable.header
  rw [Contents.bytes_length] at header
  exact absurd header (by decide)

end Recovery

end CocoDB
