import CocoDB.Wal.Log

/-!
# Reading the log back

Records that were appended one after another are read back in order.
-/

namespace CocoDB

open Lib

/-- A record as a reader of the log sees it. -/
structure WalRecord.Proper (record : WalRecord) : Prop where
  short : record.payload.length < 2 ^ 32
  received_eq : record.received = record

namespace WalRecord

theorem unpack_plain (type : RecordType) (lsn : LSN) (txnID : TxnID)
    (payload : Bytes) :
    unpack type lsn txnID payload =
      { type := type, lsn := lsn, txnID := txnID, payload := payload,
        pageID := (unpack type lsn txnID payload).pageID,
        pageType := (unpack type lsn txnID payload).pageType,
        pageData := (unpack type lsn txnID payload).pageData } := by
  cases type <;> simp only [unpack] <;> split <;> rfl

theorem received_received (record : WalRecord) :
    record.received.received = record.received := rfl

theorem proper_received {record : WalRecord}
    (short : record.payload.length < 2 ^ 32) : record.received.Proper :=
  ⟨short, received_received record⟩

theorem received_newPageUpdate (lsn : LSN) (txnID : TxnID) (pageID : PageID)
    (pageData : Bytes) :
    { newPageUpdate txnID pageID pageData with lsn := lsn }.received =
      { newPageUpdate txnID pageID pageData with lsn := lsn }.stamped := by
  have word := ofBE_be64 pageID
  have long : 8 ≤ 8 + pageData.length := Nat.le_add_right _ _
  simp only [received, newPageUpdate, unpack, stamped, List.length_append,
    be_length, List.take_left' (be_length 8 _),
    List.drop_left' (be_length 8 _), word, if_pos long]

theorem received_newTxnCommit (lsn : LSN) (txnID : TxnID) :
    { newTxnCommit txnID with lsn := lsn }.received =
      { newTxnCommit txnID with lsn := lsn }.stamped := rfl

@[simp]
theorem encode_received (record : WalRecord) :
    record.received.encode = record.encode := rfl

theorem encode_length (record : WalRecord) :
    record.encode.length = walRecordHeaderSize + record.payload.length := by
  simp [encode, walRecordHeaderSize]
  omega

theorem length_le_flatMap (records : List WalRecord) :
    records.length ≤ (records.flatMap encode).length := by
  induction records with
  | nil => exact Nat.le_refl _
  | cons record rest inductionHypothesis =>
      rw [List.flatMap_cons, List.length_append, List.length_cons,
        encode_length, walRecordHeaderSize]
      omega

theorem encode_fields (record : WalRecord) (rest : Bytes) :
    let bytes := record.encode ++ rest
    bytes.take 4 = be 4 walMagic ∧
    (bytes.drop 4).take 2 = be 2 walVersion ∧
    bytes[6]? = some record.type.toByte ∧
    (bytes.drop 7).take 4 = be 4 record.payload.length ∧
    (bytes.drop 11).take 8 = be 8 record.lsn.toNat ∧
    (bytes.drop 19).take 8 = be 8 record.txnID.toNat ∧
    (bytes.drop 27).take 4 = be 4 (checksum record.payload).toNat ∧
    bytes.drop walRecordHeaderSize = record.payload ++ rest := by
  refine ⟨?_, ?_, ?_, ?_, ?_, ?_, ?_, ?_⟩
  all_goals simp [encode, walRecordHeaderSize, List.drop_append, be_drop,
    List.getElem?_append]

theorem decode_encode {record : WalRecord}
    (small : record.payload.length < 2 ^ 32) (rest : Bytes) :
    decode (record.encode ++ rest) = some (record.received, rest) := by
  obtain ⟨magic, version, type, length, lsn, txnID, crc, body⟩ :=
    encode_fields record rest
  have size : ¬ (record.encode ++ rest).length < walRecordHeaderSize := by
    rw [List.length_append, encode_length]
    omega
  have short : record.payload.length % 256 ^ 4 = record.payload.length :=
    Nat.mod_eq_of_lt (Nat.lt_of_lt_of_le small (by decide))
  have magicWord : walMagic % 256 ^ 4 = walMagic := by decide
  have versionWord : walVersion % 256 ^ 2 = walVersion := by decide
  unfold decode
  rw [if_neg size, magic, version, type, length, lsn, txnID, crc, body,
    ofBE_be64, ofBE_be64, ofBE_be32, ofBE_be 4 walMagic, magicWord,
    ofBE_be 2 walVersion, versionWord, ofBE_be 4 record.payload.length, short,
    if_neg (not_not_intro rfl)]
  simp only [Option.getD_some, RecordType.ofByte_toByte, List.take_left,
    List.drop_left]
  rw [if_neg (by simp), if_neg (by simp), unpack_plain]
  rfl

theorem readRecords_encode {records : List WalRecord}
    (proper : ∀ record, record ∈ records → record.Proper) {fuel : Nat}
    (enough : records.length ≤ fuel) :
    readRecords fuel (records.flatMap encode) = records := by
  induction records generalizing fuel with
  | nil =>
      cases fuel with
      | zero => rfl
      | succ fuel => rfl
  | cons record rest inductionHypothesis =>
      obtain ⟨fuel, rfl⟩ : ∃ less, fuel = less + 1 :=
        ⟨fuel - 1, by rw [List.length_cons] at enough; omega⟩
      have head := proper record List.mem_cons_self
      have decoded := decode_encode head.short (rest.flatMap encode)
      rw [head.received_eq] at decoded
      have others := inductionHypothesis
        (fun other member => proper other (List.mem_cons_of_mem _ member))
        (Nat.le_of_succ_le_succ enough)
      rw [List.flatMap_cons, readRecords, decoded]
      simp only [others]

end WalRecord

structure WAL.Holds (wal : WAL) (records : List WalRecord) : Prop where
  proper : ∀ record, record ∈ records → record.Proper
  size_eq : wal.backend.contents.size = wal.offset
  bytes_eq : wal.backend.contents.data.read 0 wal.offset =
    records.flatMap WalRecord.encode

namespace WAL

variable {wal : WAL} {records : List WalRecord}

theorem holds_truncate (wal : WAL) : wal.truncate.Holds [] :=
  ⟨fun _ member => (nomatch member), rfl, Buf.read_zero_length _ _⟩

theorem holds_openWAL (lastLSN : LSN) :
    (openWAL (.ofContents .empty) lastLSN).Holds [] :=
  ⟨fun _ member => (nomatch member), rfl, Buf.read_zero_length _ _⟩

theorem Holds.append (holds : wal.Holds records) {record : WalRecord}
    (short : record.payload.length < 2 ^ 32) :
    (wal.append record).2.Holds
      (records ++ [{ record with lsn := wal.lastLSN + 1 }.received]) := by
  let data := ({ record with lsn := wal.lastLSN + 1 } : WalRecord).encode
  refine ⟨?_, ?_, ?_⟩
  · intro other member
    rcases List.mem_append.mp member with old | new
    · exact holds.proper other old
    · rw [List.mem_singleton.mp new]
      exact WalRecord.proper_received short
  · show max wal.backend.contents.size (wal.offset + data.length) =
      wal.offset + data.length
    have size := holds.size_eq
    omega
  · show (wal.backend.contents.data.write wal.offset data).read 0
      (wal.offset + data.length) = _
    have front : (wal.backend.contents.data.write wal.offset data).read 0
        wal.offset = records.flatMap WalRecord.encode := by
      rw [Buf.read_write_disjoint (.inl (by omega)), holds.bytes_eq]
    have back := Buf.read_write_same wal.backend.contents.data wal.offset data
    rw [← Buf.read_append, Nat.zero_add, front, back, List.flatMap_append,
      List.flatMap_singleton, WalRecord.encode_received]

theorem Holds.readAll_eq (holds : wal.Holds records) :
    wal.readAll = records := by
  have bytes := holds.bytes_eq
  unfold readAll
  simp only
  rw [holds.size_eq, bytes]
  refine WalRecord.readRecords_encode holds.proper ?_
  have length := congrArg List.length bytes
  rw [Buf.read_length] at length
  rw [length]
  exact WalRecord.length_le_flatMap records

end WAL

end CocoDB
