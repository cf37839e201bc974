import CocoDB.Wal.LogSpec

/-!
# Reading a log that was cut short

A record is read back exactly when its bytes are all there.  Whatever length the
log file was cut to, the reader returns the records that lie completely in
front of the cut.
-/

namespace CocoDB

open Lib

namespace WalRecord

def announced (bytes : Bytes) : Nat := ofBE ((bytes.drop 7).take 4)

/-- The bytes start with a whole record that passes its checks. -/
structure Readable (bytes : Bytes) : Prop where
  header : walRecordHeaderSize ≤ bytes.length
  magic : ofBE (bytes.take 4) = walMagic
  whole : walRecordHeaderSize + announced bytes ≤ bytes.length
  crc : UInt32.ofNat (ofBE ((bytes.drop 27).take 4)) =
    checksum ((bytes.drop walRecordHeaderSize).take (announced bytes))

theorem readable_of_decode {bytes rest : Bytes} {record : WalRecord}
    (decoded : decode bytes = some (record, rest)) :
    Readable bytes ∧
    record.txnID = UInt64.ofNat (ofBE ((bytes.drop 19).take 8)) ∧
    rest.length + walRecordHeaderSize + announced bytes = bytes.length := by
  unfold decode at decoded
  split at decoded
  · cases decoded
  · rename_i header
    split at decoded
    · cases decoded
    · rename_i magic
      simp only [List.length_drop] at decoded
      split at decoded
      · cases decoded
      · rename_i whole
        split at decoded
        · cases decoded
        · rename_i crc
          change ¬ bytes.length - walRecordHeaderSize < announced bytes at whole
          have pair := Option.some.inj decoded
          rw [unpack_plain] at pair
          obtain ⟨rfl, rfl⟩ := Prod.mk.inj pair
          refine ⟨⟨by omega, not_not.mp magic, by omega, not_not.mp crc⟩,
            rfl, ?_⟩
          rw [List.length_drop, List.length_drop]
          change bytes.length - walRecordHeaderSize - announced bytes +
            walRecordHeaderSize + announced bytes = bytes.length
          omega

theorem Readable.decode_eq {bytes : Bytes} (readable : Readable bytes) :
    ∃ record, decode bytes = some
      (record, bytes.drop (walRecordHeaderSize + announced bytes)) := by
  have whole : ¬ (bytes.drop walRecordHeaderSize).length <
      announced bytes := by
    have bound := readable.whole
    rw [List.length_drop]
    omega
  have crc := readable.crc
  unfold announced at whole crc ⊢
  unfold decode
  rw [if_neg (Nat.not_lt.mpr readable.header),
    if_neg (not_not_intro readable.magic)]
  simp only
  rw [if_neg whole, if_neg (not_not_intro crc), List.drop_drop]
  exact ⟨_, rfl⟩

theorem Readable.front {bytes tail : Bytes}
    (readable : Readable (bytes ++ tail))
    (inside : walRecordHeaderSize + announced (bytes ++ tail) ≤
      bytes.length) : Readable bytes := by
  have header : walRecordHeaderSize ≤ bytes.length := by omega
  unfold walRecordHeaderSize at header
  have field : ∀ {skipped width : Nat}, skipped + width ≤ 31 →
      ((bytes ++ tail).drop skipped).take width =
        (bytes.drop skipped).take width := by
    intro skipped width bound
    rw [List.drop_append_of_le_length (by omega),
      List.take_append_of_le_length (by rw [List.length_drop]; omega)]
  have same : announced (bytes ++ tail) = announced bytes := by
    rw [announced, field (by omega), announced]
  rw [same] at inside
  refine ⟨header, ?_, inside, ?_⟩
  · rw [← readable.magic]
    exact congrArg ofBE (@field 0 4 (by omega)).symm
  · have crc := readable.crc
    rw [field (by omega), same, walRecordHeaderSize,
      List.drop_append_of_le_length (by omega),
      List.take_append_of_le_length] at crc
    · exact crc
    · unfold walRecordHeaderSize at inside
      rw [List.length_drop]
      omega

theorem decode_take {record : WalRecord}
    (small : record.payload.length < 2 ^ 32) {length : Nat}
    (cut : length < record.encode.length) :
    decode (record.encode.take length) = none := by
  cases decoded : decode (record.encode.take length) with
  | none => rfl
  | some pair =>
      exfalso
      obtain ⟨readable, _, _⟩ := readable_of_decode decoded
      have header := readable.header
      have whole := readable.whole
      rw [List.length_take, Nat.min_eq_left (by omega)] at header whole
      -- the cut is behind the header, so the length field is the one written
      have field : announced (record.encode.take length) =
          record.payload.length := by
        have fields := encode_fields record []
        simp only [List.append_nil] at fields
        unfold walRecordHeaderSize at header
        rw [announced, List.drop_take, List.take_take,
          Nat.min_eq_left (by omega), fields.2.2.2.1, ofBE_be]
        exact Nat.mod_eq_of_lt (Nat.lt_of_lt_of_le small (by decide))
      rw [field] at whole
      rw [encode_length] at cut
      omega

def ends : Nat → List WalRecord → List (WalRecord × Nat)
  | _, [] => []
  | start, record :: rest =>
      (record, start + record.encode.length) ::
        ends (start + record.encode.length) rest

/-- The records whose encoding lies completely in the first `length` bytes. -/
def complete (length : Nat) (records : List WalRecord) : List WalRecord :=
  ((ends 0 records).filter fun entry => entry.2 ≤ length).map Prod.fst

theorem start_lt_ends {start : Nat} {records : List WalRecord}
    {entry : WalRecord × Nat} (member : entry ∈ ends start records) :
    start < entry.2 := by
  induction records generalizing start with
  | nil => cases member
  | cons record rest inductionHypothesis =>
      have positive : 0 < record.encode.length := by
        rw [encode_length, walRecordHeaderSize]
        omega
      rcases List.mem_cons.mp member with rfl | later
      · exact Nat.lt_add_of_pos_right positive
      · exact Nat.lt_trans (Nat.lt_add_of_pos_right positive)
          (inductionHypothesis later)

theorem ends_filter_eq_nil {start length : Nat} (records : List WalRecord)
    (past : length ≤ start) :
    ((ends start records).filter fun entry => entry.2 ≤ length) = [] := by
  rw [List.filter_eq_nil_iff]
  intro entry member
  have later := start_lt_ends member
  rw [decide_eq_true_eq]
  omega

theorem readRecords_of_none {bytes : Bytes} (none : decode bytes = none)
    (fuel : Nat) : readRecords fuel bytes = [] := by
  cases fuel with
  | zero => rfl
  | succ fuel => simp only [readRecords, none]

theorem readRecords_of_some {bytes rest : Bytes} {record : WalRecord}
    (decoded : decode bytes = some (record, rest)) (fuel : Nat) :
    readRecords (fuel + 1) bytes = record :: readRecords fuel rest := by
  simp only [readRecords, decoded]

theorem readRecords_take {records : List WalRecord}
    (small : ∀ record, record ∈ records → record.payload.length < 2 ^ 32)
    (start : Nat) {length fuel : Nat} (enough : length ≤ fuel) :
    readRecords fuel ((records.flatMap encode).take length) =
      (((ends start records).filter fun entry =>
        entry.2 ≤ start + length).map Prod.fst).map received := by
  induction records generalizing start length fuel with
  | nil =>
      rw [List.flatMap_nil, List.take_nil]
      exact readRecords_of_none rfl fuel
  | cons record rest inductionHypothesis =>
      have short := small record List.mem_cons_self
      have others : ∀ other, other ∈ rest →
          other.payload.length < 2 ^ 32 := fun other member =>
        small other (List.mem_cons_of_mem _ member)
      rw [List.flatMap_cons, ends]
      by_cases whole : record.encode.length ≤ length
      · obtain ⟨fuel, rfl⟩ : ∃ less, fuel = less + 1 := by
          rw [encode_length, walRecordHeaderSize] at whole
          exact ⟨fuel - 1, by omega⟩
        have shorter : length - record.encode.length ≤ fuel := by
          rw [encode_length, walRecordHeaderSize] at whole ⊢
          omega
        have read := inductionHypothesis others
          (start + record.encode.length) shorter
        rw [Nat.add_assoc, Nat.add_sub_cancel' whole] at read
        rw [List.take_append, List.take_of_length_le whole,
          readRecords_of_some (decode_encode short _), read,
          List.filter_cons_of_pos (by simpa using whole), List.map_cons,
          List.map_cons]
      · rw [List.take_append_of_le_length (by omega),
          readRecords_of_none (decode_take short (by omega)),
          List.filter_cons_of_neg (by simpa using whole),
          ends_filter_eq_nil _ (by omega)]
        rfl

def Pageless (record : WalRecord) : Prop :=
  record.pageID = 0 ∧ record.pageType = .pageMeta ∧ record.pageData = []

/-- The page fields of the record are those its payload spells out; a payload
that is too short, or of a kind without page fields, spells out none. -/
def Spelled (record : WalRecord) : Prop :=
  match record.type with
  | .pageUpdate =>
      (record.payload = be 8 record.pageID.toNat ++ record.pageData ∧
        record.pageType = .pageMeta) ∨
      (record.payload.length < 8 ∧ record.Pageless)
  | .pageAlloc =>
      (∃ code rest,
        record.payload = be 8 record.pageID.toNat ++ code :: rest ∧
        record.pageType = PageType.ofByte code ∧ record.pageData = []) ∨
      (record.payload.length < 9 ∧ record.Pageless)
  | .pageFree =>
      (∃ rest, record.payload = be 8 record.pageID.toNat ++ rest ∧
        record.pageType = .pageMeta ∧ record.pageData = []) ∨
      (record.payload.length < 8 ∧ record.Pageless)
  | _ => record.Pageless

theorem Spelled.received_eq {record : WalRecord} (spelled : record.Spelled) :
    record.received = record.stamped := by
  obtain ⟨type, lsn, txnID, payload, magic, version, length, crc, pageID,
    pageType, pageData⟩ := record
  have front : ∀ rest : Bytes, (be 8 pageID.toNat ++ rest).take 8 =
      be 8 pageID.toNat := fun rest => List.take_left' (be_length 8 _)
  have back : ∀ rest : Bytes, (be 8 pageID.toNat ++ rest).drop 8 = rest :=
    fun rest => List.drop_left' (be_length 8 _)
  cases type with
  | pageUpdate =>
      rcases spelled with ⟨payloadEq, typeEq⟩ | ⟨short, idEq, typeEq, dataEq⟩
      · simp only at payloadEq typeEq
        subst payloadEq typeEq
        simp [received, unpack, stamped, front, back]
      · simp only at short idEq typeEq dataEq
        subst idEq typeEq dataEq
        simp [received, unpack, stamped, Nat.not_le.mpr short]
  | pageAlloc =>
      rcases spelled with ⟨code, rest, payloadEq, typeEq, dataEq⟩ |
        ⟨short, idEq, typeEq, dataEq⟩
      · simp only at payloadEq typeEq dataEq
        subst payloadEq typeEq dataEq
        have long : 9 ≤ 8 + (rest.length + 1) := by omega
        simp [received, unpack, stamped, front, long]
      · simp only at short idEq typeEq dataEq
        subst idEq typeEq dataEq
        simp [received, unpack, stamped, Nat.not_le.mpr short]
  | pageFree =>
      rcases spelled with ⟨rest, payloadEq, typeEq, dataEq⟩ |
        ⟨short, idEq, typeEq, dataEq⟩
      · simp only at payloadEq typeEq dataEq
        subst payloadEq typeEq dataEq
        simp [received, unpack, stamped, front]
      · simp only at short idEq typeEq dataEq
        subst idEq typeEq dataEq
        simp [received, unpack, stamped, Nat.not_le.mpr short]
  | _ =>
      obtain ⟨idEq, typeEq, dataEq⟩ := spelled
      simp only at idEq typeEq dataEq
      subst idEq typeEq dataEq
      rfl

end WalRecord

namespace WAL

theorem readAll_bytes (wal : WAL) :
    wal.readAll = readRecords wal.backend.contents.size
      wal.backend.contents.bytes := rfl

/-- A log file that was cut anywhere gives back exactly the records in front of
the cut, in order.  Header and payload are those that were written, and so are
the page fields of every record whose payload spells them out. -/
theorem readAll_torn {wal : WAL} {records : List WalRecord} {length : Nat}
    (small : ∀ record, record ∈ records → record.payload.length < 2 ^ 32)
    (cut : length ≤ (records.flatMap WalRecord.encode).length)
    (bytes : wal.backend.contents.bytes =
      (records.flatMap WalRecord.encode).take length) :
    wal.readAll =
      (WalRecord.complete length records).map WalRecord.received ∧
    ∀ record, record ∈ records → record.Spelled →
      record.received = record.stamped := by
  have size : wal.backend.contents.size = length := by
    rw [← Contents.bytes_length, bytes, List.length_take, Nat.min_eq_left cut]
  refine ⟨?_, fun record _ spelled => spelled.received_eq⟩
  have read := WalRecord.readRecords_take small 0 (Nat.le_refl length)
  rw [Nat.zero_add] at read
  rw [readAll_bytes, bytes, size, read, WalRecord.complete]

def tornRecords : List WalRecord :=
  [WalRecord.newTxnCommit 1, WalRecord.newPageUpdate 2 7 [5]]

def tornWAL : WAL :=
  openWAL (.ofContents (.ofBytes
    ((tornRecords.flatMap WalRecord.encode).take 65))) 0

theorem readAll_torn_sample :
    tornWAL.readAll = [(WalRecord.newTxnCommit 1).stamped] ∧
    ∀ record, record ∈ tornRecords → record.Spelled →
      record.received = record.stamped := by
  have small : ∀ record, record ∈ tornRecords →
      record.payload.length < 2 ^ 32 := by decide
  have cut : 65 ≤ (tornRecords.flatMap WalRecord.encode).length := by decide
  exact readAll_torn small cut (Contents.bytes_ofBytes _)

end WAL

end CocoDB
