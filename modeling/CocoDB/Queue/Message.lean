import CocoDB.Lib.Buffer
import Mathlib.Algebra.Order.Ring.Int

/-!
# Queue messages

`internal/queue/message.go`: the messages of a queue and the bytes under which
they are stored.
-/

namespace CocoDB.Queue

open Lib

structure MessageState where
  code : UInt8
deriving DecidableEq, Repr

namespace MessageState

def ready : MessageState := ⟨0⟩
def invisible : MessageState := ⟨1⟩
def completed : MessageState := ⟨2⟩
def deadLetter : MessageState := ⟨3⟩

end MessageState

/-- `Message`; its callbacks name the engine and the identifier. -/
structure Message where
  id : Bytes
  queue : Bytes
  payload : Bytes
  priority : UInt8
  dedupID : Bytes
  retryCount : Int
  maxRetries : Int
  state : MessageState
  visibleAt : Int64
  createdAt : Int64
  expireAt : Int64
deriving DecidableEq, Repr

/-- `uint32(n)` of an `int` -/
def word32 (value : Int) : Nat := (value % 2 ^ 32).toNat

def prefixed (width : Nat) (text : Bytes) : Bytes :=
  be width text.length ++ text

def Message.header (message : Message) : Bytes :=
  [0x51, 0x4D, message.state.code, message.priority] ++
    be 4 (word32 message.retryCount) ++ be 4 (word32 message.maxRetries) ++
    be 8 message.visibleAt.toUInt64.toNat ++
    be 8 message.createdAt.toUInt64.toNat ++
    be 8 message.expireAt.toUInt64.toNat

def Message.encode (message : Message) : Bytes :=
  message.header ++ prefixed 2 message.id ++ prefixed 2 message.queue ++
    prefixed 2 message.dedupID ++ prefixed 4 message.payload

def takePrefixed (width : Nat) (what : String) (buf : Bytes) :
    Except String (Bytes × Bytes) :=
  if buf.length < width then
    .error ("coco/queue: truncated " ++ what ++ " length")
  else
    let length := ofBE (buf.take width)
    let rest := buf.drop width
    if rest.length < length then
      .error ("coco/queue: truncated " ++ what ++ " data")
    else .ok (rest.take length, rest.drop length)

def int64At (buf : Bytes) (offset : Nat) : Int64 :=
  (UInt64.ofNat (ofBE ((buf.drop offset).take 8))).toInt64

def decodeMessage (buf : Bytes) : Except String Message :=
  if buf.length < 36 then
    .error "coco/queue: buffer too small for message header"
  else if buf.take 2 ≠ [0x51, 0x4D] then
    .error "coco/queue: invalid message magic"
  else do
    let (id, afterID) ← takePrefixed 2 "ID" (buf.drop 36)
    let (queue, afterQueue) ← takePrefixed 2 "Queue" afterID
    let (dedupID, afterDedup) ← takePrefixed 2 "DedupID" afterQueue
    let (payload, _) ← takePrefixed 4 "Payload" afterDedup
    .ok
      { id := id
        queue := queue
        payload := payload
        priority := buf.getD 3 0
        dedupID := dedupID
        retryCount := ofBE ((buf.drop 4).take 4)
        maxRetries := ofBE ((buf.drop 8).take 4)
        state := ⟨buf.getD 2 0⟩
        visibleAt := int64At buf 12
        createdAt := int64At buf 20
        expireAt := int64At buf 28 }

/-! ## The round trip -/

/-- The fields fit their places in the encoding. -/
structure Message.Storable (message : Message) : Prop where
  id : message.id.length < 256 ^ 2
  queue : message.queue.length < 256 ^ 2
  dedupID : message.dedupID.length < 256 ^ 2
  payload : message.payload.length < 256 ^ 4
  retryCount : 0 ≤ message.retryCount ∧ message.retryCount < 2 ^ 32
  maxRetries : 0 ≤ message.maxRetries ∧ message.maxRetries < 2 ^ 32

theorem Message.header_length (message : Message) :
    message.header.length = 36 := by
  simp [Message.header]

theorem takePrefixed_prefixed {width : Nat} {text : Bytes} (what : String)
    (rest : Bytes) (short : text.length < 256 ^ width) :
    takePrefixed width what (prefixed width text ++ rest) =
      .ok (text, rest) := by
  have spelled : (be width text.length).length = width := be_length _ _
  unfold takePrefixed prefixed
  rw [if_neg (by simp), List.append_assoc]
  have front : (be width text.length ++ (text ++ rest)).take width =
      be width text.length := List.take_left' spelled
  have back : (be width text.length ++ (text ++ rest)).drop width =
      text ++ rest := List.drop_left' spelled
  simp only [front, back, ofBE_be, Nat.mod_eq_of_lt short]
  rw [if_neg (by simp), List.take_left, List.drop_left]

theorem Message.header_fields (message : Message) (rest : Bytes) :
    let buf := message.header ++ rest
    buf.take 2 = [0x51, 0x4D] ∧ buf.getD 2 0 = message.state.code ∧
      buf.getD 3 0 = message.priority ∧
      (buf.drop 4).take 4 = be 4 (word32 message.retryCount) ∧
      (buf.drop 8).take 4 = be 4 (word32 message.maxRetries) ∧
      (buf.drop 12).take 8 = be 8 message.visibleAt.toUInt64.toNat ∧
      (buf.drop 20).take 8 = be 8 message.createdAt.toUInt64.toNat ∧
      (buf.drop 28).take 8 = be 8 message.expireAt.toUInt64.toNat ∧
      buf.drop 36 = rest := by
  intro buf
  refine ⟨rfl, rfl, rfl, ?_, ?_, ?_, ?_, ?_, ?_⟩
  all_goals
    simp [buf, Message.header, List.drop_append, be_drop]

theorem word32_of_lt {value : Int} (small : 0 ≤ value ∧ value < 2 ^ 32) :
    (word32 value : Int) = value ∧ word32 value < 256 ^ 4 := by
  unfold word32
  rw [Int.emod_eq_of_lt small.1 small.2, Int.toNat_of_nonneg small.1]
  exact ⟨rfl, by omega⟩

theorem int64_read (value : Int64) :
    (UInt64.ofNat (ofBE (be 8 value.toUInt64.toNat))).toInt64 = value := by
  rw [ofBE_be64, Int64.toInt64_toUInt64]

theorem decodeMessage_encode {message : Message}
    (storable : message.Storable) :
    decodeMessage message.encode = .ok message := by
  have shape : message.encode = message.header ++
      (prefixed 2 message.id ++ (prefixed 2 message.queue ++
        (prefixed 2 message.dedupID ++ (prefixed 4 message.payload ++ [])))) := by
    simp [Message.encode]
  obtain ⟨magic, state, priority, retryCount, maxRetries, visibleAt, createdAt,
    expireAt, tail⟩ := message.header_fields
      (prefixed 2 message.id ++ (prefixed 2 message.queue ++
        (prefixed 2 message.dedupID ++ (prefixed 4 message.payload ++ []))))
  have long : ¬ message.encode.length < 36 := by
    rw [shape, List.length_append, message.header_length]
    omega
  have retries := word32_of_lt storable.retryCount
  have limit := word32_of_lt storable.maxRetries
  unfold decodeMessage
  rw [if_neg long, shape, if_neg (not_not.mpr magic)]
  unfold int64At
  rw [state, priority, retryCount, maxRetries, visibleAt, createdAt, expireAt,
    tail]
  simp only [takePrefixed_prefixed _ _ storable.id,
    takePrefixed_prefixed _ _ storable.queue,
    takePrefixed_prefixed _ _ storable.dedupID,
    takePrefixed_prefixed _ _ storable.payload, bind, Except.bind]
  rw [int64_read, int64_read, int64_read, ofBE_be, ofBE_be,
    Nat.mod_eq_of_lt retries.2, Nat.mod_eq_of_lt limit.2, retries.1, limit.1]

end CocoDB.Queue
