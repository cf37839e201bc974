import CocoDB.Queue.Message

/-!
# Decoding with checked indices

`DecodeMessage` with its running offset: every index and every slice is checked
against the buffer, and one out of range ends the computation.  The checks of
the source come before each of them, so the computation always comes back, and
it comes back with an error on every proper beginning of an encoded message.
-/

namespace CocoDB.Queue

open Lib

/-! ## The decoder -/

/-- A computation that returns an error or a value, and nothing once an index
is out of range. -/
abbrev Indexed := ExceptT String Option

/-- `buf[index]` -/
def byteAt (buf : Bytes) (index : Nat) : Indexed UInt8 :=
  match buf[index]? with
  | some byte => pure byte
  | none => ExceptT.mk none

/-- `buf[first:last]` -/
def slice (buf : Bytes) (first last : Nat) : Indexed Bytes :=
  if first ≤ last ∧ last ≤ buf.length then
    pure ((buf.drop first).take (last - first))
  else ExceptT.mk none

/-- A length of the given width, the data behind it and the next offset. -/
def fieldAt (buf : Bytes) (width : Nat) (what : String) (offset : Nat) :
    Indexed (Bytes × Nat) := do
  if buf.length < offset + width then
    throw ("coco/queue: truncated " ++ what ++ " length")
  let length := ofBE (← slice buf offset (offset + width))
  let offset := offset + width
  if buf.length < offset + length then
    throw ("coco/queue: truncated " ++ what ++ " data")
  let text ← slice buf offset (offset + length)
  return (text, offset + length)

/-- `int64(binary.BigEndian.Uint64(buf[first:last]))` -/
def wordAt (buf : Bytes) (first last : Nat) : Indexed Int64 := do
  return (UInt64.ofNat (ofBE (← slice buf first last))).toInt64

def indexedDecodeMessage (buf : Bytes) : Indexed Message := do
  if buf.length < 36 then
    throw "coco/queue: buffer too small for message header"
  if (← byteAt buf 0) ≠ 0x51 ∨ (← byteAt buf 1) ≠ 0x4D then
    throw "coco/queue: invalid message magic"
  let state ← byteAt buf 2
  let priority ← byteAt buf 3
  let retryCount := ofBE (← slice buf 4 8)
  let maxRetries := ofBE (← slice buf 8 12)
  let visibleAt ← wordAt buf 12 20
  let createdAt ← wordAt buf 20 28
  let expireAt ← wordAt buf 28 36
  let (id, offset) ← fieldAt buf 2 "ID" 36
  let (queue, offset) ← fieldAt buf 2 "Queue" offset
  let (dedupID, offset) ← fieldAt buf 2 "DedupID" offset
  let (payload, _) ← fieldAt buf 4 "Payload" offset
  return {
    id, queue, payload, priority, dedupID
    retryCount := retryCount
    maxRetries := maxRetries
    state := ⟨state⟩
    visibleAt, createdAt, expireAt }

/-! ## No index is out of range -/

theorem byteAt_eq {buf : Bytes} {index : Nat} (inside : index < buf.length) :
    byteAt buf index = pure (buf.getD index 0) := by
  rw [byteAt, List.getD_eq_getElem?_getD, List.getElem?_eq_getElem inside]
  rfl

theorem slice_eq {buf : Bytes} {first last : Nat} (ordered : first ≤ last)
    (inside : last ≤ buf.length) :
    slice buf first last = pure ((buf.drop first).take (last - first)) := by
  rw [slice, if_pos ⟨ordered, inside⟩]

theorem wordAt_eq {buf : Bytes} {first : Nat} (inside : first + 8 ≤ buf.length) :
    wordAt buf first (first + 8) = pure (int64At buf first) := by
  rw [wordAt, slice_eq (Nat.le_add_right _ _) inside, Nat.add_sub_cancel_left]
  rfl

theorem fieldAt_eq {buf : Bytes} {offset : Nat} (width : Nat) (what : String)
    (inside : offset ≤ buf.length) :
    fieldAt buf width what offset =
      match takePrefixed width what (buf.drop offset) with
      | .error cause => throw cause
      | .ok (text, _) => pure (text, offset + width + text.length) := by
  rw [fieldAt, takePrefixed, List.length_drop]
  by_cases short : buf.length < offset + width
  · rw [if_pos short, if_pos (by omega)]
    rfl
  · rw [if_neg short, if_neg (by omega),
      slice_eq (Nat.le_add_right _ _) (by omega), Nat.add_sub_cancel_left]
    simp only [pure_bind, List.drop_drop, List.length_drop]
    by_cases cut : buf.length <
        offset + width + ofBE ((buf.drop offset).take width)
    · rw [if_pos cut, if_pos (by omega)]
      rfl
    · rw [if_neg cut, if_neg (by omega),
        slice_eq (Nat.le_add_right _ _) (by omega), Nat.add_sub_cancel_left]
      have kept : ((buf.drop (offset + width)).take
          (ofBE ((buf.drop offset).take width))).length =
            ofBE ((buf.drop offset).take width) := by
        rw [List.length_take, List.length_drop]
        omega
      simp only [pure_bind, kept]

theorem takePrefixed_ok {buf text rest : Bytes} {width offset : Nat}
    {what : String}
    (taken : takePrefixed width what (buf.drop offset) = .ok (text, rest)) :
    rest = buf.drop (offset + width + text.length) ∧
      width + text.length ≤ buf.length - offset := by
  simp only [takePrefixed, List.length_drop, List.drop_drop] at taken
  split at taken
  · cases taken
  · split at taken
    · cases taken
    · injection taken with taken
      injection taken with front back
      have size : text.length = ofBE ((buf.drop offset).take width) := by
        rw [← front, List.length_take, List.length_drop]
        omega
      rw [← back, size]
      exact ⟨rfl, by omega⟩

theorem fieldAt_bind {α : Type} {buf : Bytes} {offset : Nat} (width : Nat)
    (what : String) (inside : offset ≤ buf.length)
    (byOffset : Bytes × Nat → Indexed α)
    (byRest : Bytes × Bytes → Except String α)
    (later : ∀ text next, next ≤ buf.length →
      byOffset (text, next) = ExceptT.mk (some (byRest (text, buf.drop next)))) :
    (fieldAt buf width what offset >>= byOffset) =
      ExceptT.mk (some (takePrefixed width what (buf.drop offset) >>=
        byRest)) := by
  rw [fieldAt_eq width what inside]
  cases taken : takePrefixed width what (buf.drop offset) with
  | error cause => rfl
  | ok pair =>
      have left := takePrefixed_ok taken
      simp only [pure_bind]
      rw [later _ _ (by omega), ← left.1]
      rfl

theorem indexedDecodeMessage_eq (buf : Bytes) :
    indexedDecodeMessage buf = ExceptT.mk (some (decodeMessage buf)) := by
  rw [indexedDecodeMessage, decodeMessage]
  by_cases short : buf.length < 36
  · rw [if_pos short, if_pos short]
    rfl
  rw [if_neg short, if_neg short]
  have magic : (buf.getD 0 0 ≠ 0x51 ∨ buf.getD 1 0 ≠ 0x4D) ↔
      buf.take 2 ≠ [0x51, 0x4D] := by
    match buf with
    | [] => simp at short
    | [_] => simp at short
    | first :: second :: rest => simp [imp_iff_not_or]
  rw [byteAt_eq (by omega), byteAt_eq (by omega)]
  simp only [pure_bind, magic]
  by_cases foreign : buf.take 2 ≠ [0x51, 0x4D]
  · rw [if_pos foreign, if_pos foreign]
    rfl
  rw [if_neg foreign, if_neg foreign, byteAt_eq (by omega),
    byteAt_eq (by omega), slice_eq (by omega) (by omega),
    slice_eq (by omega) (by omega), wordAt_eq (by omega),
    wordAt_eq (by omega), wordAt_eq (by omega)]
  simp only [pure_bind]
  apply fieldAt_bind 2 "ID" (by omega)
  intro id afterID insideID
  apply fieldAt_bind 2 "Queue" insideID
  intro queue afterQueue insideQueue
  apply fieldAt_bind 2 "DedupID" insideQueue
  intro dedupID afterDedup insideDedup
  apply fieldAt_bind 4 "Payload" insideDedup
  intro payload _ _
  rfl

/-! ## Cut messages -/

theorem prefixed_length (width : Nat) (text : Bytes) :
    (prefixed width text).length = width + text.length := by
  rw [prefixed, List.length_append, be_length]

theorem takePrefixed_behind {width kept : Nat} {text rest : Bytes}
    (what : String) (short : text.length < 256 ^ width)
    (behind : width + text.length ≤ kept) :
    takePrefixed width what ((prefixed width text ++ rest).take kept) =
      .ok (text, rest.take (kept - (width + text.length))) := by
  rw [List.take_append, List.take_of_length_le
    (Nat.le_trans (prefixed_length width text).le behind), prefixed_length]
  exact takePrefixed_prefixed what _ short

theorem takePrefixed_inside {width kept : Nat} {text rest : Bytes}
    (what : String) (short : text.length < 256 ^ width)
    (inside : kept < width + text.length) :
    ∃ cause, takePrefixed width what
      ((prefixed width text ++ rest).take kept) = .error cause := by
  have size : ((prefixed width text ++ rest).take kept).length = kept := by
    rw [List.length_take, List.length_append, prefixed_length]
    omega
  rw [takePrefixed, size]
  by_cases header : kept < width
  · rw [if_pos header]
    exact ⟨_, rfl⟩
  · rw [if_neg header]
    have counted : ofBE (((prefixed width text ++ rest).take kept).take width) =
        text.length := by
      rw [List.take_take, Nat.min_eq_left (by omega), prefixed,
        List.append_assoc, List.take_left' (be_length _ _), ofBE_be,
        Nat.mod_eq_of_lt short]
    simp only [counted]
    rw [if_pos (by rw [List.length_drop, size]; omega)]
    exact ⟨_, rfl⟩

theorem takePrefixed_cut {α : Type} {width kept : Nat} {text rest : Bytes}
    (what : String) (short : text.length < 256 ^ width)
    (next : Bytes × Bytes → Except String α)
    (later : width + text.length ≤ kept → ∃ cause,
      next (text, rest.take (kept - (width + text.length))) = .error cause) :
    ∃ cause, (takePrefixed width what
      ((prefixed width text ++ rest).take kept) >>= next) = .error cause := by
  by_cases behind : width + text.length ≤ kept
  · rw [takePrefixed_behind what short behind]
    exact later behind
  · obtain ⟨cause, refused⟩ := takePrefixed_inside what short
      (Nat.lt_of_not_le behind)
    rw [refused]
    exact ⟨cause, rfl⟩

theorem decodeMessage_take {message : Message} (storable : message.Storable)
    {kept : Nat} (cut : kept < message.encode.length) :
    ∃ cause, decodeMessage (message.encode.take kept) = .error cause := by
  have shape : message.encode = message.header ++
      (prefixed 2 message.id ++ (prefixed 2 message.queue ++
        (prefixed 2 message.dedupID ++ (prefixed 4 message.payload ++ [])))) := by
    simp [Message.encode]
  have total : message.encode.length = 36 + (2 + message.id.length +
      (2 + message.queue.length + (2 + message.dedupID.length +
        (4 + message.payload.length)))) := by
    rw [shape]
    simp only [List.length_append, message.header_length, prefixed_length,
      List.length_nil, Nat.add_zero]
  rw [decodeMessage, List.length_take]
  by_cases header : kept < 36
  · rw [if_pos (by omega)]
    exact ⟨_, rfl⟩
  have tail : (message.encode.take kept).drop 36 =
      (prefixed 2 message.id ++ (prefixed 2 message.queue ++
        (prefixed 2 message.dedupID ++ (prefixed 4 message.payload ++ [])))).take
          (kept - 36) := by
    rw [List.drop_take, shape, List.drop_left' message.header_length]
  rw [if_neg (by omega), tail]
  split
  · exact ⟨_, rfl⟩
  apply takePrefixed_cut "ID" storable.id
  intro behindID
  apply takePrefixed_cut "Queue" storable.queue
  intro behindQueue
  apply takePrefixed_cut "DedupID" storable.dedupID
  intro behindDedup
  apply takePrefixed_cut "Payload" storable.payload
  intro behindPayload
  omega

/-- Messages round trip, their proper beginnings are refused, and no byte
string makes the decoder index out of range. -/
theorem indexedDecodeMessage_exact :
    (∀ message : Message, message.Storable →
      indexedDecodeMessage message.encode = pure message ∧
        ∀ cut : Bytes, cut <+: message.encode → cut ≠ message.encode →
          ∃ cause, indexedDecodeMessage cut = throw cause) ∧
      ∀ buf : Bytes, (indexedDecodeMessage buf).run ≠ none := by
  constructor
  · intro message storable
    constructor
    · rw [indexedDecodeMessage_eq, decodeMessage_encode storable]
      rfl
    · intro cut begins proper
      have shorter : cut.length < message.encode.length := by
        apply Nat.lt_of_le_of_ne begins.length_le
        intro same
        exact proper (begins.eq_of_length same)
      obtain ⟨cause, refused⟩ := decodeMessage_take storable shorter
      rw [← List.prefix_iff_eq_take.mp begins] at refused
      rw [indexedDecodeMessage_eq, refused]
      exact ⟨cause, rfl⟩
  · intro buf
    rw [indexedDecodeMessage_eq]
    exact nofun

/-- The message `m` of the queue `q`, retried once out of three times. -/
def retriedMessage : Message where
  id := [109]
  queue := [113]
  payload := [1, 2]
  priority := 5
  dedupID := []
  retryCount := 1
  maxRetries := 3
  state := .ready
  visibleAt := 7
  createdAt := 4
  expireAt := -1

theorem indexedDecodeMessage_retried :
    indexedDecodeMessage retriedMessage.encode = pure retriedMessage ∧
      ∃ cause, indexedDecodeMessage (retriedMessage.encode.take 40) =
        throw cause := by
  have storable : retriedMessage.Storable := by
    constructor <;> decide
  have known := indexedDecodeMessage_exact.1 retriedMessage storable
  exact ⟨known.1, known.2 _ (List.take_prefix _ _) (by decide)⟩

end CocoDB.Queue
