import CocoDB.Lib.Buffer

/-!
# The wire protocol of the cluster

`internal/cluster/proto.go`: frames with a header of sixteen bytes, a payload
and its checksum.  A frame without payload has no checksum either.  Reading
ends at the first frame that is cut off or malformed.
-/

namespace CocoDB.Cluster

open Lib

/-- `ProtocolMagic`, `COCO` -/
def protocolMagic : Nat := 0x4F434F43

def protocolVersion : UInt8 := 1

def headerSize : Nat := 16

/-- `MaxPayloadSize`, 64 MiB -/
def maxPayloadSize : Nat := 64 * 1024 * 1024

/-- `Frame`; a missing payload is an empty one. -/
structure Frame where
  cmd : UInt8
  status : UInt8
  correlationID : UInt32
  payload : Bytes
deriving DecidableEq, Repr

inductive FrameError where
  /-- `io.EOF` -/
  | eof
  /-- `io.ErrUnexpectedEOF` -/
  | unexpectedEOF
  /-- `coco/cluster: invalid magic bytes in header` -/
  | invalidMagic
  /-- `coco/cluster: unsupported protocol version` -/
  | unsupportedVersion
  /-- `coco/cluster: payload exceeds maximum frame size (64MB)` -/
  | payloadTooLarge
  /-- `coco/cluster: frame CRC32C checksum mismatch` -/
  | checksumMismatch
deriving DecidableEq, Repr

def frameHeader (frame : Frame) : Bytes :=
  be 4 protocolMagic ++
    [protocolVersion, frame.cmd, frame.status, 0] ++
    be 4 frame.correlationID.toNat ++ be 4 frame.payload.length

/-- `EncodeFrame`: the bytes it writes -/
def encodeFrame (checksum : Bytes → UInt32) (frame : Frame) : Bytes :=
  if frame.payload = [] then frameHeader frame
  else
    frameHeader frame ++ frame.payload ++
      be 4 (checksum frame.payload).toNat

/-- `io.ReadFull` of a number of bytes from what is left of the stream. -/
def readFull (count : Nat) (reader : Bytes) :
    Except FrameError (Bytes × Bytes) :=
  if reader.length < count then
    if reader = [] then .error .eof else .error .unexpectedEOF
  else
    .ok (reader.take count, reader.drop count)

/-- The part of `DecodeFrame` after the header: payload and checksum. -/
def decodePayload (checksum : Bytes → UInt32) (payloadLen : Nat)
    (reader : Bytes) : Except FrameError (Bytes × Bytes) :=
  if payloadLen = 0 then .ok ([], reader)
  else do
    let (payload, rest) ← readFull payloadLen reader
    let (crc, rest) ← readFull 4 rest
    if UInt32.ofNat (ofBE crc) ≠ checksum payload then
      .error .checksumMismatch
    else
      .ok (payload, rest)

/-- `DecodeFrame`: the frame and the rest of the stream -/
def decodeFrame (checksum : Bytes → UInt32) (reader : Bytes) :
    Except FrameError (Frame × Bytes) := do
  let (header, rest) ← readFull headerSize reader
  if ofBE (header.take 4) ≠ protocolMagic then .error .invalidMagic
  else if header[4]?.getD 0 ≠ protocolVersion then .error .unsupportedVersion
  else
    let payloadLen := ofBE ((header.drop 12).take 4)
    if payloadLen > maxPayloadSize then .error .payloadTooLarge
    else do
      let (payload, rest) ← decodePayload checksum payloadLen rest
      return (⟨header[5]?.getD 0, header[6]?.getD 0,
        UInt32.ofNat (ofBE ((header.drop 8).take 4)), payload⟩, rest)

theorem readFull_length {count : Nat} {reader bytes rest : Bytes}
    (read : readFull count reader = .ok (bytes, rest)) :
    reader.length = count + rest.length := by
  unfold readFull at read
  split at read
  · split at read <;> cases read
  · rename_i enough
    cases read
    rw [List.length_drop]
    omega

theorem decodePayload_length {checksum : Bytes → UInt32} {payloadLen : Nat}
    {reader payload rest : Bytes}
    (read : decodePayload checksum payloadLen reader = .ok (payload, rest)) :
    rest.length ≤ reader.length := by
  unfold decodePayload at read
  split at read
  · cases read
    exact Nat.le_refl _
  · cases first : readFull payloadLen reader with
    | error cause =>
        rw [first] at read
        cases read
    | ok found =>
        obtain ⟨bytes, middle⟩ := found
        rw [first] at read
        have firstLength := readFull_length first
        cases second : readFull 4 middle with
        | error cause =>
            simp only [bind, Except.bind, second] at read
            cases read
        | ok crc =>
            obtain ⟨crcBytes, final⟩ := crc
            have secondLength := readFull_length second
            simp only [bind, Except.bind, second] at read
            split at read
            · cases read
            · cases read
              omega

theorem decodeFrame_length {checksum : Bytes → UInt32} {reader rest : Bytes}
    {frame : Frame}
    (read : decodeFrame checksum reader = .ok (frame, rest)) :
    rest.length < reader.length := by
  unfold decodeFrame at read
  cases first : readFull headerSize reader with
  | error cause =>
      simp only [bind, Except.bind, first] at read
      cases read
  | ok found =>
      obtain ⟨header, middle⟩ := found
      have headLength := readFull_length first
      simp only [bind, Except.bind, first] at read
      split at read
      · cases read
      · split at read
        · cases read
        · split at read
          · cases read
          · split at read
            · cases read
            · rename_i body bodyRead
              obtain ⟨payload, final⟩ := body
              have bodyLength := decodePayload_length bodyRead
              cases read
              show final.length < reader.length
              simp only [headerSize] at headLength
              omega

def decodeAll (checksum : Bytes → UInt32) (reader : Bytes) :
    List Frame × FrameError :=
  match _read : decodeFrame checksum reader with
  | .error cause => ([], cause)
  | .ok (frame, rest) =>
      (frame :: (decodeAll checksum rest).1, (decodeAll checksum rest).2)
termination_by reader.length
decreasing_by all_goals exact decodeFrame_length _read

section Frames

variable {checksum : Bytes → UInt32} {frame : Frame}

theorem readFull_append {count : Nat} {bytes rest : Bytes}
    (sized : bytes.length = count) :
    readFull count (bytes ++ rest) = .ok (bytes, rest) := by
  unfold readFull
  rw [if_neg (by rw [List.length_append]; omega), List.take_left' sized,
    List.drop_left' sized]

theorem readFull_short {count : Nat} {reader : Bytes}
    (short : reader.length < count) :
    ∃ cause, readFull count reader = .error cause := by
  unfold readFull
  rw [if_pos short]
  split
  · exact ⟨_, rfl⟩
  · exact ⟨_, rfl⟩

theorem frameHeader_length (frame : Frame) :
    (frameHeader frame).length = headerSize := by
  simp [frameHeader, headerSize]

theorem frameHeader_fields (frame : Frame) :
    (frameHeader frame).take 4 = be 4 protocolMagic ∧
      (frameHeader frame)[4]? = some protocolVersion ∧
      (frameHeader frame)[5]? = some frame.cmd ∧
      (frameHeader frame)[6]? = some frame.status ∧
      ((frameHeader frame).drop 8).take 4 =
        be 4 frame.correlationID.toNat ∧
      ((frameHeader frame).drop 12).take 4 = be 4 frame.payload.length := by
  unfold frameHeader
  have magic := be_length 4 protocolMagic
  have correlation := be_length 4 frame.correlationID.toNat
  have size := be_length 4 frame.payload.length
  generalize be 4 protocolMagic = magicBytes at *
  generalize be 4 frame.correlationID.toNat = correlationBytes at *
  generalize be 4 frame.payload.length = sizeBytes at *
  refine ⟨?_, ?_, ?_, ?_, ?_, ?_⟩
  · rw [List.append_assoc, List.append_assoc, List.take_left' magic]
  · simp [magic]
  · simp [List.getElem?_append, magic]
  · simp [List.getElem?_append, magic]
  · rw [List.append_assoc, List.drop_left' (by simp [magic]),
      List.take_left' correlation]
  · rw [List.drop_left' (by simp [magic, correlation]),
      List.take_of_length_le size.le]

def frameBody (checksum : Bytes → UInt32) (frame : Frame) : Bytes :=
  if frame.payload = [] then []
  else frame.payload ++ be 4 (checksum frame.payload).toNat

theorem encodeFrame_eq (checksum : Bytes → UInt32) (frame : Frame) :
    encodeFrame checksum frame =
      frameHeader frame ++ frameBody checksum frame := by
  unfold encodeFrame frameBody
  split
  · rw [List.append_nil]
  · rw [List.append_assoc]

theorem payload_size {frame : Frame}
    (small : frame.payload.length ≤ maxPayloadSize) :
    ofBE (be 4 frame.payload.length) = frame.payload.length := by
  rw [ofBE_be]
  refine Nat.mod_eq_of_lt (Nat.lt_of_le_of_lt small ?_)
  decide

theorem decodeFrame_header (small : frame.payload.length ≤ maxPayloadSize)
    (body : Bytes) :
    decodeFrame checksum (frameHeader frame ++ body) =
      (decodePayload checksum frame.payload.length body).map
        fun found => ({ frame with payload := found.1 }, found.2) := by
  obtain ⟨magic, version, cmd, status, correlation, size⟩ :=
    frameHeader_fields frame
  unfold decodeFrame
  rw [readFull_append (frameHeader_length frame)]
  simp only [bind, Except.bind, magic, version, cmd, status, correlation,
    size, Option.getD_some]
  rw [payload_size small, if_neg (by decide), if_neg (by simp),
    if_neg (Nat.not_lt.mpr small), ofBE_be32]
  cases decodePayload checksum frame.payload.length body with
  | error cause => rfl
  | ok found => rfl

theorem decodePayload_body (rest : Bytes) :
    decodePayload checksum frame.payload.length
        (frameBody checksum frame ++ rest) = .ok (frame.payload, rest) := by
  unfold decodePayload frameBody
  by_cases empty : frame.payload = []
  · rw [if_pos empty, empty]
    rfl
  · rw [if_neg empty, if_neg (by simpa using empty), List.append_assoc,
      readFull_append rfl]
    simp only [bind, Except.bind]
    rw [readFull_append (be_length 4 _)]
    simp only [ofBE_be32]
    rw [if_neg (by simp)]

theorem decodeFrame_encode (small : frame.payload.length ≤ maxPayloadSize)
    (rest : Bytes) :
    decodeFrame checksum (encodeFrame checksum frame ++ rest) =
      .ok (frame, rest) := by
  rw [encodeFrame_eq, List.append_assoc, decodeFrame_header small,
    decodePayload_body]
  rfl

theorem decodeFrame_cut (small : frame.payload.length ≤ maxPayloadSize)
    {cut rest : Bytes} (within : cut <+: encodeFrame checksum frame ++ rest)
    (short : cut.length < (encodeFrame checksum frame).length) :
    ∃ cause, decodeFrame checksum cut = .error cause := by
  have prefixed : cut <+: encodeFrame checksum frame :=
    List.prefix_of_prefix_length_le within (List.prefix_append _ _) short.le
  rw [encodeFrame_eq] at prefixed short
  rw [List.length_append] at short
  by_cases headless : cut.length < headerSize
  · obtain ⟨cause, failed⟩ := readFull_short headless
    exact ⟨cause, by simp only [decodeFrame, failed, bind, Except.bind]⟩
  · have headed : frameHeader frame <+: cut :=
      List.prefix_of_prefix_length_le (List.prefix_append _ _) prefixed
        (by rw [frameHeader_length]; omega)
    obtain ⟨body, rfl⟩ := headed
    have bodyWithin : body <+: frameBody checksum frame :=
      (List.prefix_append_right_inj _).mp prefixed
    rw [List.length_append] at short
    rw [decodeFrame_header small]
    unfold frameBody at bodyWithin short
    by_cases empty : frame.payload = []
    · rw [if_pos empty] at short
      simp at short
    · rw [if_neg empty] at bodyWithin short
      unfold decodePayload
      rw [if_neg (by simpa using empty)]
      by_cases half : body.length < frame.payload.length
      · obtain ⟨cause, failed⟩ := readFull_short half
        rw [failed]
        exact ⟨cause, rfl⟩
      · have whole : frame.payload <+: body :=
          List.prefix_of_prefix_length_le (List.prefix_append _ _) bodyWithin
            (by omega)
        obtain ⟨crc, rfl⟩ := whole
        rw [readFull_append rfl]
        have crcShort : crc.length < 4 := by
          simp only [List.length_append, be_length] at short
          omega
        obtain ⟨cause, failed⟩ := readFull_short crcShort
        simp only [bind, Except.bind, failed]
        exact ⟨cause, rfl⟩

end Frames

section Streams

variable {checksum : Bytes → UInt32}

def contained (checksum : Bytes → UInt32) : List Frame → Nat → List Frame
  | [], _ => []
  | frame :: rest, size =>
      if (encodeFrame checksum frame).length ≤ size then
        frame :: contained checksum rest
          (size - (encodeFrame checksum frame).length)
      else
        []

def encodeAll (checksum : Bytes → UInt32) (frames : List Frame) : Bytes :=
  frames.flatMap (encodeFrame checksum)

theorem decodeAll_error {reader : Bytes} {cause : FrameError}
    (failed : decodeFrame checksum reader = .error cause) :
    decodeAll checksum reader = ([], cause) := by
  rw [decodeAll]
  split
  · rename_i other read
    rw [failed] at read
    cases read
    rfl
  · rename_i frame rest read
    rw [failed] at read
    cases read

theorem decodeAll_ok {reader rest : Bytes} {frame : Frame}
    (read : decodeFrame checksum reader = .ok (frame, rest)) :
    decodeAll checksum reader =
      (frame :: (decodeAll checksum rest).1,
        (decodeAll checksum rest).2) := by
  rw [decodeAll]
  split
  · rename_i other failed
    rw [failed] at read
    cases read
  · rename_i other tail found
    rw [found] at read
    cases read
    rfl

/-- The read loop on frames that were written one after another: all of them
and then the end of the stream, or, when the stream is cut off, those that are
complete. -/
theorem decodeAll_stream (checksum : Bytes → UInt32) (frames : List Frame)
    (small : ∀ frame ∈ frames, frame.payload.length ≤ maxPayloadSize) :
    decodeAll checksum (encodeAll checksum frames) = (frames, .eof) ∧
      ∀ cut, cut <+: encodeAll checksum frames →
        (decodeAll checksum cut).1 =
          contained checksum frames cut.length := by
  induction frames with
  | nil =>
      refine ⟨decodeAll_error rfl, fun cut within => ?_⟩
      have empty : cut = [] := List.prefix_nil.mp within
      subst empty
      rw [decodeAll_error (show decodeFrame checksum [] = .error .eof from rfl)]
      rfl
  | cons frame rest inductionHypothesis =>
      obtain ⟨firstSmall, restSmall⟩ := List.forall_mem_cons.mp small
      obtain ⟨whole, cuts⟩ := inductionHypothesis restSmall
      have split : encodeAll checksum (frame :: rest) =
          encodeFrame checksum frame ++ encodeAll checksum rest :=
        List.flatMap_cons
      rw [split]
      refine ⟨?_, fun cut within => ?_⟩
      · rw [decodeAll_ok (decodeFrame_encode firstSmall _), whole]
      · rw [contained]
        by_cases complete : (encodeFrame checksum frame).length ≤ cut.length
        · have first : encodeFrame checksum frame <+: cut :=
            List.prefix_of_prefix_length_le (List.prefix_append _ _) within
              complete
          obtain ⟨tail, rfl⟩ := first
          have tailWithin := (List.prefix_append_right_inj _).mp within
          rw [if_pos complete,
            decodeAll_ok (decodeFrame_encode firstSmall _),
            cuts tail tailWithin, List.length_append, Nat.add_sub_cancel_left]
        · obtain ⟨cause, failed⟩ := decodeFrame_cut firstSmall within
            (Nat.not_le.mp complete)
          rw [if_neg complete, decodeAll_error failed]

/-- A frame with the payload `a` and its CRC32C, then one without payload. -/
theorem decodeAll_stream_sample :
    let checksum : Bytes → UInt32 := fun _ => 0xC1D04330
    let frames : List Frame := [⟨0x10, 0, 7, [0x61]⟩, ⟨0x02, 0, 8, []⟩]
    decodeAll checksum (encodeAll checksum frames) = (frames, .eof) ∧
      (decodeAll checksum ((encodeAll checksum frames).take 30)).1 =
        [⟨0x10, 0, 7, [0x61]⟩] := by
  intro checksum frames
  obtain ⟨whole, cuts⟩ := decodeAll_stream checksum frames (by decide)
  refine ⟨whole, ?_⟩
  rw [cuts _ (List.take_prefix 30 _)]
  decide

end Streams

end CocoDB.Cluster
