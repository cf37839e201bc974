import CocoDB.Cluster.Proto

/-!
# Server connections

`Server.handleConn` of `internal/cluster/server.go`.  A server with a secret
takes commands from a connection only after a frame that carries the secret; the
first frame that does not ends the connection.
-/

namespace CocoDB.Cluster

open Lib

/-! ## Commands and status codes -/

def cmdAuth : UInt8 := 0x01
def cmdPing : UInt8 := 0x02
def cmdEnqueue : UInt8 := 0x10
def cmdDequeue : UInt8 := 0x11
def cmdAck : UInt8 := 0x12
def cmdNack : UInt8 := 0x13
def cmdPublish : UInt8 := 0x20
def cmdResponse : UInt8 := 0x80

def statusOK : UInt8 := 0x00
def statusError : UInt8 := 0x01
def statusUnauthorized : UInt8 := 0x02
def statusDuplicate : UInt8 := 0x03

def replyTo (frame : Frame) (status : UInt8) (text : String) : Frame where
  cmd := cmdResponse
  status := status
  correlationID := frame.correlationID
  payload := text.toUTF8.toList

/-! ## The connection loop -/

/-- What the loop does with a frame: answer it itself, or pass it to
`dispatch`. -/
inductive Handling where
  | reply (answer : Frame)
  | dispatch (frame : Frame)
deriving DecidableEq, Repr

/-- The loop of `handleConn` over what `DecodeFrame` returns in turn, up to the
end of the connection or of the server.  `unmarshal` is the secret that
`json.Unmarshal` leaves in the request, empty when it fails. -/
def serve (unmarshal : Bytes → Bytes) (secret : Bytes) :
    (authenticated : Bool) → List (Except FrameError Frame) → List Handling
  | _, [] => []
  | _, .error _ :: _ => []
  | true, .ok frame :: rest =>
      .dispatch frame :: serve unmarshal secret true rest
  | false, .ok frame :: rest =>
      if frame.cmd ≠ cmdAuth then
        [.reply (replyTo frame statusUnauthorized
          "authentication required before commands")]
      else if unmarshal frame.payload ≠ secret then
        [.reply (replyTo frame statusUnauthorized
          "invalid cluster secret token")]
      else
        .reply (replyTo frame statusOK "authenticated") ::
          serve unmarshal secret true rest

/-- `handleConn`: without a secret every connection is open -/
def handleConn (unmarshal : Bytes → Bytes) (secret : Bytes)
    (reads : List (Except FrameError Frame)) : List Handling :=
  serve unmarshal secret (secret = []) reads

section Gate

variable {unmarshal : Bytes → Bytes} {secret : Bytes}

def Opens (unmarshal : Bytes → Bytes) (secret : Bytes) (frame : Frame) :
    Prop :=
  frame.cmd = cmdAuth ∧ unmarshal frame.payload = secret

theorem serve_open {reads : List (Except FrameError Frame)} {index : Nat}
    {handling : Handling}
    (handled : (serve unmarshal secret true reads)[index]? = some handling) :
    ∃ frame, reads[index]? = some (.ok frame) ∧
      handling = .dispatch frame := by
  induction reads generalizing index with
  | nil => cases handled
  | cons read rest inductionHypothesis =>
      cases read with
      | error cause => cases handled
      | ok frame =>
          rw [serve] at handled
          cases index with
          | zero =>
              rw [List.getElem?_cons_zero] at handled
              exact ⟨frame, rfl, (Option.some.inj handled).symm⟩
          | succ index =>
              rw [List.getElem?_cons_succ] at handled ⊢
              exact inductionHypothesis handled

theorem serve_rejects {frame : Frame} (closed : ¬ Opens unmarshal secret frame)
    (rest : List (Except FrameError Frame)) :
    ∃ text, serve unmarshal secret false (.ok frame :: rest) =
      [.reply (replyTo frame statusUnauthorized text)] := by
  rw [serve]
  by_cases command : frame.cmd = cmdAuth
  · rw [if_neg (not_not.mpr command),
      if_pos fun same => closed ⟨command, same⟩]
    exact ⟨_, rfl⟩
  · rw [if_pos command]
    exact ⟨_, rfl⟩

theorem serve_accepts {frame : Frame} (opens : Opens unmarshal secret frame)
    (rest : List (Except FrameError Frame)) :
    serve unmarshal secret false (.ok frame :: rest) =
      .reply (replyTo frame statusOK "authenticated") ::
        serve unmarshal secret true rest := by
  rw [serve, if_neg (not_not.mpr opens.1), if_neg (not_not.mpr opens.2)]

/-- A server with a secret dispatches a frame only after an earlier frame of the
connection brought the secret.  Any frame before that one is answered with
`StatusUnauthorized` and is the last that is looked at. -/
theorem handleConn_gated (unmarshal : Bytes → Bytes) (secret : Bytes)
    (configured : secret ≠ []) (reads : List (Except FrameError Frame)) :
    (∀ (index : Nat) (frame : Frame),
        (handleConn unmarshal secret reads)[index]? =
          some (.dispatch frame) →
        reads[index]? = some (.ok frame) ∧
          ∃ earlier < index, ∃ auth : Frame, reads[earlier]? = some (.ok auth) ∧
            Opens unmarshal secret auth) ∧
      ∀ (index : Nat) (frame : Frame), reads[index]? = some (.ok frame) →
        (∀ position ≤ index, ∀ other : Frame,
          reads[position]? = some (.ok other) →
            ¬ Opens unmarshal secret other) →
        (handleConn unmarshal secret reads).length ≤ index + 1 ∧
          (index = 0 → 0 < (handleConn unmarshal secret reads).length) ∧
          ∀ handling,
            (handleConn unmarshal secret reads)[index]? = some handling →
            ∃ text, handling =
              .reply (replyTo frame statusUnauthorized text) := by
  have gate : handleConn unmarshal secret reads =
      serve unmarshal secret false reads := by
    unfold handleConn
    rw [decide_eq_false configured]
  rw [gate]
  cases reads with
  | nil =>
      refine ⟨fun index frame handled => ?_, fun index frame read => ?_⟩
      · cases handled
      · cases read
  | cons first rest =>
      cases first with
      | error cause =>
          refine ⟨fun index frame handled => ?_,
            fun index frame read _ => ⟨Nat.zero_le _, ?_, ?_⟩⟩
          · cases handled
          · rintro rfl
            cases read
          · intro handling handled
            cases handled
      | ok head =>
          by_cases opens : Opens unmarshal secret head
          · rw [serve_accepts opens]
            refine ⟨fun index frame handled => ?_,
              fun index frame _ closed => ?_⟩
            · cases index with
              | zero => cases handled
              | succ index =>
                  rw [List.getElem?_cons_succ] at handled ⊢
                  obtain ⟨found, read, same⟩ := serve_open handled
                  cases same
                  exact ⟨read, 0, Nat.succ_pos _, head, rfl, opens⟩
            · exact absurd opens (closed 0 (Nat.zero_le _) head rfl)
          · obtain ⟨text, rejected⟩ := serve_rejects opens rest
            rw [rejected]
            refine ⟨fun index frame handled => ?_,
              fun index frame read _ => ⟨Nat.succ_le_succ (Nat.zero_le _),
                fun _ => Nat.succ_pos _, fun handling handled => ?_⟩⟩
            · cases index with
              | zero => cases handled
              | succ index => cases handled
            · cases index with
              | zero =>
                  cases read
                  exact ⟨text, (Option.some.inj handled).symm⟩
              | succ index => cases handled

/-- The JSON object whose field `secret` is `s`. -/
def secretPayload : Bytes :=
  [0x7B, 0x22, 0x73, 0x65, 0x63, 0x72, 0x65, 0x74, 0x22, 0x3A, 0x22, 0x73,
    0x22, 0x7D]

/-- A command sent right behind the secret, and one sent without it. -/
theorem handleConn_gated_sample :
    let unmarshal : Bytes → Bytes := fun payload =>
      if payload = secretPayload then [0x73] else []
    let auth : Frame := ⟨cmdAuth, 0, 1, secretPayload⟩
    let ping : Frame := ⟨cmdPing, 0, 2, []⟩
    let reads : List (Except FrameError Frame) := [.ok auth, .ok ping]
    (handleConn unmarshal [0x73] reads)[1]? = some (.dispatch ping) ∧
      (∃ earlier < 1, ∃ opener : Frame, reads[earlier]? = some (.ok opener) ∧
        Opens unmarshal [0x73] opener) ∧
      (handleConn unmarshal [0x73] (.ok ping :: reads)).length ≤ 1 := by
  intro unmarshal auth ping reads
  have dispatched : (handleConn unmarshal [0x73] reads)[1]? =
      some (.dispatch ping) := rfl
  refine ⟨dispatched, ?_, ?_⟩
  · exact ((handleConn_gated unmarshal [0x73] (by decide) reads).1 1 ping
      dispatched).2
  · refine ((handleConn_gated unmarshal [0x73] (by decide)
      (.ok ping :: reads)).2 0 ping rfl ?_).1
    intro position atStart other read
    have first : position = 0 := Nat.le_zero.mp atStart
    subst first
    cases read
    exact fun opens => absurd opens.1 (by decide)

end Gate

end CocoDB.Cluster
