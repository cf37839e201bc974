import CocoDB.Cluster.Connection
import CocoDB.Lib.Run

/-!
# Calls over a pooled connection

`Client.requestNode` of `internal/cluster/client.go`.  All calls to an address
share one connection, and a call writes its frame and reads the answer in two
separate steps.  Whoever reads next gets the next answer.
-/

namespace CocoDB.Cluster

open Lib

/-- How a server may answer a frame; the answer carries its correlation
identifier. -/
structure Answering where
  answers : Frame → Frame → Prop
  echo : ∀ {frame answer}, answers frame answer →
    answer.correlationID = frame.correlationID

inductive Phase where
  | idle
  | sent (frame : Frame)
  | returned (frame answer : Frame)
  | failed

/-- The connection of an address and the calls that use it.  `waiting` lists the
calls that have written and not yet read, in the order of their writes. -/
structure Pooled (Caller : Type) where
  nextID : UInt32
  requests : List Frame
  answers : List Frame
  waiting : List Caller
  phase : Caller → Phase
  usable : Bool

variable {Caller : Type}

/-- The frame that a call writes: one without correlation identifier gets the
next one. -/
def numbered (nextID : UInt32) (frame : Frame) : Frame :=
  if frame.correlationID = 0 then { frame with correlationID := nextID + 1 }
  else frame

def nextAfter (nextID : UInt32) (frame : Frame) : UInt32 :=
  if frame.correlationID = 0 then nextID + 1 else nextID

/-- What the calls and the server do, one whole frame at a time. -/
inductive Move (Caller : Type) where
  | write (caller : Caller) (frame : Frame)
  | answer (reply : Frame)
  | read (caller : Caller)
  | fail (caller : Caller)

/-- One move.  A call that fails closes the connection under all others. -/
inductive Moves [DecidableEq Caller] (server : Answering) :
    Move Caller → Pooled Caller → Pooled Caller → Prop where
  | write {conn : Pooled Caller} {caller : Caller} {frame : Frame} :
      conn.usable = true → conn.phase caller = .idle →
      Moves server (.write caller frame) conn
        { conn with
          nextID := nextAfter conn.nextID frame
          requests := conn.requests ++ [numbered conn.nextID frame]
          waiting := conn.waiting ++ [caller]
          phase := Function.update conn.phase caller
            (.sent (numbered conn.nextID frame)) }
  | answer {conn : Pooled Caller} {frame reply : Frame}
      {rest : List Frame} :
      conn.usable = true → conn.requests = frame :: rest →
      server.answers frame reply →
      Moves server (.answer reply) conn
        { conn with
          requests := rest
          answers := conn.answers ++ [reply] }
  | read {conn : Pooled Caller} {caller : Caller} {frame reply : Frame}
      {rest : List Frame} :
      conn.usable = true → conn.phase caller = .sent frame →
      conn.answers = reply :: rest →
      Moves server (.read caller) conn
        { conn with
          answers := rest
          waiting := conn.waiting.erase caller
          phase := Function.update conn.phase caller
            (.returned frame reply) }
  | fail {conn : Pooled Caller} {caller : Caller} :
      (∀ frame reply, conn.phase caller ≠ .returned frame reply) →
      Moves server (.fail caller) conn
        { conn with
          usable := false
          phase := Function.update conn.phase caller .failed }

def Pooled.dialed (nextID : UInt32) : Pooled Caller where
  nextID := nextID
  requests := []
  answers := []
  waiting := []
  phase := fun _ => .idle
  usable := true

def Attributed (server : Answering) (conn : Pooled Caller) : Prop :=
  ∀ caller frame reply, conn.phase caller = .returned frame reply →
    reply.correlationID = frame.correlationID ∧ server.answers frame reply

def InTurn : Move Caller → Pooled Caller → Prop
  | .read caller, conn => conn.waiting.head? = some caller
  | _, _ => True

/-! ## Calls that take turns -/

/-- The answers on their way, and then the requests on theirs, belong to the
waiting calls in order. -/
structure Aligned (server : Answering) (conn : Pooled Caller) : Prop where
  distinct : conn.waiting.Nodup
  ordered : ∃ answered, List.Forall₂ server.answers answered conn.answers ∧
    List.Forall₂ (fun caller frame => conn.phase caller = .sent frame)
      conn.waiting (answered ++ conn.requests)

section Turns

variable {server : Answering} {conn next : Pooled Caller}

theorem Aligned.waiting_sent (aligned : Aligned server conn)
    {caller : Caller} (member : caller ∈ conn.waiting) :
    ∃ frame, conn.phase caller = .sent frame := by
  obtain ⟨answered, _, senders⟩ := aligned.ordered
  generalize answered ++ conn.requests = frames at senders
  generalize conn.waiting = waiting at member senders
  induction senders with
  | nil => cases member
  | cons first _ inductionHypothesis =>
      rcases List.mem_cons.mp member with rfl | later
      · exact ⟨_, first⟩
      · exact inductionHypothesis later

theorem senders_update [DecidableEq Caller] {waiting : List Caller}
    {frames : List Frame}
    {phase : Caller → Phase} {caller : Caller} {new : Phase}
    (senders : List.Forall₂ (fun caller frame => phase caller = .sent frame)
      waiting frames) (absent : caller ∉ waiting) :
    List.Forall₂ (fun other frame =>
      Function.update phase caller new other = .sent frame) waiting
        frames := by
  induction senders with
  | nil => exact .nil
  | cons first _ inductionHypothesis =>
      rw [List.mem_cons, not_or] at absent
      exact .cons ((Function.update_of_ne (Ne.symm absent.1) _ _).trans first)
        (inductionHypothesis absent.2)

def Orderly (server : Answering) (conn : Pooled Caller) : Prop :=
  Attributed server conn ∧ (conn.usable = true → Aligned server conn)

theorem Moves.preserves [DecidableEq Caller] {move : Move Caller}
    (moves : Moves server move conn next) (inTurn : InTurn move conn)
    (orderly : Orderly server conn) : Orderly server next := by
  obtain ⟨attributed, aligned⟩ := orderly
  cases moves with
  | @write _ caller frame usable idle =>
      have ready := aligned usable
      have absent : caller ∉ conn.waiting := by
        intro member
        obtain ⟨sent, phase⟩ := ready.waiting_sent member
        rw [idle] at phase
        cases phase
      refine ⟨fun other sent reply returned => ?_, fun _ => ⟨?_, ?_⟩⟩
      · by_cases same : other = caller
        · subst same
          simp only [Function.update_self] at returned
          cases returned
        · simp only [Function.update_of_ne same] at returned
          exact attributed other sent reply returned
      · exact List.nodup_append.mpr ⟨ready.distinct,
          List.nodup_singleton caller, by
            rintro other member _ (single : _ ∈ [caller]) rfl
            rw [List.mem_singleton] at single
            exact absent (single ▸ member)⟩
      · obtain ⟨answered, replies, senders⟩ := ready.ordered
        refine ⟨answered, replies, ?_⟩
        simp only
        rw [← List.append_assoc]
        refine List.rel_append (senders_update senders absent) ?_
        exact .cons (Function.update_self _ _ _) .nil
  | @answer _ frame reply rest usable queued answers =>
      have ready := aligned usable
      refine ⟨attributed, fun _ => ⟨ready.distinct, ?_⟩⟩
      obtain ⟨answered, replies, senders⟩ := ready.ordered
      refine ⟨answered ++ [frame],
        List.rel_append replies (.cons answers .nil), ?_⟩
      rw [queued] at senders
      rw [List.append_assoc]
      exact senders
  | @read _ caller frame reply rest usable sent queued =>
      have ready := aligned usable
      obtain ⟨answered, replies, senders⟩ := ready.ordered
      have distinct := ready.distinct
      -- the first answer goes to the call that waits longest
      obtain ⟨others, waiting⟩ : ∃ others, conn.waiting = caller :: others :=
        List.head?_eq_some_iff.mp inTurn
      rw [queued] at replies
      rw [waiting] at senders distinct
      obtain ⟨absent, othersDistinct⟩ := List.nodup_cons.mp distinct
      cases replies with
      | @cons request _ front _ answers restAnswers =>
          rw [List.cons_append] at senders
          cases senders with
          | cons first restSenders =>
              rw [sent] at first
              cases first
              refine ⟨fun other frame' reply' returned => ?_, fun _ => ⟨?_, ?_⟩⟩
              · by_cases same : other = caller
                · subst same
                  simp only [Function.update_self] at returned
                  cases returned
                  exact ⟨server.echo answers, answers⟩
                · simp only [Function.update_of_ne same] at returned
                  exact attributed other frame' reply' returned
              · simp only
                rw [waiting, List.erase_cons_head]
                exact othersDistinct
              · simp only
                rw [waiting, List.erase_cons_head]
                exact ⟨front, restAnswers, senders_update restSenders absent⟩
  | @fail _ caller _ =>
      refine ⟨fun other frame reply returned => ?_, fun usable => ?_⟩
      · by_cases same : other = caller
        · subst same
          simp only [Function.update_self] at returned
          cases returned
        · simp only [Function.update_of_ne same] at returned
          exact attributed other frame reply returned
      · cases usable

/-- When calls read in the order in which they wrote, every answer reaches the
call it belongs to. -/
theorem requestNode_attributed [DecidableEq Caller] (server : Answering)
    {nextID : UInt32} {moves : List (Move Caller)} {final : Pooled Caller}
    (execution : Execution (Guarded InTurn (Moves server))
      (Pooled.dialed nextID) moves final) : Attributed server final := by
  have initial : Orderly server (Pooled.dialed nextID : Pooled Caller) := by
    refine ⟨fun caller frame reply returned => ?_, fun _ => ⟨?_, ?_⟩⟩
    · cases returned
    · exact List.nodup_nil
    · exact ⟨[], .nil, .nil⟩
  have orderly : Orderly server final :=
    execution.invariant
      (fun holds guarded => guarded.2.preserves guarded.1 holds) initial
  exact orderly.1

/-! ## Two calls -/

/-- How `dispatch` answers `CmdPing`. -/
def ponging : Answering where
  answers frame answer :=
    frame.cmd = cmdPing ∧ answer = replyTo frame statusOK "PONG"
  echo both := by
    rw [both.2]
    rfl

/-- The frame of `Client.Ping` once it has a number. -/
def ping (correlationID : UInt32) : Frame :=
  ⟨cmdPing, 0, correlationID, []⟩

theorem requestNode_attributed_sample :
    ∃ final : Pooled Nat,
      Execution (Guarded InTurn (Moves ponging)) (Pooled.dialed 0)
        [.write 0 (ping 0), .write 1 (ping 0),
          .answer (replyTo (ping 1) statusOK "PONG"), .read 0] final ∧
        final.phase 0 = .returned (ping 1)
          (replyTo (ping 1) statusOK "PONG") ∧
        Attributed ponging final := by
  have turns : ∃ final : Pooled Nat,
      Execution (Guarded InTurn (Moves ponging)) (Pooled.dialed 0)
        [.write 0 (ping 0), .write 1 (ping 0),
          .answer (replyTo (ping 1) statusOK "PONG"), .read 0] final ∧
        final.phase 0 = .returned (ping 1)
          (replyTo (ping 1) statusOK "PONG") :=
    ⟨_, .cons ⟨trivial, .write rfl rfl⟩ (.cons ⟨trivial, .write rfl rfl⟩
      (.cons ⟨trivial, .answer rfl rfl ⟨rfl, rfl⟩⟩
        (.cons ⟨rfl, .read rfl rfl rfl⟩ (.nil _)))), rfl⟩
  obtain ⟨final, execution, phase⟩ := turns
  exact ⟨final, execution, phase, requestNode_attributed ponging execution⟩

/-- Two calls write, and the second one reads first: it gets the answer to the
frame of the other. -/
theorem requestNode_swaps :
    ∃ final : Pooled Nat,
      Execution (Moves ponging) (Pooled.dialed 0)
        [.write 0 (ping 0), .write 1 (ping 0),
          .answer (replyTo (ping 1) statusOK "PONG"), .read 1] final ∧
        final.phase 1 = .returned (ping 2)
          (replyTo (ping 1) statusOK "PONG") ∧
        ¬ Attributed ponging final := by
  refine ⟨_, .cons (.write rfl rfl) (.cons (.write rfl rfl)
    (.cons (.answer rfl rfl ⟨rfl, rfl⟩) (.cons (.read rfl rfl rfl)
      (.nil _)))), rfl, fun attributed => ?_⟩
  have swapped := (attributed 1 (ping 2)
    (replyTo (ping 1) statusOK "PONG") rfl).1
  exact absurd swapped (by decide)

end Turns

end CocoDB.Cluster
