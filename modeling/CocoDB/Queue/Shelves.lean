import CocoDB.BTree.Run
import CocoDB.Queue.DeadLetter

/-!
# Engines over different shelves

An engine writes to its tree and reads from it only at the start, so that a run
does the same over every shelf.  Over a list of calls it tells which calls of the
tree a queue makes.
-/

namespace CocoDB.Queue

open Lib
open BTree (TreeOp)

/-- The tree of a queue in a database; errors of `Insert` and `Delete` are
discarded. -/
instance treeShelf {σ : Type} [Pager σ] : Shelf (BTree.Tree σ) where
  insert key value tree := (BTree.insert key value tree).2
  delete key tree := (BTree.delete key tree).2

instance ledger : Shelf (List TreeOp) where
  insert key value past := past ++ [.insert key value]
  delete key past := past ++ [.delete key]

instance mapShelf : Shelf (Bytes → Option Bytes) where
  insert key value map := (TreeOp.insert key value).effect map
  delete key map := (TreeOp.delete key).effect map

/-- A function that carries the calls on one shelf to another. -/
structure Transports {τ υ : Type} [Shelf τ] [Shelf υ] (carry : τ → υ) :
    Prop where
  insert : ∀ key value shelf,
    carry (Shelf.insert key value shelf) =
      Shelf.insert key value (carry shelf)
  delete : ∀ key shelf,
    carry (Shelf.delete key shelf) = Shelf.delete key (carry shelf)

def replay {σ : Type} [Pager σ] (start : BTree.Tree σ) (ops : List TreeOp) :
    BTree.Tree σ :=
  ops.foldl (fun tree op => (op.apply tree).2) start

def replayMap (start : Bytes → Option Bytes) (ops : List TreeOp) :
    Bytes → Option Bytes :=
  ops.foldl (fun map op => op.effect map) start

theorem transports_replay {σ : Type} [Pager σ] (start : BTree.Tree σ) :
    Transports (replay start) :=
  ⟨fun _ _ _ => List.foldl_append, fun _ _ => List.foldl_append⟩

theorem transports_replayMap (start : Bytes → Option Bytes) :
    Transports (replayMap start) :=
  ⟨fun _ _ _ => List.foldl_append, fun _ _ => List.foldl_append⟩

section Engines

variable {τ υ : Type}

def Engine.onShelf (carry : τ → υ) (engine : Engine τ) : Engine υ :=
  { engine with tree := carry engine.tree }

def QueueEngine.onShelf (carry : τ → υ) (queue : QueueEngine τ) :
    QueueEngine υ where
  main := queue.main.onShelf carry
  dlq := queue.dlq

variable [Shelf τ] [Shelf υ] {carry : τ → υ} {engine : Engine τ}
  {queue : QueueEngine τ}

theorem accept_onShelf (transports : Transports carry) (message : Message) :
    (engine.onShelf carry).accept message =
      (engine.accept message).onShelf carry := by
  unfold Engine.onShelf Engine.accept Engine.record Engine.pushReady
    Engine.store
  simp only [transports.insert]

theorem enqueue_onShelf (transports : Transports carry) (message : Message)
    (now : Int64) :
    (engine.onShelf carry).enqueue message now =
      ((engine.enqueue message now).1,
        (engine.enqueue message now).2.onShelf carry) := by
  unfold Engine.enqueue
  rcases check : engine.dedup.checkOrSet message.dedupID
    engine.cfg.dedupWindow now with ⟨isNew, dedup⟩
  have same : (engine.onShelf carry).dedup.checkOrSet message.dedupID
      (engine.onShelf carry).cfg.dedupWindow now = (isNew, dedup) := check
  have isClosed : (engine.onShelf carry).closed = engine.closed := rfl
  rw [same, isClosed]
  simp only
  by_cases duplicate : isNew = false
  · rw [if_pos duplicate, if_pos duplicate]
    rfl
  · rw [if_neg duplicate, if_neg duplicate]
    by_cases closed : engine.closed = true
    · rw [if_pos closed, if_pos closed]
      rfl
    · rw [if_neg closed, if_neg closed]
      refine Prod.ext rfl ?_
      simp only
      by_cases unnamed : message.id = []
      · rw [if_pos unnamed, if_pos unnamed]
        exact @accept_onShelf _ _ _ _ _
          { engine with dedup := dedup, msgSeq := engine.msgSeq + 1 }
          transports _
      · rw [if_neg unnamed, if_neg unnamed]
        exact @accept_onShelf _ _ _ _ _ { engine with dedup := dedup }
          transports _

theorem deliver_onShelf (transports : Transports carry) (message : Message)
    (timeout now : Int64) :
    (engine.onShelf carry).deliver message timeout now =
      (engine.deliver message timeout now).onShelf carry := by
  unfold Engine.onShelf Engine.deliver Engine.record Engine.store
    Engine.popReady
  simp only [transports.insert]

theorem dropTop_onShelf (transports : Transports carry) (message : Message) :
    (engine.onShelf carry).dropTop message =
      (engine.dropTop message).onShelf carry := by
  unfold Engine.onShelf Engine.dropTop Engine.record Engine.forget
    Engine.popReady
  simp only [transports.delete]

theorem scanReady_onShelf (transports : Transports carry)
    (timeout now : Int64) (turns : Nat) :
    (engine.onShelf carry).scanReady timeout now turns =
      ((engine.scanReady timeout now turns).1,
        (engine.scanReady timeout now turns).2.onShelf carry) := by
  induction turns generalizing engine with
  | zero => rfl
  | succ turns inductionHypothesis =>
      rw [Engine.scanReady, Engine.scanReady]
      have heap : (engine.onShelf carry).readyHeap = engine.readyHeap := rfl
      rw [heap]
      cases engine.readyHeap.head? with
      | none => rfl
      | some message =>
          simp only
          by_cases expired : Engine.isExpired now message = true
          · rw [if_pos expired, if_pos expired, dropTop_onShelf transports]
            exact inductionHypothesis
          · rw [if_neg expired, if_neg expired]
            by_cases delayed : now < message.visibleAt
            · rw [if_pos delayed, if_pos delayed]
            · rw [if_neg delayed, if_neg delayed,
                deliver_onShelf transports]

theorem dequeue_onShelf (transports : Transports carry)
    (visibilityTimeout now : Int64) :
    (engine.onShelf carry).dequeue visibilityTimeout now =
      ((engine.dequeue visibilityTimeout now).1,
        (engine.dequeue visibilityTimeout now).2.onShelf carry) := by
  unfold Engine.dequeue
  simp only [scanReady_onShelf transports]
  by_cases closed : engine.closed = true
  · rw [if_pos closed, if_pos (show (engine.onShelf carry).closed = true from
      closed)]
  · rw [if_neg closed, if_neg (show ¬ (engine.onShelf carry).closed = true from
      closed)]
    rfl

theorem ack_onShelf (transports : Transports carry) (msgID : Bytes) :
    ((engine.onShelf carry).ack msgID).2 =
      (engine.ack msgID).2.onShelf carry := by
  unfold Engine.ack
  have flight : (engine.onShelf carry).inFlight = engine.inFlight := rfl
  rw [flight]
  cases engine.inFlight.lookup msgID with
  | none => rfl
  | some message =>
      unfold Engine.onShelf Engine.record Engine.forget Engine.ground
      simp only [transports.delete]

theorem extend_onShelf (transports : Transports carry) (msgID : Bytes)
    (duration now : Int64) :
    ((engine.onShelf carry).extend msgID duration now).2 =
      (engine.extend msgID duration now).2.onShelf carry := by
  unfold Engine.extend
  have flight : (engine.onShelf carry).inFlight = engine.inFlight := rfl
  rw [flight]
  cases engine.inFlight.lookup msgID with
  | none => rfl
  | some message =>
      unfold Engine.onShelf
      simp only [transports.insert]

theorem requeue_onShelf (transports : Transports carry) (id : Bytes)
    (message : Message) (now : Int64) :
    (engine.onShelf carry).requeue id message now =
      (engine.requeue id message now).onShelf carry := by
  unfold Engine.onShelf Engine.requeue Engine.pushReady Engine.ground
  simp only [transports.insert]

theorem deadLetter_onShelf (transports : Transports carry) (event : Event)
    (id : Bytes) (message : Message) (now : Int64) :
    (queue.onShelf carry).deadLetter event id message now =
      (queue.deadLetter event id message now).onShelf carry := by
  unfold QueueEngine.onShelf QueueEngine.deadLetter Engine.onShelf
    Engine.record Engine.forget Engine.ground
  simp only [transports.delete]

theorem nack_onShelf (transports : Transports carry) (msgID : Bytes)
    (requeue : Bool) (now : Int64) :
    ((queue.onShelf carry).nack msgID requeue now).2 =
      (queue.nack msgID requeue now).2.onShelf carry := by
  unfold QueueEngine.nack
  have flight : (queue.onShelf carry).main.inFlight = queue.main.inFlight := rfl
  rw [flight]
  cases queue.main.inFlight.lookup msgID with
  | none => rfl
  | some message =>
      simp only
      by_cases lapsed : requeue = false ∨ message.maxRetries ≤ message.retryCount
      · rw [if_pos lapsed, if_pos lapsed]
        exact deadLetter_onShelf transports _ _ _ _
      · rw [if_neg lapsed, if_neg lapsed]
        exact congrArg (QueueEngine.mk · queue.dlq)
          (requeue_onShelf transports _ _ _)

theorem lapse_onShelf (transports : Transports carry) (now : Int64)
    (entry : Sigma fun _ : Bytes => Message) :
    (queue.onShelf carry).lapse now entry =
      (queue.lapse now entry).onShelf carry := by
  unfold QueueEngine.lapse
  by_cases early : now < entry.2.visibleAt
  · rw [if_pos early, if_pos early]
  · rw [if_neg early, if_neg early]
    by_cases lapsed : entry.2.maxRetries ≤ entry.2.retryCount
    · rw [if_pos lapsed, if_pos lapsed]
      exact deadLetter_onShelf transports _ _ _ _
    · rw [if_neg lapsed, if_neg lapsed]
      exact congrArg (QueueEngine.mk · queue.dlq)
        (requeue_onShelf transports _ _ _)

theorem lapses_onShelf (transports : Transports carry) (now : Int64)
    (entries : List (Sigma fun _ : Bytes => Message)) :
    entries.foldl (QueueEngine.lapse now) (queue.onShelf carry) =
      (entries.foldl (QueueEngine.lapse now) queue).onShelf carry := by
  induction entries generalizing queue with
  | nil => rfl
  | cons entry rest inductionHypothesis =>
      rw [List.foldl_cons, List.foldl_cons, lapse_onShelf transports,
        inductionHypothesis]

theorem checkInFlightAndDelayed_onShelf (transports : Transports carry)
    (order : Shuffle (Sigma fun _ : Bytes => Message)) (now : Int64) :
    (queue.onShelf carry).checkInFlightAndDelayed order now =
      (queue.checkInFlightAndDelayed order now).onShelf carry := by
  unfold QueueEngine.checkInFlightAndDelayed
  have isClosed : (queue.onShelf carry).main.closed = queue.main.closed := rfl
  rw [isClosed]
  by_cases closed : queue.main.closed = true
  · rw [if_pos closed, if_pos closed]
  · rw [if_neg closed, if_neg closed]
    exact lapses_onShelf transports now _

theorem perform_onShelf (transports : Transports carry) (call : Call) :
    (queue.onShelf carry).perform call =
      (queue.perform call).onShelf carry := by
  cases call with
  | enqueue request now =>
      exact congrArg (fun outcome => QueueEngine.mk (Prod.snd outcome) queue.dlq)
        (enqueue_onShelf transports request.message now)
  | dequeue visibilityTimeout now =>
      exact congrArg (fun outcome => QueueEngine.mk (Prod.snd outcome) queue.dlq)
        (dequeue_onShelf transports visibilityTimeout now)
  | ack msgID =>
      exact congrArg (QueueEngine.mk · queue.dlq)
        (ack_onShelf transports msgID)
  | nack msgID requeue now => exact nack_onShelf transports msgID requeue now
  | extend msgID duration now =>
      exact congrArg (QueueEngine.mk · queue.dlq)
        (extend_onShelf transports msgID duration now)
  | checkInFlightAndDelayed order now =>
      exact checkInFlightAndDelayed_onShelf transports order now

theorem operate_onShelf (transports : Transports carry) (call : SystemCall) :
    (queue.onShelf carry).operate call =
      (queue.operate call).onShelf carry := by
  cases call with
  | main call => exact perform_onShelf transports call
  | dlq call => rfl

end Engines

end CocoDB.Queue
