import CocoDB.Lib.HeapSift
import CocoDB.Queue.Durable

/-!
# Which message is delivered

`Dequeue` looks at the first message of the ready heap only.  The heap is
ordered by priority before visibility, so the first message whose time to live
is not over may be one that is still delayed.
-/

namespace CocoDB.Queue

open Lib
open BTree (LeafItem)

/-! ## The order of the heap -/

theorem less_weakOrder : WeakOrder less := by
  constructor
  · intro a b before
    simp only [less] at before ⊢
    by_cases same : a.priority = b.priority
    · rw [if_neg (not_not.mpr same), decide_eq_true_eq] at before
      rw [if_neg (not_not.mpr same.symm), decide_eq_false_iff_not]
      exact Int64.lt_asymm before
    · rw [if_pos same, decide_eq_true_eq] at before
      rw [if_pos (Ne.symm same), decide_eq_false_iff_not]
      exact UInt8.lt_asymm before
  · intro a b c first second
    simp only [less] at first second ⊢
    by_cases ab : a.priority = b.priority
    · by_cases bc : b.priority = c.priority
      · rw [if_neg (not_not.mpr ab), decide_eq_false_iff_not,
          Int64.not_lt] at first
        rw [if_neg (not_not.mpr bc), decide_eq_false_iff_not,
          Int64.not_lt] at second
        rw [if_neg (not_not.mpr (ab.trans bc)), decide_eq_false_iff_not,
          Int64.not_lt]
        exact Int64.le_trans second first
      · rw [if_pos bc] at second
        rw [if_pos (ab ▸ bc), ab]
        exact second
    · rw [if_pos ab, decide_eq_false_iff_not, UInt8.not_lt] at first
      have lower : a.priority < b.priority := UInt8.lt_of_le_of_ne first ab
      have upper : b.priority ≤ c.priority := by
        by_cases bc : b.priority = c.priority
        · exact UInt8.le_of_eq bc
        · rwa [if_pos bc, decide_eq_false_iff_not, UInt8.not_lt] at second
      have below := UInt8.lt_of_lt_of_le lower upper
      rw [if_pos (UInt8.ne_of_lt below), decide_eq_false_iff_not]
      exact UInt8.lt_asymm below

theorem not_less {message top : Message} (after : less message top = false) :
    message.priority ≤ top.priority ∧
      (message.priority = top.priority → top.visibleAt ≤ message.visibleAt) := by
  simp only [less] at after
  by_cases same : message.priority = top.priority
  · rw [if_neg (not_not.mpr same), decide_eq_false_iff_not,
      Int64.not_lt] at after
    exact ⟨UInt8.le_of_eq same, fun _ => after⟩
  · rw [if_pos same, decide_eq_false_iff_not, UInt8.not_lt] at after
    exact ⟨after, fun equal => absurd equal same⟩

/-! ## One pass of the scan -/

def Engine.InOrder {τ : Type} (engine : Engine τ) : Prop :=
  Heaped less engine.readyHeap.length engine.readyHeap

def Deliverable (now : Int64) (message : Message) : Prop :=
  Engine.isExpired now message = false ∧ message.visibleAt ≤ now

structure Best (now : Int64) (ready : List Message) (chosen : Message) :
    Prop where
  member : chosen ∈ ready
  deliverable : Deliverable now chosen
  first : ∀ other, other ∈ ready → Deliverable now other →
    other.priority ≤ chosen.priority ∧
      (other.priority = chosen.priority →
        chosen.visibleAt ≤ other.visibleAt)

/-- No delayed message has a priority above all that may be delivered. -/
def Unblocked (now : Int64) (ready : List Message) : Prop :=
  ∀ waiting, waiting ∈ ready → Engine.isExpired now waiting = false →
    now < waiting.visibleAt →
    ∃ other, other ∈ ready ∧ Deliverable now other ∧
      waiting.priority ≤ other.priority

section Scan

variable {τ : Type} {engine : Engine τ}

theorem Engine.InOrder.popReady (ordered : engine.InOrder) :
    engine.popReady.InOrder :=
  heapPop_heaped less_weakOrder ordered

theorem Engine.InOrder.pushReady (ordered : engine.InOrder) (message : Message) :
    (engine.pushReady message).InOrder :=
  heapPush_heaped less_weakOrder ordered message

theorem Engine.InOrder.top (ordered : engine.InOrder) {top message : Message}
    (first : engine.readyHeap.head? = some top)
    (member : message ∈ engine.readyHeap) : less message top = false :=
  ordered.head less_weakOrder first member

variable [Shelf τ]

/-- The scan drops messages whose time to live is over and stops at the first
that is not: it delivers it, or finds it delayed. -/
theorem scanReady_spec (ordered : engine.InOrder) (timeout now : Int64)
    {turns : Nat} (enough : engine.readyHeap.length < turns)
    (some' : ∃ message, message ∈ engine.readyHeap ∧
      Engine.isExpired now message = false) :
    ∃ top, top ∈ engine.readyHeap ∧ Engine.isExpired now top = false ∧
      (∀ other, other ∈ engine.readyHeap →
        Engine.isExpired now other = false → less other top = false) ∧
      (engine.scanReady timeout now turns).1 =
        if now < top.visibleAt then none
        else some (Engine.leased top timeout now) := by
  induction turns generalizing engine with
  | zero => omega
  | succ turns inductionHypothesis =>
      obtain ⟨message, member, alive⟩ := some'
      cases heap : engine.readyHeap with
      | nil =>
          rw [heap] at member
          cases member
      | cons top rest =>
          have first : engine.readyHeap.head? = some top := by rw [heap]; rfl
          cases expired : Engine.isExpired now top with
          | true =>
              obtain ⟨_, left⟩ := @heapPop_cons _ priorityHeap top rest
              have popped : (engine.dropTop top).readyHeap.Perm rest := by
                rw [← heap] at left
                exact left
              have smaller : (engine.dropTop top).readyHeap.length < turns := by
                rw [popped.length_eq]
                rw [heap, List.length_cons] at enough
                omega
              have still : message ∈ (engine.dropTop top).readyHeap := by
                rw [popped.mem_iff]
                rw [heap] at member
                rcases List.mem_cons.mp member with rfl | later
                · exact absurd (expired.symm.trans alive) nofun
                · exact later
              have dropped : (engine.dropTop top).InOrder :=
                ordered.popReady
              obtain ⟨chosen, here, living, before, outcome⟩ :=
                inductionHypothesis dropped smaller ⟨message, still, alive⟩
              refine ⟨chosen, List.mem_cons_of_mem _ (popped.mem_iff.mp here),
                living, fun other among breathing => ?_, ?_⟩
              · rcases List.mem_cons.mp among with rfl | later
                · exact absurd (expired.symm.trans breathing) nofun
                · exact before other (popped.mem_iff.mpr later) breathing
              · simp only [Engine.scanReady, first, expired, if_true]
                exact outcome
          | false =>
              refine ⟨top, List.mem_cons_self, expired, fun other among _ => ?_, ?_⟩
              · exact ordered.top first (heap ▸ among)
              · simp only [Engine.scanReady, first, expired, Bool.false_eq_true,
                  if_false]
                split <;> rfl

theorem scanReady_best_iff (ordered : engine.InOrder) (timeout now : Int64)
    (some' : ∃ message, message ∈ engine.readyHeap ∧
      Deliverable now message) :
    (∃ chosen, Best now engine.readyHeap chosen ∧
      (engine.scanReady timeout now (engine.readyHeap.length + 1)).1 =
        some (Engine.leased chosen timeout now)) ↔
      Unblocked now engine.readyHeap := by
  obtain ⟨message, member, deliverable⟩ := some'
  obtain ⟨top, here, alive, before, outcome⟩ :=
    scanReady_spec ordered timeout now (Nat.lt_succ_self _)
      ⟨message, member, deliverable.1⟩
  constructor
  · rintro ⟨chosen, best, found⟩ waiting among living delayed
    rw [outcome] at found
    split at found
    · cases found
    · rename_i visible
      exact ⟨top, here, ⟨alive, Int64.not_lt.mp visible⟩,
        (not_less (before waiting among living)).1⟩
  · intro unblocked
    have visible : ¬ now < top.visibleAt := by
      intro delayed
      obtain ⟨other, among, free, higher⟩ := unblocked top here alive delayed
      have compared := not_less (before other among free.1)
      have same := UInt8.le_antisymm compared.1 higher
      have early := Int64.le_trans (compared.2 same) free.2
      exact Int64.not_lt.mpr early delayed
    refine ⟨top, ⟨here, ⟨alive, Int64.not_lt.mp visible⟩, ?_⟩, ?_⟩
    · intro other among free
      exact not_less (before other among free.1)
    · rw [outcome, if_neg visible]

end Scan

section Runs

variable {τ : Type} [Shelf τ]

/-- `NewQueueEngine` of a main queue, after the messages it restored. -/
def QueueEngine.started (name : Bytes) (cfg : Config) (tree : τ)
    (messages : List Message) : QueueEngine τ :=
  let fresh := QueueEngine.newQueueEngine name cfg tree
  { fresh with
    main := messages.foldl (fun engine message => engine.pushReady message)
      fresh.main }

omit [Shelf τ] in

omit [Shelf τ] in

def QueueEngine.InOrder (queue : QueueEngine τ) : Prop :=
  queue.main.InOrder ∧ ∀ dlq, queue.dlq = some dlq → dlq.InOrder

omit [Shelf τ] in
theorem started_inOrder (name : Bytes) (cfg : Config) (tree : τ)
    (messages : List Message) :
    (QueueEngine.started name cfg tree messages).InOrder := by
  have none : ∀ {κ : Type} {engine : Engine κ}, engine.readyHeap = [] →
      engine.InOrder := by
    intro κ engine empty i start bound
    rw [empty] at bound
    cases bound
  have pushed : ∀ (messages : List Message) {engine : Engine τ},
      engine.InOrder → (messages.foldl
        (fun engine message => engine.pushReady message) engine).InOrder := by
    intro messages
    induction messages with
    | nil => exact id
    | cons message rest inductionHypothesis =>
        intro engine ordered
        exact inductionHypothesis (ordered.pushReady message)
  refine ⟨pushed messages (none rfl), fun dlq found => ?_⟩
  simp only [QueueEngine.started, QueueEngine.newQueueEngine] at found
  split at found
  · rw [← Option.some.inj found]
    exact none rfl
  · cases found

section Calls

variable {engine : Engine τ} {queue : QueueEngine τ}

theorem Engine.InOrder.enqueue (ordered : engine.InOrder) (message : Message)
    (now : Int64) : (engine.enqueue message now).2.InOrder := by
  simp only [Engine.enqueue]
  split
  · exact ordered
  · split
    · exact ordered
    · apply Engine.InOrder.pushReady
      split <;> exact ordered

theorem Engine.InOrder.dequeue (ordered : engine.InOrder)
    (visibilityTimeout now : Int64) :
    (engine.dequeue visibilityTimeout now).2.InOrder :=
  dequeue_invariant (fun holds _ _ => holds.popReady)
    (fun holds _ => holds.popReady) ordered

theorem QueueEngine.InOrder.deadLetter (ordered : queue.InOrder)
    (event : Event) (id : Bytes) (message : Message) (now : Int64) :
    (queue.deadLetter event id message now).InOrder := by
  refine ⟨ordered.1, fun dlq found => ?_⟩
  obtain ⟨before, held, rfl⟩ := Option.map_eq_some_iff.mp found
  exact (ordered.2 before held).enqueue _ now

theorem QueueEngine.InOrder.requeue (ordered : queue.InOrder) (id : Bytes)
    (message : Message) (now : Int64) :
    QueueEngine.InOrder
      { queue with main := queue.main.requeue id message now } :=
  ⟨Engine.InOrder.pushReady ordered.1 _, ordered.2⟩

theorem QueueEngine.InOrder.perform (ordered : queue.InOrder) (call : Call) :
    (queue.perform call).InOrder := by
  cases call with
  | enqueue request now => exact ⟨ordered.1.enqueue _ now, ordered.2⟩
  | dequeue visibilityTimeout now =>
      exact ⟨ordered.1.dequeue visibilityTimeout now, ordered.2⟩
  | ack msgID =>
      exact ⟨ack_invariant (fun _ => ordered.1) ordered.1, ordered.2⟩
  | nack msgID requeue now =>
      exact nack_invariant (fun _ _ => ordered.deadLetter _ _ _ now)
        (fun _ _ => ordered.requeue _ _ now) ordered
  | extend msgID duration now =>
      have kept : (queue.main.extend msgID duration now).2.InOrder := by
        simp only [Engine.extend]
        split
        · exact ordered.1
        · exact ordered.1
      exact ⟨kept, ordered.2⟩
  | checkInFlightAndDelayed order now =>
      exact checkInFlightAndDelayed_invariant
        (fun holds _ => lapse_invariant
          (fun _ _ => QueueEngine.InOrder.deadLetter holds _ _ _ now)
          (fun _ _ => QueueEngine.InOrder.requeue holds _ _ now) holds) ordered

end Calls

theorem QueueEngine.InOrder.operates {call : SystemCall}
    {before after : QueueEngine τ} (ordered : before.InOrder)
    (operated : Operates call before after) : after.InOrder := by
  rw [operated]
  cases call with
  | main call => exact ordered.perform call
  | dlq call =>
      refine ⟨ordered.1, fun dlq found => ?_⟩
      obtain ⟨old, held, rfl⟩ := Option.map_eq_some_iff.mp found
      have alone : QueueEngine.InOrder (QueueEngine.mk old none) :=
        ⟨ordered.2 old held, nofun⟩
      exact (alone.perform call).1

/-- The main engine and the dead-letter engine of a queue in any run return
the best message they may deliver, exactly when no delayed message whose time to
live is not over has a priority above all those that may be delivered. -/
theorem dequeue_best_iff {name : Bytes} {cfg : Config} {tree : τ}
    {messages : List Message} {calls : List SystemCall}
    {queue : QueueEngine τ}
    (run : Execution Operates (.started name cfg tree messages) calls queue)
    (timeout now : Int64) :
    ((∃ message, message ∈ queue.main.readyHeap ∧ Deliverable now message) →
      ((∃ chosen, Best now queue.main.readyHeap chosen ∧
        (queue.main.scanReady timeout now
          (queue.main.readyHeap.length + 1)).1 =
            some (Engine.leased chosen timeout now)) ↔
        Unblocked now queue.main.readyHeap)) ∧
    ∀ dlq, queue.dlq = some dlq →
      (∃ message, message ∈ dlq.readyHeap ∧ Deliverable now message) →
      ((∃ chosen, Best now dlq.readyHeap chosen ∧
        (dlq.scanReady timeout now (dlq.readyHeap.length + 1)).1 =
          some (Engine.leased chosen timeout now)) ↔
        Unblocked now dlq.readyHeap) := by
  have ordered : queue.InOrder :=
    run.invariant (fun holds operated => holds.operates operated)
      (started_inOrder name cfg tree messages)
  exact ⟨scanReady_best_iff ordered.1 timeout now, fun dlq found =>
    scanReady_best_iff (ordered.2 dlq found) timeout now⟩

end Runs

/-! ### An urgent message with a delay -/

def timedRequest (priority : UInt8) (visibleAt : Int64) : Request where
  payload := []
  priority := priority
  dedupID := []
  maxRetries := 0
  visibleAt := visibleAt
  expireAt := 0

def twoMessages (first second : Request) : QueueEngine Unit :=
  ((QueueEngine.started [113] defaultConfig () []).operate
    (.main (.enqueue first 5))).operate (.main (.enqueue second 5))

theorem twoMessages_run (first second : Request) :
    Execution Operates (QueueEngine.started [113] defaultConfig () [])
      [.main (.enqueue first 5), .main (.enqueue second 5)]
      (twoMessages first second) :=
  .cons rfl (.cons rfl (.nil _))

/-- The message with priority 1 may be delivered at time 6, the one with
priority 200 not before time 100. -/
def blockedQueue : QueueEngine Unit :=
  twoMessages (timedRequest 200 100) (timedRequest 1 5)

theorem delayed_blocks :
    Execution Operates (QueueEngine.started [113] defaultConfig () [])
      [.main (.enqueue (timedRequest 200 100) 5),
        .main (.enqueue (timedRequest 1 5) 5)] blockedQueue ∧
      (∃ message, message ∈ blockedQueue.main.readyHeap ∧
        Deliverable 6 message) ∧
      (blockedQueue.main.scanReady 30 6
        (blockedQueue.main.readyHeap.length + 1)).1 = none := by
  refine ⟨twoMessages_run _ _, ?_, by decide⟩
  exact ⟨_, List.mem_cons_of_mem _ List.mem_cons_self, by decide, by decide⟩

def readyQueue : QueueEngine Unit :=
  twoMessages (timedRequest 1 100) (timedRequest 200 5)

theorem dequeue_best_ready :
    ∃ chosen, Best 6 readyQueue.main.readyHeap chosen ∧
      (readyQueue.main.scanReady 30 6
        (readyQueue.main.readyHeap.length + 1)).1 =
          some (Engine.leased chosen 30 6) := by
  have top : ∃ message, message ∈ readyQueue.main.readyHeap ∧
      Deliverable 6 message ∧ message.priority = 200 :=
    ⟨_, List.mem_cons_self, ⟨by decide, by decide⟩, by decide⟩
  have below : ∀ message, message ∈ readyQueue.main.readyHeap →
      message.priority ≤ 200 := by decide
  obtain ⟨message, member, free, urgent⟩ := top
  have known := (dequeue_best_iff (twoMessages_run (timedRequest 1 100)
    (timedRequest 200 5)) 30 6).1 ⟨message, member, free⟩
  exact known.mpr fun waiting among _ _ =>
    ⟨message, member, free, urgent ▸ below waiting among⟩

end CocoDB.Queue
