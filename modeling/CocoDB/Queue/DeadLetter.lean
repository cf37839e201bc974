import CocoDB.Queue.Delivery

/-!
# The dead-letter queue

A main queue and its dead-letter queue, both in use.  A message that was handed
over arrives with the deliveries it has used up, and the dead-letter engine
counts on: it drops the message as soon as its own `Nack` or its own sweep finds
the limit reached.
-/

namespace CocoDB.Queue

open Lib

/-- A call on the main queue or on the dead-letter queue. -/
inductive SystemCall where
  | main (call : Call)
  | dlq (call : Call)

section System

variable {τ : Type} [Shelf τ]

def Engine.performDead (dlq : Engine τ) (call : Call) : Engine τ :=
  ((QueueEngine.mk dlq none).perform call).main

def QueueEngine.operate (queue : QueueEngine τ) : SystemCall → QueueEngine τ
  | .main call => queue.perform call
  | .dlq call => { queue with dlq := queue.dlq.map (·.performDead call) }

def Operates (call : SystemCall) (before after : QueueEngine τ) : Prop :=
  after = before.operate call

end System

/-- Messages have no time to live, and none is enqueued on the dead-letter queue
directly. -/
def Ordinary : SystemCall → Prop
  | .main (.enqueue request _) => request.expireAt = 0
  | .dlq (.enqueue _ _) => False
  | _ => True

/-- The call does not find a message of the engine at its limit: neither one that
is to be requeued nor one whose lease is over. -/
def Spared {τ : Type} (dlq : Engine τ) : Call → Prop
  | .nack msgID true _ => ∀ message,
      dlq.inFlight.lookup msgID = some message →
        message.retryCount < message.maxRetries
  | .checkInFlightAndDelayed _ now => ∀ id message,
      dlq.inFlight.lookup id = some message → message.visibleAt ≤ now →
        message.retryCount < message.maxRetries
  | _ => True

def SparedCall {τ : Type} : SystemCall → QueueEngine τ → Prop
  | .main _, _ => True
  | .dlq call, queue => ∀ dlq, queue.dlq = some dlq → Spared dlq call

namespace Event

def rejectedID : Event → Option Bytes
  | rejected id => some id
  | _ => none

def lostID : Event → Option Bytes
  | expired id => some id
  | exhausted id => some id
  | _ => none

end Event

/-! ## What the dead-letter engine keeps -/

/-- No message in the engine has a time to live. -/
structure Untimed {τ : Type} (engine : Engine τ) : Prop where
  ready : ∀ message ∈ engine.readyHeap, message.expireAt = 0
  flying : ∀ id message, engine.inFlight.lookup id = some message →
    message.expireAt = 0

/-- The dead-letter engine holds what was handed over, except what was
acknowledged or rejected. -/
structure Tended {τ : Type} (handed : List Bytes) (dlq : Engine τ) :
    Prop where
  conserved : Conserved dlq
  untimed : Untimed dlq
  isOpen : dlq.closed = false
  accepted : dlq.listed Event.acceptedID = handed
  unspent : dlq.listed Event.lostID = []

section Keeping

variable {τ : Type} {engine after : Engine τ} {message : Message}
  {handed : List Bytes}

theorem Untimed.moved (untimed : Untimed engine) (moved : Moved engine after) :
    Untimed after := by
  refine ⟨fun new member => ?_, fun id new held => ?_⟩
  · rcases moved.ready new member with stayed | ⟨id, old, held, renewed, _⟩
    · exact untimed.ready new stayed
    · rw [renewed.expireAt]
      exact untimed.flying id old held
  · obtain ⟨old, before, renewed⟩ := moved.flying id new held
    rw [renewed.expireAt]
    exact untimed.flying id old before

theorem Untimed.not_expired (untimed : Untimed engine)
    (top : engine.readyHeap.head? = some message) (now : Int64) :
    Engine.isExpired now message = false := by
  unfold Engine.isExpired
  rw [untimed.ready message (List.mem_of_mem_head? top)]
  rfl

theorem Tended.moved (tended : Tended handed engine)
    (moved : Moved engine after) (stillOpen : after.closed = engine.closed)
    (unspent : after.listed Event.lostID = engine.listed Event.lostID) :
    Tended handed after :=
  ⟨tended.conserved.moved moved, tended.untimed.moved moved,
    stillOpen.trans tended.isOpen, moved.acceptedIDs.trans tended.accepted,
    unspent.trans tended.unspent⟩

theorem Tended.gone (tended : Tended handed engine) :
    engine.listed Event.handedID = engine.listed Event.rejectedID ∧
      engine.listed Event.expiredID = [] := by
  have lost := List.filterMap_eq_nil_iff.mp tended.unspent
  constructor
  · refine List.filterMap_congr fun event member => ?_
    have kept := lost event member
    cases event <;> first | rfl | cases kept
  · refine List.filterMap_eq_nil_iff.mpr fun event member => ?_
    have kept := lost event member
    cases event <;> first | rfl | cases kept

variable [Shelf τ]

theorem Untimed.deliver (untimed : Untimed engine)
    (top : engine.readyHeap.head? = some message) (timeout now : Int64) :
    Untimed (engine.deliver message timeout now) := by
  obtain ⟨rest, shape, perm⟩ := popReady_spec top
  have flight : (engine.deliver message timeout now).inFlight =
      engine.inFlight.insert message.id
        (Engine.leased message timeout now) := rfl
  refine ⟨fun new member => ?_, fun id new held => ?_⟩
  · refine untimed.ready new ?_
    rw [shape]
    exact List.mem_cons_of_mem _ (perm.mem_iff.mp member)
  · rw [flight] at held
    by_cases same : id = message.id
    · subst same
      rw [AList.lookup_insert] at held
      cases held
      exact untimed.ready message (List.mem_of_mem_head? top)
    · rw [AList.lookup_insert_ne same] at held
      exact untimed.flying id new held

theorem Untimed.accept (untimed : Untimed engine)
    (plain : message.expireAt = 0) : Untimed (engine.accept message) := by
  have pushed : (engine.accept message).readyHeap.Perm
      (message :: engine.readyHeap) := heapPush_perm _ _
  refine ⟨fun new member => ?_, untimed.flying⟩
  rcases List.mem_cons.mp (pushed.mem_iff.mp member) with rfl | old
  · exact plain
  · exact untimed.ready new old

theorem Untimed.dequeue (untimed : Untimed engine)
    (visibilityTimeout now : Int64) :
    Untimed (engine.dequeue visibilityTimeout now).2 := by
  apply dequeue_invariant _ _ untimed
  · intro engine message holds top expired
    rw [holds.not_expired top now] at expired
    cases expired
  · intro timeout engine message holds top
    exact holds.deliver top timeout now

theorem Tended.dequeue (tended : Tended handed engine)
    (visibilityTimeout now : Int64) :
    Tended handed (engine.dequeue visibilityTimeout now).2 := by
  apply dequeue_invariant _ _ tended
  · intro engine message holds top expired
    rw [holds.untimed.not_expired top now] at expired
    cases expired
  · intro timeout engine message holds top
    exact ⟨holds.conserved.deliver top timeout now,
      holds.untimed.deliver top timeout now, holds.isOpen, holds.accepted,
      holds.unspent⟩

theorem Tended.accept (tended : Tended handed engine)
    (free : message.id ∉ handed) (plain : message.expireAt = 0) :
    Tended (message.id :: handed) (engine.accept message) := by
  rw [← tended.accepted] at free
  refine ⟨tended.conserved.accept free, tended.untimed.accept plain,
    tended.isOpen, ?_, tended.unspent⟩
  rw [← tended.accepted]
  rfl

/-! ## Calls on the dead-letter queue -/

theorem Tended.requeue (tended : Tended handed engine) {id : Bytes}
    (held : engine.inFlight.lookup id = some message)
    (left : message.retryCount < message.maxRetries) (now : Int64) :
    Tended handed (engine.requeue id message now) :=
  tended.moved
    (moved_requeue held (tended.conserved.named id message held) left) rfl rfl

def Remaining (engine : Engine τ) (handed : List Bytes)
    (queue : QueueEngine τ) : Prop :=
  queue.dlq = none ∧ Tended handed queue.main ∧
    ∀ id message, queue.main.inFlight.lookup id = some message →
      engine.inFlight.lookup id = some message

theorem Remaining.lapse {queue : QueueEngine τ}
    (remaining : Remaining engine handed queue) {id : Bytes}
    (held : queue.main.inFlight.lookup id = some message) {now : Int64}
    (spared : ∀ id message, engine.inFlight.lookup id = some message →
      message.visibleAt ≤ now → message.retryCount < message.maxRetries) :
    Remaining engine handed (queue.lapse now ⟨id, message⟩) := by
  have initial := remaining.2.2
  apply lapse_invariant _ _ remaining
  · intro visible spent
    exact absurd (spared id message (initial id message held) visible)
      (not_lt.mpr spent)
  · intro _ left
    exact ⟨remaining.1, remaining.2.1.requeue held left now,
      fun other new found => initial other new (lookup_ground found)⟩

theorem Tended.performDead (tended : Tended handed engine) {call : Call}
    (ordinary : Ordinary (.dlq call)) (spared : Spared engine call) :
    Tended handed (engine.performDead call) := by
  unfold Engine.performDead
  cases call with
  | enqueue request now => exact ordinary.elim
  | dequeue visibilityTimeout now =>
      exact tended.dequeue visibilityTimeout now
  | ack msgID =>
      refine @ack_invariant _ _ engine (Tended handed) msgID ?_ tended
      intro message held
      exact tended.moved (moved_gone held (.inl rfl)) rfl rfl
  | nack msgID requeue now =>
      refine @nack_invariant _ _ ⟨engine, none⟩
        (fun queue => Tended handed queue.main) msgID requeue now ?_ ?_ tended
      · intro message held spent
        cases requeue with
        | false =>
            exact tended.moved (moved_gone held (.inr (.inl rfl))) rfl rfl
        | true =>
            have left := spared message held
            exact absurd left (not_lt.mpr (spent.resolve_left nofun))
      · intro message held left
        exact tended.requeue held left now
  | extend msgID duration now =>
      show Tended handed (engine.extend msgID duration now).2
      refine tended.moved (moved_extend msgID duration now) ?_ ?_
      · unfold Engine.extend
        split <;> rfl
      · unfold Engine.extend
        split <;> rfl
  | checkInFlightAndDelayed order now =>
      have swept : Remaining engine handed
          ((QueueEngine.mk engine none).checkInFlightAndDelayed order now) :=
        checkInFlightAndDelayed_invariant
          (fun holds held => Remaining.lapse holds held spared)
          ⟨rfl, tended, fun _ _ held => held⟩
      exact swept.2.1

end Keeping

/-! ## Both queues -/

structure Keeping {τ : Type} (queue : QueueEngine τ) : Prop where
  sound : Sound queue.main
  untimed : Untimed queue.main
  dead : ∃ dlq, queue.dlq = some dlq ∧
    Tended (queue.main.listed Event.handedID) dlq

section Both

variable {τ : Type} [Shelf τ] {queue : QueueEngine τ}

omit [Shelf τ] in
theorem Conserved.not_handed {engine : Engine τ}
    (conserved : Conserved engine) {id : Bytes} {message : Message}
    (held : engine.inFlight.lookup id = some message) :
    id ∉ engine.listed Event.handedID := by
  have once := List.nodup_iff_count_le_one.mp conserved.distinct id
  have placed := conserved.placed id
  have flying := List.count_pos_iff.mpr (mem_keys_of_lookup held)
  unfold Engine.places at placed
  rw [← List.count_eq_zero]
  omega

theorem Keeping.deadLetter (keeping : Keeping queue) {id : Bytes}
    {message : Message} (held : queue.main.inFlight.lookup id = some message)
    {event : Event} (gone : event = .rejected id ∨ event = .exhausted id)
    (now : Int64) : Keeping (queue.deadLetter event id message now) := by
  obtain ⟨sound, untimed, dlq, found, tended⟩ := keeping
  have moved := moved_gone held (.inr gone)
  have named := sound.conserved.named id message held
  obtain ⟨grown, sameID⟩ := deadLetter_spec found tended.isOpen
    (sound.hasID held) event id now
  refine ⟨sound.moved moved, untimed.moved moved, _, grown, ?_⟩
  have handed : (queue.deadLetter event id message now).main.listed
      Event.handedID = id :: queue.main.listed Event.handedID := by
    refine (listed_record _ event).trans ?_
    rcases gone with rfl | rfl <;> rfl
  have free := sound.conserved.not_handed held
  rw [handed, ← named, ← sameID]
  refine tended.accept ?_ (untimed.flying id message held)
  rw [sameID, named]
  exact free

theorem Keeping.requeue (keeping : Keeping queue) {id : Bytes}
    {message : Message} (held : queue.main.inFlight.lookup id = some message)
    (left : message.retryCount < message.maxRetries) (now : Int64) :
    Keeping { queue with main := queue.main.requeue id message now } := by
  obtain ⟨sound, untimed, dead⟩ := keeping
  have moved := @moved_requeue _ _ _ _ _ now held
    (sound.conserved.named id message held) left
  exact ⟨sound.moved moved, untimed.moved moved, dead⟩

theorem Keeping.lapse (keeping : Keeping queue) {id : Bytes}
    {message : Message} (held : queue.main.inFlight.lookup id = some message)
    (now : Int64) : Keeping (queue.lapse now ⟨id, message⟩) := by
  apply lapse_invariant _ _ keeping
  · intro _ _
    exact keeping.deadLetter held (.inr rfl) now
  · intro _ left
    exact keeping.requeue held left now

theorem Untimed.perform {call : Call} (quiet : call.hands = false)
    (ordinary : Ordinary (.main call)) (untimed : Untimed queue.main) :
    Untimed (queue.perform call).main := by
  cases call with
  | enqueue request now =>
      show Untimed (queue.main.enqueue request.message now).2
      unfold Engine.enqueue
      simp only
      split
      · exact ⟨untimed.ready, untimed.flying⟩
      · split
        · exact ⟨untimed.ready, untimed.flying⟩
        · exact Untimed.accept ⟨untimed.ready, untimed.flying⟩ ordinary
  | dequeue visibilityTimeout now =>
      exact untimed.dequeue visibilityTimeout now
  | ack msgID =>
      refine @ack_invariant _ _ queue.main Untimed msgID ?_ untimed
      intro message held
      exact untimed.moved (moved_gone held (.inl rfl))
  | extend msgID duration now =>
      exact untimed.moved (moved_extend msgID duration now)
  | nack msgID requeue now => cases quiet
  | checkInFlightAndDelayed order now => cases quiet

theorem Operates.keeping {call : SystemCall} {after : QueueEngine τ}
    (operates : Operates call queue after) (ordinary : Ordinary call)
    (spared : SparedCall call queue) (keeping : Keeping queue) :
    Keeping after := by
  rw [operates]
  cases call with
  | dlq call =>
      obtain ⟨sound, untimed, dlq, found, tended⟩ := keeping
      refine ⟨sound, untimed, dlq.performDead call, ?_,
        tended.performDead ordinary (spared dlq found)⟩
      show queue.dlq.map _ = _
      rw [found]
      rfl
  | main call =>
      by_cases quiet : call.hands = false
      · obtain ⟨sound, untimed, dead⟩ := keeping
        obtain ⟨sameDLQ, sameHanded⟩ := @perform_quiet _ queue _ call quiet
        refine ⟨Performs.sound rfl sound, untimed.perform quiet ordinary, ?_⟩
        show ∃ dlq, (queue.perform call).dlq = some dlq ∧
          Tended ((queue.perform call).main.listed Event.handedID) dlq
        rw [sameDLQ, sameHanded]
        exact dead
      · cases call with
        | nack msgID requeue now =>
            refine @nack_invariant _ _ queue Keeping msgID requeue now ?_ ?_
              keeping
            · intro message held _
              exact keeping.deadLetter held (nack_event msgID requeue) now
            · intro message held left
              exact keeping.requeue held left now
        | checkInFlightAndDelayed order now =>
            exact checkInFlightAndDelayed_invariant
              (fun holds held => Keeping.lapse holds held now) keeping
        | _ => exact absurd rfl quiet

/-- When no call on the dead-letter queue finds a message at its limit, a message
that was handed over is there, ready or in flight, until it is acknowledged or
rejected. -/
theorem dlq_keeps {name : Bytes} {cfg : Config} {tree : τ}
    (enabled : cfg.enableDLQ = true) {calls : List SystemCall}
    {final : QueueEngine τ}
    (execution : Execution
      (Guarded (fun call queue => Ordinary call ∧ SparedCall call queue)
        Operates) (QueueEngine.newQueueEngine name cfg tree) calls final) :
    ∃ dlq, final.dlq = some dlq ∧
      ∀ id ∈ final.main.listed Event.handedID,
        (dlq.readyHeap.map Message.id).count id +
          dlq.inFlight.keys.count id +
          (dlq.listed Event.ackedID).count id +
          (dlq.listed Event.rejectedID).count id = 1 := by
  have start : Keeping (QueueEngine.newQueueEngine name cfg tree) := by
    refine ⟨sound_new name cfg tree, ⟨?_, ?_⟩, _, if_pos enabled,
      ⟨⟨fun id => rfl, List.nodup_nil, ?_⟩, ⟨?_, ?_⟩, rfl, rfl, rfl⟩⟩
    all_goals
      intros
      contradiction
  have keeping : Keeping final :=
    execution.invariant
      (fun holds guarded =>
        Operates.keeping guarded.2 guarded.1.1 guarded.1.2 holds) start
  obtain ⟨_, _, dlq, found, tended⟩ := keeping
  refine ⟨dlq, found, fun id member => ?_⟩
  have placed := tended.conserved.placed id
  rw [List.count_eq_one_of_mem tended.conserved.distinct
    (tended.accepted ▸ member)] at placed
  obtain ⟨rejected, none⟩ := tended.gone
  unfold Engine.places at placed
  rw [rejected, none, List.count_nil] at placed
  omega

end Both

/-! ## One message on its way -/

def once : Request := { twice with maxRetries := 1 }

def burying : List SystemCall :=
  [.main (.enqueue once 5), .main (.dequeue 0 6),
    .main (.nack (messageID 5 1) true 7), .dlq (.dequeue 0 8)]

theorem dlq_keeps_sample :
    ∃ final dlq, Execution
        (Guarded (fun call queue => Ordinary call ∧ SparedCall call queue)
          Operates) newQueue burying final ∧
      final.dlq = some dlq ∧
      messageID 5 1 ∈ final.main.listed Event.handedID ∧
      (dlq.readyHeap.map Message.id).count (messageID 5 1) +
        dlq.inFlight.keys.count (messageID 5 1) +
        (dlq.listed Event.ackedID).count (messageID 5 1) +
        (dlq.listed Event.rejectedID).count (messageID 5 1) = 1 := by
  have execution : Execution
      (Guarded (fun call queue => Ordinary call ∧ SparedCall call queue)
        Operates) newQueue burying (burying.foldl QueueEngine.operate newQueue) :=
    .cons ⟨⟨rfl, trivial⟩, rfl⟩ (.cons ⟨⟨trivial, trivial⟩, rfl⟩
      (.cons ⟨⟨trivial, trivial⟩, rfl⟩
        (.cons ⟨⟨trivial, fun _ _ => trivial⟩, rfl⟩ (.nil _))))
  obtain ⟨dlq, found, each⟩ := dlq_keeps rfl execution
  have handed : messageID 5 1 ∈ (burying.foldl QueueEngine.operate
      newQueue).main.listed Event.handedID := by
    decide
  exact ⟨_, dlq, execution, found, handed, each _ handed⟩

/-- The worker that got the message from the dead-letter queue gives it back, and
it is lost. -/
theorem dlq_loses :
    ∃ final dlq, Execution (Guarded (fun call _ => Ordinary call) Operates)
        newQueue (burying ++ [.dlq (.nack (messageID 5 1) true 9)]) final ∧
      final.dlq = some dlq ∧
      messageID 5 1 ∈ final.main.listed Event.handedID ∧
      dlq.readyHeap = [] ∧ dlq.inFlight.keys = [] ∧
      messageID 5 1 ∉ dlq.listed Event.ackedID ∧
      messageID 5 1 ∉ dlq.listed Event.rejectedID := by
  refine ⟨_, _, .cons ⟨rfl, rfl⟩ (.cons ⟨trivial, rfl⟩ (.cons ⟨trivial, rfl⟩
    (.cons ⟨trivial, rfl⟩ (.cons ⟨trivial, rfl⟩ (.nil _))))), rfl, ?_, ?_, ?_,
    ?_, ?_⟩
  all_goals decide

end CocoDB.Queue
