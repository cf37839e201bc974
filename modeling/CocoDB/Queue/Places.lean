import CocoDB.Lib.Run
import CocoDB.Queue.Engine

/-!
# Where messages are

The calls of a queue as steps, and the places of its messages: the ready heap,
the messages in flight, and three lists of those that are gone.  Every change
that a call makes moves one message from one place to another.
-/

namespace CocoDB.Queue

open Lib

/-- What `Queue.Enqueue` puts into a message; the other fields are zero. -/
structure Request where
  payload : Bytes
  priority : UInt8
  dedupID : Bytes
  maxRetries : Int
  visibleAt : Int64
  expireAt : Int64

def Request.message (request : Request) : Message where
  id := []
  queue := []
  payload := request.payload
  priority := request.priority
  dedupID := request.dedupID
  retryCount := 0
  maxRetries := request.maxRetries
  state := ⟨0⟩
  visibleAt := request.visibleAt
  createdAt := 0
  expireAt := request.expireAt

inductive Call where
  | enqueue (request : Request) (now : Int64)
  | dequeue (visibilityTimeout now : Int64)
  | ack (msgID : Bytes)
  | nack (msgID : Bytes) (requeue : Bool) (now : Int64)
  | extend (msgID : Bytes) (duration now : Int64)
  | checkInFlightAndDelayed
      (order : Shuffle (Sigma fun _ : Bytes => Message)) (now : Int64)

section Calls

variable {τ : Type} [Shelf τ]

def QueueEngine.perform (queue : QueueEngine τ) : Call → QueueEngine τ
  | .enqueue request now =>
      { queue with main := (queue.main.enqueue request.message now).2 }
  | .dequeue visibilityTimeout now =>
      { queue with main := (queue.main.dequeue visibilityTimeout now).2 }
  | .ack msgID => { queue with main := (queue.main.ack msgID).2 }
  | .nack msgID requeue now => (queue.nack msgID requeue now).2
  | .extend msgID duration now =>
      { queue with main := (queue.main.extend msgID duration now).2 }
  | .checkInFlightAndDelayed order now =>
      queue.checkInFlightAndDelayed order now

def Performs (call : Call) (before after : QueueEngine τ) : Prop :=
  after = before.perform call

end Calls

namespace Event

def message : Event → Option Message
  | accepted message => some message
  | _ => none

def acceptedID : Event → Option Bytes
  | accepted message => some message.id
  | _ => none

def deliveredID : Event → Option Bytes
  | delivered id => some id
  | _ => none

def ackedID : Event → Option Bytes
  | acked id => some id
  | _ => none

def expiredID : Event → Option Bytes
  | expired id => some id
  | _ => none

def handedID : Event → Option Bytes
  | rejected id => some id
  | exhausted id => some id
  | _ => none

end Event

section Places

variable {τ : Type}

namespace Engine

def listed (kind : Event → Option Bytes) (engine : Engine τ) : List Bytes :=
  engine.log.filterMap kind

def places (engine : Engine τ) (id : Bytes) : Nat :=
  (engine.readyHeap.map Message.id).count id + engine.inFlight.keys.count id +
    (engine.listed Event.ackedID).count id +
    (engine.listed Event.expiredID).count id +
    (engine.listed Event.handedID).count id

end Engine

/-- Every accepted message is in one place, and messages in flight are filed
under their identifiers. -/
structure Conserved (engine : Engine τ) : Prop where
  placed : ∀ id,
    engine.places id = (engine.listed Event.acceptedID).count id
  distinct : (engine.listed Event.acceptedID).Nodup
  named : ∀ id message, engine.inFlight.lookup id = some message →
    message.id = id

end Places

/-! ## Changes that move messages -/

structure Renewed (old new : Message) : Prop where
  id : new.id = old.id
  payload : new.payload = old.payload
  priority : new.priority = old.priority
  retryCount : new.retryCount = old.retryCount
  maxRetries : new.maxRetries = old.maxRetries
  expireAt : new.expireAt = old.expireAt

theorem Renewed.refl (message : Message) : Renewed message message :=
  ⟨rfl, rfl, rfl, rfl, rfl, rfl⟩

section Changes

variable {τ : Type} {engine after : Engine τ} {message : Message}

/-- A change that moves messages and delivers none. -/
structure Moved (engine after : Engine τ) : Prop where
  cfg : after.cfg = engine.cfg
  msgSeq : after.msgSeq = engine.msgSeq
  accepted : ∀ original,
    .accepted original ∈ after.log ↔ .accepted original ∈ engine.log
  acceptedIDs : after.listed Event.acceptedID = engine.listed Event.acceptedID
  delivered : after.listed Event.deliveredID = engine.listed Event.deliveredID
  places : ∀ id, after.places id = engine.places id
  ready : ∀ new ∈ after.readyHeap, new ∈ engine.readyHeap ∨
    ∃ id old, engine.inFlight.lookup id = some old ∧ Renewed old new ∧
      new.retryCount < new.maxRetries
  flying : ∀ id new, after.inFlight.lookup id = some new →
    ∃ old, engine.inFlight.lookup id = some old ∧ Renewed old new

theorem Conserved.moved (conserved : Conserved engine)
    (moved : Moved engine after) : Conserved after := by
  refine ⟨fun id => ?_, ?_, fun id new held => ?_⟩
  · rw [moved.places, moved.acceptedIDs]
    exact conserved.placed id
  · rw [moved.acceptedIDs]
    exact conserved.distinct
  · obtain ⟨old, before, renewed⟩ := moved.flying id new held
    exact renewed.id.trans (conserved.named id old before)

theorem popReady_spec (top : engine.readyHeap.head? = some message) :
    ∃ rest, engine.readyHeap = message :: rest ∧
      engine.popReady.readyHeap.Perm rest := by
  obtain ⟨rest, shape⟩ := List.head?_eq_some_iff.mp top
  refine ⟨rest, shape, ?_⟩
  have popped := (@heapPop_cons _ priorityHeap message rest).2
  unfold Engine.popReady
  rw [shape]
  exact popped

theorem listed_record (kind : Event → Option Bytes) (event : Event) :
    (engine.record event).listed kind =
      (kind event).toList ++ engine.listed kind := by
  unfold Engine.listed Engine.record
  cases found : kind event with
  | none => rw [List.filterMap_cons_none found]; rfl
  | some id => rw [List.filterMap_cons_some found]; rfl

theorem mem_keys_of_lookup {id : Bytes}
    (held : engine.inFlight.lookup id = some message) :
    id ∈ engine.inFlight.keys := by
  rw [← AList.mem_keys, ← AList.lookup_isSome, held]
  rfl

theorem count_ground {id : Bytes}
    (held : engine.inFlight.lookup id = some message) (other : Bytes) :
    engine.inFlight.keys.count other =
      (engine.ground id).inFlight.keys.count other +
        if id == other then 1 else 0 := by
  have erased := @List.perm_cons_erase _ instBEqOfDecidableEq _ id _
    (mem_keys_of_lookup held)
  unfold Engine.ground
  rw [AList.keys_erase, erased.count_eq other, List.count_cons]

theorem lookup_ground {id other : Bytes} {new : Message}
    (held : (engine.ground id).inFlight.lookup other = some new) :
    engine.inFlight.lookup other = some new := by
  unfold Engine.ground at held
  by_cases same : other = id
  · subst same
    rw [AList.lookup_erase] at held
    cases held
  · rw [AList.lookup_erase_ne same] at held
    exact held

theorem Conserved.top_alone (conserved : Conserved engine)
    {rest : List Message} (shape : engine.readyHeap = message :: rest) :
    message.id ∉ engine.inFlight.keys ∧
      message.id ∉ rest.map Message.id := by
  have once := List.nodup_iff_count_le_one.mp conserved.distinct message.id
  have placed := conserved.placed message.id
  unfold Engine.places at placed
  rw [shape, List.map_cons, List.count_cons_self] at placed
  constructor
  · rw [← List.count_eq_zero]
    omega
  · rw [← List.count_eq_zero]
    omega

variable [Shelf τ]

theorem moved_dropTop (top : engine.readyHeap.head? = some message) :
    Moved engine (engine.dropTop message) := by
  obtain ⟨rest, shape, perm⟩ := popReady_spec top
  refine ⟨rfl, rfl, fun original => ?_, rfl, rfl, fun id => ?_,
    fun new member => ?_, fun id new held => ⟨new, held, .refl new⟩⟩
  · simp [Engine.dropTop, Engine.record, Engine.forget, Engine.popReady]
  · have ready := (perm.map Message.id).count_eq id
    have before : (engine.readyHeap.map Message.id).count id =
        (message.id :: rest.map Message.id).count id := by
      rw [shape, List.map_cons]
    have expired : ((engine.dropTop message).listed Event.expiredID).count id =
        (message.id :: engine.listed Event.expiredID).count id := rfl
    have acked : (engine.dropTop message).listed Event.ackedID =
        engine.listed Event.ackedID := rfl
    have handed : (engine.dropTop message).listed Event.handedID =
        engine.listed Event.handedID := rfl
    have flying : (engine.dropTop message).inFlight = engine.inFlight := rfl
    have heap : (engine.dropTop message).readyHeap =
        engine.popReady.readyHeap := rfl
    unfold Engine.places
    rw [expired, acked, handed, flying, heap, ready, before, List.count_cons,
      List.count_cons]
    omega
  · refine .inl ?_
    rw [shape]
    exact List.mem_cons_of_mem _ (perm.mem_iff.mp member)

theorem moved_gone {id : Bytes} {event : Event}
    (held : engine.inFlight.lookup id = some message)
    (gone : event = .acked id ∨ event = .rejected id ∨
      event = .exhausted id) :
    Moved engine (((engine.ground id).forget id).record event) := by
  have kinds : event.acceptedID = none ∧ event.deliveredID = none ∧
      event.expiredID = none ∧ ∀ other,
        event.ackedID.toList.count other + event.handedID.toList.count other =
          if id == other then 1 else 0 := by
    rcases gone with rfl | rfl | rfl
    all_goals
      refine ⟨rfl, rfl, rfl, fun other => ?_⟩
      simp [Event.ackedID, Event.handedID, List.count_singleton]
  obtain ⟨accepted, delivered, expired, counts⟩ := kinds
  refine ⟨rfl, rfl, fun original => ?_, ?_, ?_, fun other => ?_,
    fun new member => .inl member,
    fun other new found => ⟨new, lookup_ground found, .refl new⟩⟩
  · have different : event ≠ .accepted original := by
      rintro rfl
      cases accepted
    refine ⟨fun member => ?_, List.mem_cons_of_mem _⟩
    rcases List.mem_cons.mp member with same | later
    · exact absurd same.symm different
    · exact later
  · rw [listed_record, accepted]
    rfl
  · rw [listed_record, delivered]
    rfl
  · have flight := count_ground held other
    have one := counts other
    unfold Engine.places
    rw [listed_record, listed_record, listed_record, expired,
      List.count_append, List.count_append, List.count_append, flight]
    have same : (((engine.ground id).forget id).record event).inFlight =
        (engine.ground id).inFlight := rfl
    have heap : (((engine.ground id).forget id).record event).readyHeap =
        engine.readyHeap := rfl
    have logs : ∀ kind, ((engine.ground id).forget id).listed kind =
        engine.listed kind := fun kind => rfl
    rw [same, heap, logs, logs, logs]
    simp only [Option.toList_none, List.count_nil]
    omega

theorem moved_requeue {id : Bytes} {now : Int64}
    (held : engine.inFlight.lookup id = some message)
    (named : message.id = id)
    (left : message.retryCount < message.maxRetries) :
    Moved engine (engine.requeue id message now) := by
  have pushed : (engine.requeue id message now).readyHeap.Perm
      ({ message with state := .ready, visibleAt := now } ::
        engine.readyHeap) := heapPush_perm _ _
  refine ⟨rfl, rfl, fun original => .rfl, rfl, rfl, fun other => ?_,
    fun new member => ?_,
    fun other new found => ⟨new, lookup_ground found, .refl new⟩⟩
  · have ready := (pushed.map Message.id).count_eq other
    have flight := count_ground held other
    have same : (engine.requeue id message now).inFlight =
        (engine.ground id).inFlight := rfl
    have logs : ∀ kind, (engine.requeue id message now).listed kind =
        engine.listed kind := fun kind => rfl
    unfold Engine.places
    rw [ready, List.map_cons, List.count_cons, same, logs, logs, logs, flight]
    simp only [named]
    omega
  · rcases List.mem_cons.mp (pushed.mem_iff.mp member) with rfl | stayed
    · exact .inr ⟨id, message, held, ⟨rfl, rfl, rfl, rfl, rfl, rfl⟩, left⟩
    · exact .inl stayed

theorem moved_extend (id : Bytes) (duration now : Int64) :
    Moved engine (engine.extend id duration now).2 := by
  unfold Engine.extend
  split
  · exact ⟨rfl, rfl, fun original => .rfl, rfl, rfl, fun other => rfl,
      fun new member => .inl member,
      fun other new found => ⟨new, found, .refl new⟩⟩
  · rename_i message held
    refine ⟨rfl, rfl, fun original => .rfl, rfl, rfl, fun other => ?_,
      fun new member => .inl member, fun other new found => ?_⟩
    · have erased := @List.perm_cons_erase _ instBEqOfDecidableEq _ id _
        (mem_keys_of_lookup held)
      have flight : ∀ new : Message,
          (engine.inFlight.insert id new).keys.count other =
            engine.inFlight.keys.count other := fun new => by
        rw [AList.keys_insert, erased.count_eq other]
      unfold Engine.places
      rw [flight]
      rfl
    · by_cases same : other = id
      · subst same
        rw [AList.lookup_insert] at found
        cases found
        exact ⟨message, held, rfl, rfl, rfl, rfl, rfl, rfl⟩
      · rw [AList.lookup_insert_ne same] at found
        exact ⟨new, found, .refl new⟩

/-! ## Deliveries and new messages -/

theorem Conserved.deliver (conserved : Conserved engine)
    (top : engine.readyHeap.head? = some message) (timeout now : Int64) :
    Conserved (engine.deliver message timeout now) := by
  obtain ⟨rest, shape, perm⟩ := popReady_spec top
  obtain ⟨notFlying, _⟩ := conserved.top_alone shape
  have flight : (engine.deliver message timeout now).inFlight =
      engine.inFlight.insert message.id
        (Engine.leased message timeout now) := rfl
  refine ⟨fun id => ?_, conserved.distinct, fun id new held => ?_⟩
  · have ready := (perm.map Message.id).count_eq id
    have keys : (engine.deliver message timeout now).inFlight.keys.count id =
        (message.id :: engine.inFlight.keys).count id := by
      rw [flight, AList.keys_insert,
        @List.erase_of_not_mem _ instBEqOfDecidableEq _ _ _ notFlying]
    have before := conserved.placed id
    unfold Engine.places at before ⊢
    rw [shape, List.map_cons, List.count_cons] at before
    have heap : (engine.deliver message timeout now).readyHeap =
        engine.popReady.readyHeap := rfl
    have acked : (engine.deliver message timeout now).listed Event.ackedID =
        engine.listed Event.ackedID := rfl
    have expired : (engine.deliver message timeout now).listed
        Event.expiredID = engine.listed Event.expiredID := rfl
    have handed : (engine.deliver message timeout now).listed Event.handedID =
        engine.listed Event.handedID := rfl
    have accepted : (engine.deliver message timeout now).listed
        Event.acceptedID = engine.listed Event.acceptedID := rfl
    rw [heap, ready, keys, List.count_cons, acked, expired, handed, accepted,
      ← before]
    omega
  · rw [flight] at held
    by_cases same : id = message.id
    · subst same
      rw [AList.lookup_insert] at held
      cases held
      rfl
    · rw [AList.lookup_insert_ne same] at held
      exact conserved.named id new held

theorem Conserved.accept (conserved : Conserved engine)
    (free : message.id ∉ engine.listed Event.acceptedID) :
    Conserved (engine.accept message) := by
  have pushed : (engine.accept message).readyHeap.Perm
      (message :: engine.readyHeap) := heapPush_perm _ _
  have accepted : (engine.accept message).listed Event.acceptedID =
      message.id :: engine.listed Event.acceptedID := rfl
  refine ⟨fun id => ?_, ?_, conserved.named⟩
  · have before := conserved.placed id
    have ready := (pushed.map Message.id).count_eq id
    have flight : (engine.accept message).inFlight = engine.inFlight := rfl
    have acked : (engine.accept message).listed Event.ackedID =
        engine.listed Event.ackedID := rfl
    have expired : (engine.accept message).listed Event.expiredID =
        engine.listed Event.expiredID := rfl
    have handed : (engine.accept message).listed Event.handedID =
        engine.listed Event.handedID := rfl
    unfold Engine.places at before ⊢
    rw [ready, flight, acked, expired, handed, accepted, List.map_cons,
      List.count_cons, List.count_cons, ← before]
    omega
  · rw [accepted]
    exact List.nodup_cons.mpr ⟨free, conserved.distinct⟩

end Changes

section Rules

variable {τ : Type} [Shelf τ] {engine : Engine τ} {queue : QueueEngine τ}

theorem scanReady_invariant {Inv : Engine τ → Prop} {timeout now : Int64}
    (drops : ∀ {engine : Engine τ} {message}, Inv engine →
      engine.readyHeap.head? = some message →
      Engine.isExpired now message = true → Inv (engine.dropTop message))
    (delivers : ∀ {engine : Engine τ} {message}, Inv engine →
      engine.readyHeap.head? = some message →
      Inv (engine.deliver message timeout now))
    (holds : Inv engine) (turns : Nat) :
    Inv (engine.scanReady timeout now turns).2 := by
  induction turns generalizing engine with
  | zero => exact holds
  | succ turns inductionHypothesis =>
      rw [Engine.scanReady]
      split
      · exact holds
      · rename_i message top
        split
        · rename_i expired
          exact inductionHypothesis (drops holds top expired)
        · split
          · exact holds
          · exact delivers holds top

theorem dequeue_invariant {Inv : Engine τ → Prop}
    {visibilityTimeout now : Int64}
    (drops : ∀ {engine : Engine τ} {message}, Inv engine →
      engine.readyHeap.head? = some message →
      Engine.isExpired now message = true → Inv (engine.dropTop message))
    (delivers : ∀ {timeout} {engine : Engine τ} {message}, Inv engine →
      engine.readyHeap.head? = some message →
      Inv (engine.deliver message timeout now))
    (holds : Inv engine) : Inv (engine.dequeue visibilityTimeout now).2 := by
  unfold Engine.dequeue
  simp only
  split
  · exact holds
  · exact scanReady_invariant drops delivers holds _

theorem ack_invariant {Inv : Engine τ → Prop} {msgID : Bytes}
    (gone : ∀ {message}, engine.inFlight.lookup msgID = some message →
      Inv (((engine.ground msgID).forget msgID).record (.acked msgID)))
    (holds : Inv engine) : Inv (engine.ack msgID).2 := by
  unfold Engine.ack
  split
  · exact holds
  · rename_i message held
    exact gone held

theorem nack_invariant {Inv : QueueEngine τ → Prop} {msgID : Bytes}
    {requeue : Bool} {now : Int64}
    (buries : ∀ {message}, queue.main.inFlight.lookup msgID = some message →
      requeue = false ∨ message.maxRetries ≤ message.retryCount →
      Inv (queue.deadLetter
        (if requeue then .exhausted msgID else .rejected msgID) msgID message
        now))
    (requeues : ∀ {message},
      queue.main.inFlight.lookup msgID = some message →
      message.retryCount < message.maxRetries →
      Inv { queue with main := queue.main.requeue msgID message now })
    (holds : Inv queue) : Inv (queue.nack msgID requeue now).2 := by
  unfold QueueEngine.nack
  split
  · exact holds
  · rename_i message held
    split
    · rename_i spent
      exact buries held spent
    · rename_i left
      rw [not_or, not_le] at left
      exact requeues held left.2

theorem lapse_invariant {Inv : QueueEngine τ → Prop} {now : Int64}
    {id : Bytes} {message : Message}
    (buries : message.visibleAt ≤ now →
      message.maxRetries ≤ message.retryCount →
      Inv (queue.deadLetter (.exhausted id) id message now))
    (requeues : message.visibleAt ≤ now →
      message.retryCount < message.maxRetries →
      Inv { queue with main := queue.main.requeue id message now })
    (holds : Inv queue) : Inv (queue.lapse now ⟨id, message⟩) := by
  unfold QueueEngine.lapse
  split
  · exact holds
  · rename_i visible
    split
    · rename_i spent
      exact buries (Int64.not_lt.mp visible) spent
    · rename_i left
      exact requeues (Int64.not_lt.mp visible) (not_le.mp left)

end Rules

section Loop

variable {τ : Type} [Shelf τ] {queue : QueueEngine τ}

theorem lapse_lookup {now : Int64} {entry : Sigma fun _ : Bytes => Message}
    {other : Bytes} (different : other ≠ entry.1) :
    (queue.lapse now entry).main.inFlight.lookup other =
      queue.main.inFlight.lookup other := by
  unfold QueueEngine.lapse
  split
  · rfl
  · split
    · exact AList.lookup_erase_ne different
    · exact AList.lookup_erase_ne different

theorem lapses_invariant {Inv : QueueEngine τ → Prop} {now : Int64}
    (preserved : ∀ {queue : QueueEngine τ} {id message}, Inv queue →
      queue.main.inFlight.lookup id = some message →
      Inv (queue.lapse now ⟨id, message⟩))
    {entries : List (Sigma fun _ : Bytes => Message)}
    (distinct : (entries.map Sigma.fst).Nodup)
    (present : ∀ entry ∈ entries,
      queue.main.inFlight.lookup entry.1 = some entry.2)
    (holds : Inv queue) :
    Inv (entries.foldl (QueueEngine.lapse now) queue) := by
  induction entries generalizing queue with
  | nil => exact holds
  | cons entry rest inductionHypothesis =>
      rw [List.map_cons, List.nodup_cons] at distinct
      obtain ⟨here, later⟩ := List.forall_mem_cons.mp present
      refine inductionHypothesis distinct.2 (fun other member => ?_)
        (preserved holds here)
      have different : other.1 ≠ entry.1 := fun same =>
        distinct.1 (same ▸ List.mem_map_of_mem member)
      rw [lapse_lookup different]
      exact later other member

theorem checkInFlightAndDelayed_invariant {Inv : QueueEngine τ → Prop}
    {order : Shuffle (Sigma fun _ : Bytes => Message)} {now : Int64}
    (preserved : ∀ {queue : QueueEngine τ} {id message}, Inv queue →
      queue.main.inFlight.lookup id = some message →
      Inv (queue.lapse now ⟨id, message⟩)) (holds : Inv queue) :
    Inv (queue.checkInFlightAndDelayed order now) := by
  unfold QueueEngine.checkInFlightAndDelayed
  split
  · exact holds
  · have perm := order.perm queue.main.inFlight.entries
    refine lapses_invariant preserved ?_ (fun entry member => ?_) holds
    · exact (perm.map Sigma.fst).nodup_iff.mpr queue.main.inFlight.nodupKeys
    · exact AList.mem_lookup_iff.mpr (perm.mem_iff.mp member)

theorem enqueue_named {engine : Engine τ} {message : Message} {now : Int64}
    (isOpen : engine.closed = false) (named : message.id ≠ [])
    (plain : message.dedupID = []) :
    (engine.enqueue message now).2 =
      engine.accept (engine.prepare message now) := by
  have check : engine.dedup.checkOrSet message.dedupID engine.cfg.dedupWindow
      now = (true, engine.dedup) := by
    rw [Deduplicator.checkOrSet, if_pos plain]
  unfold Engine.enqueue
  rw [check]
  simp only [Bool.true_eq_false, if_false, isOpen, Bool.false_eq_true, named]
  rw [← isOpen]

end Loop

end CocoDB.Queue
