import CocoDB.Queue.Shelves

/-!
# The shelf mirrors the engine

Over a shelf that never fails, the messages on the shelf are those that are ready
or in flight.  Every change of an engine is a change at one identifier.
-/

namespace CocoDB.Queue

open Lib

section Holding

variable {τ : Type} {engine : Engine τ}

def Engine.Holds (engine : Engine τ) (id : Bytes) (message : Message) : Prop :=
  message ∈ engine.readyHeap ∧ message.id = id ∨
    engine.inFlight.lookup id = some message

theorem Conserved.not_ready (conserved : Conserved engine) {id : Bytes}
    {message : Message} (held : engine.inFlight.lookup id = some message) :
    id ∉ engine.readyHeap.map Message.id := by
  have once := List.nodup_iff_count_le_one.mp conserved.distinct id
  have placed := conserved.placed id
  have flying := List.count_pos_iff.mpr (mem_keys_of_lookup held)
  unfold Engine.places at placed
  rw [← List.count_eq_zero]
  omega

theorem Sound.listed_of_holds (sound : Sound engine) {id : Bytes}
    {message : Message} (holds : engine.Holds id message) :
    id ∈ engine.listed Event.acceptedID := by
  rcases holds with ⟨ready, rfl⟩ | flying
  · exact (sound.ready message ready).1.listed
  · rw [← sound.conserved.named id message flying]
    exact (sound.flying id message flying).1.listed

end Holding

def Mirrored (engine : Engine (Bytes → Option Bytes)) : Prop :=
  ∀ id, ∃ value : Option Message,
    engine.tree id = value.map Message.encode ∧
      ∀ message, engine.Holds id message ↔ value = some message

section Changes

variable {engine after : Engine (Bytes → Option Bytes)} {message : Message}

theorem Mirrored.changed (mirrored : Mirrored engine) (id : Bytes)
    (value : Option Message)
    (tree : after.tree =
      Function.update engine.tree id (value.map Message.encode))
    (here : ∀ message, after.Holds id message ↔ value = some message)
    (elsewhere : ∀ other, other ≠ id → ∀ message,
      after.Holds other message ↔ engine.Holds other message) :
    Mirrored after := by
  intro other
  by_cases same : other = id
  · subst same
    refine ⟨value, ?_, here⟩
    rw [tree, Function.update_self]
  · obtain ⟨old, stored, holds⟩ := mirrored other
    refine ⟨old, ?_, fun message => (elsewhere other same message).trans
      (holds message)⟩
    rw [tree, Function.update_of_ne same]
    exact stored

theorem Mirrored.accept (mirrored : Mirrored engine)
    (free : ∀ old, ¬ engine.Holds message.id old) :
    Mirrored (engine.accept message) := by
  have pushed : ∀ new, new ∈ (engine.accept message).readyHeap ↔
      new = message ∨ new ∈ engine.readyHeap := fun new => by
    rw [← List.mem_cons]
    exact (heapPush_perm _ _).mem_iff
  refine mirrored.changed message.id (some message) rfl (fun new => ?_)
    (fun other different new => ?_)
  · constructor
    · rintro (⟨ready, named⟩ | flying)
      · rcases (pushed new).mp ready with rfl | old
        · rfl
        · exact absurd (.inl ⟨old, named⟩) (free new)
      · exact absurd (.inr flying) (free new)
    · rintro same
      cases same
      exact .inl ⟨(pushed message).mpr (.inl rfl), rfl⟩
  · constructor
    · rintro (⟨ready, named⟩ | flying)
      · rcases (pushed new).mp ready with rfl | old
        · exact absurd named.symm different
        · exact .inl ⟨old, named⟩
      · exact .inr flying
    · rintro (⟨ready, named⟩ | flying)
      · exact .inl ⟨(pushed new).mpr (.inr ready), named⟩
      · exact .inr flying

theorem Mirrored.popped (mirrored : Mirrored engine)
    (conserved : Conserved engine)
    (top : engine.readyHeap.head? = some message) (value : Option Message)
    (heap : after.readyHeap = engine.popReady.readyHeap)
    (flight : ∀ id, after.inFlight.lookup id =
      if id = message.id then value else engine.inFlight.lookup id)
    (tree : after.tree = Function.update engine.tree message.id
      (value.map Message.encode)) : Mirrored after := by
  obtain ⟨rest, shape, perm⟩ := popReady_spec top
  obtain ⟨_, notTwice⟩ := conserved.top_alone shape
  have ready : ∀ new, new ∈ after.readyHeap ↔ new ∈ rest := fun new => by
    rw [heap]
    exact perm.mem_iff
  refine mirrored.changed message.id value tree (fun new => ?_)
    (fun other different new => ?_)
  · unfold Engine.Holds
    rw [flight, if_pos rfl]
    refine ⟨?_, .inr⟩
    rintro (⟨member, named⟩ | given)
    · refine absurd ?_ notTwice
      rw [← named]
      exact List.mem_map_of_mem ((ready new).mp member)
    · exact given
  · unfold Engine.Holds
    rw [flight, if_neg different, shape, ready, List.mem_cons]
    constructor
    · rintro (⟨member, named⟩ | flying)
      · exact .inl ⟨.inr member, named⟩
      · exact .inr flying
    · rintro (⟨rfl | member, named⟩ | flying)
      · exact absurd named.symm different
      · exact .inl ⟨member, named⟩
      · exact .inr flying

theorem Mirrored.landed (mirrored : Mirrored engine)
    (conserved : Conserved engine) {id : Bytes}
    (held : engine.inFlight.lookup id = some message)
    (value : Option Message)
    (tree : after.tree = Function.update engine.tree id
      (value.map Message.encode))
    (here : ∀ new, after.Holds id new ↔
      new ∈ engine.readyHeap ∧ new.id = id ∨ value = some new)
    (elsewhere : ∀ other, other ≠ id → ∀ message,
      after.Holds other message ↔ engine.Holds other message) :
    Mirrored after := by
  refine mirrored.changed id value tree (fun new => ?_) elsewhere
  rw [here]
  refine ⟨?_, .inr⟩
  rintro (⟨member, named⟩ | given)
  · refine absurd ?_ (conserved.not_ready held)
    rw [← named]
    exact List.mem_map_of_mem member
  · exact given

theorem lookup_ground_eq (id other : Bytes) :
    (engine.ground id).inFlight.lookup other =
      if other = id then none else engine.inFlight.lookup other := by
  unfold Engine.ground
  by_cases same : other = id
  · rw [if_pos same, same, AList.lookup_erase]
  · rw [if_neg same, AList.lookup_erase_ne same]

theorem Mirrored.gone (mirrored : Mirrored engine)
    (conserved : Conserved engine) {id : Bytes}
    (held : engine.inFlight.lookup id = some message) (event : Event) :
    Mirrored (((engine.ground id).forget id).record event) := by
  have holds : ∀ other new,
      (((engine.ground id).forget id).record event).Holds other new ↔
        new ∈ engine.readyHeap ∧ new.id = other ∨
          (engine.ground id).inFlight.lookup other = some new :=
    fun other new => .rfl
  refine mirrored.landed conserved held none rfl (fun new => ?_)
    (fun other different new => ?_)
  · rw [holds, lookup_ground_eq, if_pos rfl]
  · rw [holds, lookup_ground_eq, if_neg different]
    rfl

theorem Mirrored.requeue (mirrored : Mirrored engine)
    (conserved : Conserved engine) {id : Bytes}
    (held : engine.inFlight.lookup id = some message) (now : Int64) :
    Mirrored (engine.requeue id message now) := by
  have named := conserved.named id message held
  have holds : ∀ other new, (engine.requeue id message now).Holds other new ↔
      (new = { message with state := .ready, visibleAt := now } ∨
        new ∈ engine.readyHeap) ∧ new.id = other ∨
        (engine.ground id).inFlight.lookup other = some new :=
    fun other new => by
      rw [← List.mem_cons]
      exact or_congr (and_congr (heapPush_perm _ _).mem_iff .rfl) .rfl
  refine mirrored.landed conserved held
    (some { message with state := .ready, visibleAt := now }) rfl
    (fun new => ?_) (fun other different new => ?_)
  · rw [holds, lookup_ground_eq, if_pos rfl]
    constructor
    · rintro (⟨rfl | member, same⟩ | impossible)
      · exact .inr rfl
      · exact .inl ⟨member, same⟩
      · cases impossible
    · rintro (⟨member, same⟩ | given)
      · exact .inl ⟨.inr member, same⟩
      · cases given
        exact .inl ⟨.inl rfl, named⟩
  · rw [holds, lookup_ground_eq, if_neg different]
    constructor
    · rintro (⟨rfl | member, same⟩ | flying)
      · exact absurd (same.symm.trans named) different
      · exact .inl ⟨member, same⟩
      · exact .inr flying
    · rintro (⟨member, same⟩ | flying)
      · exact .inl ⟨.inr member, same⟩
      · exact .inr flying

/-! ## Whole calls -/

theorem Mirrored.enqueue (mirrored : Mirrored engine) (sound : Sound engine)
    (request : Request) (now : Int64) :
    Mirrored (engine.enqueue request.message now).2 := by
  unfold Engine.enqueue
  rcases engine.dedup.checkOrSet request.message.dedupID
    engine.cfg.dedupWindow now with ⟨isNew, dedup⟩
  simp only
  split
  · exact mirrored
  · split
    · exact mirrored
    · have renumbered : Mirrored
          { engine with dedup := dedup, msgSeq := engine.msgSeq + 1 } :=
        mirrored
      exact renumbered.accept fun old holds =>
        sound.next_free now (sound.listed_of_holds holds)

theorem Mirrored.dropTop (mirrored : Mirrored engine)
    (conserved : Conserved engine)
    (top : engine.readyHeap.head? = some message) :
    Mirrored (engine.dropTop message) := by
  obtain ⟨rest, shape, _⟩ := popReady_spec top
  obtain ⟨grounded, _⟩ := conserved.top_alone shape
  refine mirrored.popped conserved top none rfl (fun id => ?_) rfl
  split
  · rename_i same
    rw [same]
    exact AList.lookup_eq_none.mpr grounded
  · rfl

theorem Mirrored.deliver (mirrored : Mirrored engine)
    (conserved : Conserved engine)
    (top : engine.readyHeap.head? = some message) (timeout now : Int64) :
    Mirrored (engine.deliver message timeout now) := by
  refine mirrored.popped conserved top
    (some (Engine.leased message timeout now)) rfl (fun id => ?_) rfl
  split
  · rename_i same
    rw [same]
    exact AList.lookup_insert _
  · rename_i different
    exact AList.lookup_insert_ne different

theorem Mirrored.dequeue (mirrored : Mirrored engine)
    (conserved : Conserved engine) (visibilityTimeout now : Int64) :
    Mirrored (engine.dequeue visibilityTimeout now).2 := by
  refine (@dequeue_invariant _ _ engine
    (fun engine => Conserved engine ∧ Mirrored engine) visibilityTimeout now
    ?_ ?_ ⟨conserved, mirrored⟩).2
  · intro engine message holds top _
    exact ⟨holds.1.moved (moved_dropTop top), holds.2.dropTop holds.1 top⟩
  · intro timeout engine message holds top
    exact ⟨holds.1.deliver top timeout now,
      holds.2.deliver holds.1 top timeout now⟩

theorem Mirrored.ack (mirrored : Mirrored engine)
    (conserved : Conserved engine) (msgID : Bytes) :
    Mirrored (engine.ack msgID).2 := by
  apply ack_invariant _ mirrored
  intro message held
  exact mirrored.gone conserved held (.acked msgID)

theorem Mirrored.extend (mirrored : Mirrored engine)
    (conserved : Conserved engine) (msgID : Bytes) (duration now : Int64) :
    Mirrored (engine.extend msgID duration now).2 := by
  unfold Engine.extend
  split
  · exact mirrored
  · rename_i message held
    refine mirrored.landed conserved held
      (some { message with visibleAt := now + duration }) rfl
      (fun new => ?_) (fun other different new => ?_)
    · unfold Engine.Holds
      rw [AList.lookup_insert]
    · unfold Engine.Holds
      rw [AList.lookup_insert_ne different]

end Changes

section Queues

variable {queue : QueueEngine (Bytes → Option Bytes)}

def Shelved (queue : QueueEngine (Bytes → Option Bytes)) : Prop :=
  Sound queue.main ∧ Mirrored queue.main

theorem Shelved.deadLetter (shelved : Shelved queue) {id : Bytes}
    {message : Message} (held : queue.main.inFlight.lookup id = some message)
    {event : Event} (gone : event = .rejected id ∨ event = .exhausted id)
    (now : Int64) : Shelved (queue.deadLetter event id message now) :=
  ⟨shelved.1.deadLetter held gone now,
    shelved.2.gone shelved.1.conserved held event⟩

theorem Shelved.requeue (shelved : Shelved queue) {id : Bytes}
    {message : Message} (held : queue.main.inFlight.lookup id = some message)
    (left : message.retryCount < message.maxRetries) (now : Int64) :
    Shelved { queue with main := queue.main.requeue id message now } :=
  ⟨shelved.1.requeue held left now,
    shelved.2.requeue shelved.1.conserved held now⟩

theorem Shelved.lapse (shelved : Shelved queue) {id : Bytes}
    {message : Message} (held : queue.main.inFlight.lookup id = some message)
    (now : Int64) : Shelved (queue.lapse now ⟨id, message⟩) := by
  apply lapse_invariant _ _ shelved
  · intro _ _
    exact shelved.deadLetter held (.inr rfl) now
  · intro _ left
    exact shelved.requeue held left now

theorem Shelved.nack (shelved : Shelved queue) (msgID : Bytes)
    (requeue : Bool) (now : Int64) :
    Shelved (queue.nack msgID requeue now).2 := by
  apply nack_invariant _ _ shelved
  · intro message held _
    exact shelved.deadLetter held (nack_event msgID requeue) now
  · intro message held left
    exact shelved.requeue held left now

theorem Shelved.operate (shelved : Shelved queue) (call : SystemCall) :
    Shelved (queue.operate call) := by
  cases call with
  | dlq call => exact shelved
  | main call =>
      have sound := shelved.1
      have mirrored := shelved.2
      refine ⟨Performs.sound rfl sound, ?_⟩
      cases call with
      | enqueue request now => exact mirrored.enqueue sound request now
      | dequeue visibilityTimeout now =>
          exact mirrored.dequeue sound.conserved visibilityTimeout now
      | ack msgID => exact mirrored.ack sound.conserved msgID
      | nack msgID requeue now =>
          exact (shelved.nack msgID requeue now).2
      | extend msgID duration now =>
          exact mirrored.extend sound.conserved msgID duration now
      | checkInFlightAndDelayed order now =>
          have swept : Shelved (queue.checkInFlightAndDelayed order now) :=
            checkInFlightAndDelayed_invariant
              (fun holds held => Shelved.lapse holds held now) shelved
          exact swept.2

end Queues

end CocoDB.Queue
