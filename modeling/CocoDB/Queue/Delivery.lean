import CocoDB.Queue.Places
import Mathlib.Data.Nat.Digits.Lemmas

/-!
# Every message is somewhere

In every run of a main queue an accepted message is in one place.  Its deliveries
are counted in the message, and the count never passes the limit.
-/

namespace CocoDB.Queue

open Lib

section Budget

variable {τ : Type}

/-- A message in the queue is an accepted one, delivered as often as it says. -/
def Genuine (engine : Engine τ) (message : Message) : Prop :=
  ∃ original, .accepted original ∈ engine.log ∧
    original.id = message.id ∧ original.payload = message.payload ∧
    original.priority = message.priority ∧
    original.maxRetries = message.maxRetries ∧
    message.retryCount = (engine.listed Event.deliveredID).count message.id

structure Sound (engine : Engine τ) : Prop where
  conserved : Conserved engine
  limit : 0 < engine.cfg.defaultMaxRetries
  numbered : ∀ id ∈ engine.listed Event.acceptedID,
    ∃ now seq, id = messageID now seq ∧ seq ≤ engine.msgSeq
  ready : ∀ message ∈ engine.readyHeap, Genuine engine message ∧
    message.retryCount < message.maxRetries
  flying : ∀ id message, engine.inFlight.lookup id = some message →
    Genuine engine message ∧ message.retryCount ≤ message.maxRetries
  known : ∀ id ∈ engine.listed Event.deliveredID,
    id ∈ engine.listed Event.acceptedID
  bounded : ∀ message, .accepted message ∈ engine.log →
    ((engine.listed Event.deliveredID).count message.id : Int) ≤
      message.maxRetries

end Budget

/-! ## Message identifiers -/

theorem digit_read {digit : Nat} (small : digit < 10) :
    (0x30 + UInt8.ofNat digit : UInt8).toNat = 0x30 + digit := by
  have low : (UInt8.ofNat digit).toNat = digit :=
    UInt8.toNat_ofNat_of_lt' (lt_trans small (by decide))
  rw [UInt8.toNat_add, low]
  exact Nat.mod_eq_of_lt (by simp only [UInt8.reduceToNat]; omega)

theorem digits_small {value digit : Nat}
    (member : digit ∈ (Nat.digits 10 value).reverse) : digit < 10 :=
  Nat.digits_lt_base (by decide) (List.mem_reverse.mp member)

theorem decimal_digits {value : Nat} {byte : UInt8}
    (member : byte ∈ decimal value) : byte ≠ 0x5F := by
  unfold decimal at member
  split at member
  · rw [List.mem_singleton.mp member]
    decide
  · obtain ⟨digit, listed, rfl⟩ := List.mem_map.mp member
    have small := digits_small listed
    intro same
    have read := digit_read small
    rw [same] at read
    simp only [UInt8.reduceToNat] at read
    omega

/-- The number that `%d` printed. -/
def ofDecimal (text : Bytes) : Nat :=
  Nat.ofDigits 10 (text.reverse.map fun byte => byte.toNat - 0x30)

theorem ofDecimal_decimal (value : Nat) : ofDecimal (decimal value) = value := by
  unfold ofDecimal decimal
  split
  · rename_i zero
    rw [zero]
    rfl
  · rw [← List.map_reverse, List.reverse_reverse, List.map_map]
    have read : (Nat.digits 10 value).map
        ((fun byte : UInt8 => byte.toNat - 0x30) ∘
          fun digit => 0x30 + UInt8.ofNat digit) = Nat.digits 10 value := by
      refine (List.map_congr_left fun digit member => ?_).trans (List.map_id _)
      simp only [Function.comp_apply]
      rw [digit_read (digits_small (List.mem_reverse.mpr member))]
      simp
    rw [read, Nat.ofDigits_digits]

theorem messageID_seq {now later : Int64} {seq next : Nat}
    (same : messageID now seq = messageID later next) : seq = next := by
  have tail : ∀ now seq, (messageID now seq).reverse.takeWhile
      (fun byte => decide (byte ≠ 0x5F)) = (decimal seq).reverse := by
    intro now seq
    unfold messageID
    rw [List.reverse_append, List.reverse_append, List.reverse_singleton,
      List.takeWhile_append_of_pos]
    · simp
    · intro byte member
      simpa using decimal_digits (List.mem_reverse.mp member)
  have digits : decimal seq = decimal next := by
    rw [← List.reverse_inj, ← tail now, ← tail later, same]
  rw [← ofDecimal_decimal seq, digits, ofDecimal_decimal]

theorem messageID_ne_nil (now : Int64) (seq : Nat) : messageID now seq ≠ [] :=
  List.cons_ne_nil _ _

section Changes

variable {τ : Type} {engine after : Engine τ} {message : Message}

theorem Genuine.renewed {old new : Message} (genuine : Genuine engine old)
    (renewed : Renewed old new)
    (accepted : ∀ original, .accepted original ∈ engine.log →
      .accepted original ∈ after.log)
    (delivered : after.listed Event.deliveredID =
      engine.listed Event.deliveredID) : Genuine after new := by
  obtain ⟨original, member, id, payload, priority, maxRetries, count⟩ := genuine
  refine ⟨original, accepted original member, ?_⟩
  rw [renewed.id, renewed.payload, renewed.priority, renewed.maxRetries,
    renewed.retryCount, delivered]
  exact ⟨id, payload, priority, maxRetries, count⟩

theorem Sound.moved (sound : Sound engine) (moved : Moved engine after) :
    Sound after := by
  have keep := fun original => (moved.accepted original).mpr
  refine ⟨sound.conserved.moved moved, ?_, ?_, fun new member => ?_,
    fun id new held => ?_, ?_, fun original member => ?_⟩
  · rw [moved.cfg]
    exact sound.limit
  · rw [moved.acceptedIDs, moved.msgSeq]
    exact sound.numbered
  · rcases moved.ready new member with stayed | ⟨id, old, held, renewed, less⟩
    · obtain ⟨genuine, less⟩ := sound.ready new stayed
      exact ⟨genuine.renewed (.refl new) keep moved.delivered, less⟩
    · exact ⟨(sound.flying id old held).1.renewed renewed keep
        moved.delivered, less⟩
  · obtain ⟨old, before, renewed⟩ := moved.flying id new held
    obtain ⟨genuine, bound⟩ := sound.flying id old before
    refine ⟨genuine.renewed renewed keep moved.delivered, ?_⟩
    rw [renewed.retryCount, renewed.maxRetries]
    exact bound
  · rw [moved.delivered, moved.acceptedIDs]
    exact sound.known
  · rw [moved.delivered]
    exact sound.bounded original ((moved.accepted original).mp member)

theorem accepted_mem {log : List Event} :
    .accepted message ∈ log ↔ message ∈ log.filterMap Event.message := by
  rw [List.mem_filterMap]
  constructor
  · intro member
    exact ⟨_, member, rfl⟩
  · rintro ⟨event, member, same⟩
    cases event with
    | accepted other =>
        cases same
        exact member
    | _ => cases same

theorem Sound.accepted_unique (sound : Sound engine) {left right : Message}
    (leftAccepted : .accepted left ∈ engine.log)
    (rightAccepted : .accepted right ∈ engine.log)
    (same : left.id = right.id) : left = right := by
  have ids : engine.listed Event.acceptedID =
      (engine.log.filterMap Event.message).map Message.id := by
    rw [List.map_filterMap]
    refine congrArg (List.filterMap · engine.log) (funext fun event => ?_)
    cases event <;> rfl
  have distinct := sound.conserved.distinct
  rw [ids] at distinct
  exact List.inj_on_of_nodup_map distinct (accepted_mem.mp leftAccepted)
    (accepted_mem.mp rightAccepted) same

theorem Genuine.listed (genuine : Genuine engine message) :
    message.id ∈ engine.listed Event.acceptedID := by
  obtain ⟨original, member, same, _⟩ := genuine
  exact List.mem_filterMap.mpr ⟨_, member, congrArg some same⟩

theorem Sound.next_free (sound : Sound engine) (now : Int64) :
    messageID now (engine.msgSeq + 1) ∉ engine.listed Event.acceptedID := by
  intro member
  obtain ⟨earlier, seq, same, bound⟩ := sound.numbered _ member
  have number := messageID_seq same
  omega

theorem Sound.recount (sound : Sound engine) (dedup : Deduplicator) (seq : Nat)
    (grows : engine.msgSeq ≤ seq) :
    Sound { engine with dedup := dedup, msgSeq := seq } := by
  refine ⟨⟨sound.conserved.placed, sound.conserved.distinct,
    sound.conserved.named⟩, sound.limit, fun id member => ?_, sound.ready,
    sound.flying, sound.known, sound.bounded⟩
  obtain ⟨now, number, same, bound⟩ := sound.numbered id member
  exact ⟨now, number, same, bound.trans grows⟩

variable [Shelf τ]

/-! ## Deliveries and new messages -/

theorem delivered_count (id : Bytes) (timeout now : Int64) :
    ((engine.deliver message timeout now).listed Event.deliveredID).count id =
      (engine.listed Event.deliveredID).count id +
        if message.id == id then 1 else 0 :=
  List.count_cons

theorem Sound.deliver (sound : Sound engine)
    (top : engine.readyHeap.head? = some message) (timeout now : Int64) :
    Sound (engine.deliver message timeout now) := by
  obtain ⟨rest, shape, perm⟩ := popReady_spec top
  obtain ⟨_, notTwice⟩ := sound.conserved.top_alone shape
  have inReady : message ∈ engine.readyHeap := by
    rw [shape]
    exact List.mem_cons_self
  obtain ⟨genuine, less⟩ := sound.ready message inReady
  have flight : (engine.deliver message timeout now).inFlight =
      engine.inFlight.insert message.id
        (Engine.leased message timeout now) := rfl
  have accepted : ∀ original,
      .accepted original ∈ (engine.deliver message timeout now).log ↔
        .accepted original ∈ engine.log := fun original => by
    show .accepted original ∈ _ :: engine.log ↔ _
    simp
  have other : ∀ {new : Message}, new.id ≠ message.id →
      Genuine engine new → Genuine (engine.deliver message timeout now) new := by
    rintro new different ⟨original, member, id, payload, priority, maxRetries,
      count⟩
    refine ⟨original, (accepted original).mpr member, id, payload, priority,
      maxRetries, ?_⟩
    rw [delivered_count, if_neg (by simpa using Ne.symm different), count]
    rfl
  refine ⟨sound.conserved.deliver top timeout now, sound.limit,
    sound.numbered, fun new member => ?_, fun id new held => ?_,
    fun id member => ?_, fun original member => ?_⟩
  · have stayed : new ∈ rest := perm.mem_iff.mp member
    have different : new.id ≠ message.id := fun same =>
      notTwice (same ▸ List.mem_map_of_mem stayed)
    obtain ⟨genuineNew, lessNew⟩ := sound.ready new (by
      rw [shape]
      exact List.mem_cons_of_mem _ stayed)
    exact ⟨other different genuineNew, lessNew⟩
  · rw [flight] at held
    by_cases same : id = message.id
    · subst same
      rw [AList.lookup_insert] at held
      cases held
      refine ⟨?_, less⟩
      obtain ⟨original, accept, sameID, payload, priority, maxRetries,
        count⟩ := genuine
      refine ⟨original, (accepted original).mpr accept, sameID, payload,
        priority, maxRetries, ?_⟩
      have counted := @delivered_count _ engine message _ message.id timeout now
      rw [if_pos (beq_self_eq_true _)] at counted
      show message.retryCount + 1 = _
      rw [count]
      exact_mod_cast counted.symm
    · rw [AList.lookup_insert_ne same] at held
      obtain ⟨genuineNew, bound⟩ := sound.flying id new held
      have named := sound.conserved.named id new held
      exact ⟨other (named ▸ same) genuineNew, bound⟩
  · rcases List.mem_cons.mp member with here | later
    · rw [here]
      exact genuine.listed
    · exact sound.known id later
  · have before := (accepted original).mp member
    rw [delivered_count]
    by_cases same : message.id = original.id
    · obtain ⟨first, accept, sameID, _, _, maxRetries, count⟩ := genuine
      obtain rfl := sound.accepted_unique accept before (sameID.trans same)
      rw [if_pos (by simpa using same), maxRetries, sameID]
      push_cast
      omega
    · rw [if_neg (by simpa using same)]
      exact sound.bounded original before

theorem Sound.accept (sound : Sound engine)
    (free : message.id ∉ engine.listed Event.acceptedID) {now : Int64}
    {seq : Nat} (named : message.id = messageID now seq)
    (counted : seq ≤ engine.msgSeq) (fresh : message.retryCount = 0)
    (allowed : 0 < message.maxRetries) : Sound (engine.accept message) := by
  have pushed : (engine.accept message).readyHeap.Perm
      (message :: engine.readyHeap) := heapPush_perm _ _
  have log : (engine.accept message).log = .accepted message :: engine.log :=
    rfl
  have delivered : (engine.accept message).listed Event.deliveredID =
      engine.listed Event.deliveredID := rfl
  have keep : ∀ original, .accepted original ∈ engine.log →
      .accepted original ∈ (engine.accept message).log :=
    fun original member => List.mem_cons_of_mem _ member
  have undelivered : (engine.listed Event.deliveredID).count message.id = 0 :=
    List.count_eq_zero.mpr fun member => free (sound.known _ member)
  refine ⟨sound.conserved.accept free, sound.limit, fun id member => ?_,
    fun new member => ?_, fun id new held => ?_, fun id member => ?_,
    fun original member => ?_⟩
  · rcases List.mem_cons.mp member with rfl | earlier
    · exact ⟨now, seq, named, counted⟩
    · exact sound.numbered id earlier
  · rcases List.mem_cons.mp (pushed.mem_iff.mp member) with rfl | old
    · refine ⟨⟨new, List.mem_cons_self, rfl, rfl, rfl, rfl, ?_⟩, ?_⟩
      · rw [delivered, undelivered]
        exact fresh
      · rw [fresh]
        exact allowed
    · obtain ⟨genuine, less⟩ := sound.ready new old
      exact ⟨genuine.renewed (.refl new) keep delivered, less⟩
  · obtain ⟨genuine, bound⟩ := sound.flying id new held
    exact ⟨genuine.renewed (.refl new) keep delivered, bound⟩
  · exact List.mem_cons_of_mem _ (sound.known id member)
  · rw [log] at member
    rw [delivered]
    rcases List.mem_cons.mp member with same | old
    · cases same
      rw [undelivered]
      exact allowed.le
    · exact sound.bounded original old

/-! ## Whole calls -/

theorem Sound.enqueue (sound : Sound engine) (request : Request)
    (now : Int64) : Sound (engine.enqueue request.message now).2 := by
  unfold Engine.enqueue
  rcases engine.dedup.checkOrSet request.message.dedupID
    engine.cfg.dedupWindow now with ⟨isNew, dedup⟩
  simp only
  split
  · exact sound.recount dedup _ le_rfl
  · split
    · exact sound.recount dedup _ le_rfl
    · refine (sound.recount dedup (engine.msgSeq + 1) (Nat.le_succ _)).accept
        (sound.next_free now) rfl le_rfl rfl ?_
      show 0 < if request.maxRetries ≤ 0 then engine.cfg.defaultMaxRetries
        else request.maxRetries
      split
      · exact sound.limit
      · omega

theorem Sound.dequeue (sound : Sound engine) (visibilityTimeout now : Int64) :
    Sound (engine.dequeue visibilityTimeout now).2 := by
  apply dequeue_invariant _ _ sound
  · intro engine message holds top _
    exact holds.moved (moved_dropTop top)
  · intro timeout engine message holds top
    exact holds.deliver top timeout now

theorem Sound.ack (sound : Sound engine) (msgID : Bytes) :
    Sound (engine.ack msgID).2 := by
  apply ack_invariant _ sound
  intro message held
  exact sound.moved (moved_gone held (.inl rfl))

end Changes

section Queues

variable {τ : Type} {queue : QueueEngine τ}

theorem sound_new (name : Bytes) (cfg : Config) (tree : τ) :
    Sound (QueueEngine.newQueueEngine name cfg tree).main := by
  refine ⟨⟨fun id => rfl, List.nodup_nil, ?_⟩, ?_, ?_, ?_, ?_, ?_, ?_⟩
  · intro id message held
    cases held
  · show 0 < if cfg.defaultMaxRetries ≤ 0 then (5 : Int)
      else cfg.defaultMaxRetries
    split
    · decide
    · omega
  · intro id member
    cases member
  · intro message member
    cases member
  · intro id message held
    cases held
  · intro id member
    cases member
  · intro message member
    cases member

theorem Sound.hasID {engine : Engine τ} (sound : Sound engine) {id : Bytes}
    {message : Message} (held : engine.inFlight.lookup id = some message) :
    message.id ≠ [] := by
  obtain ⟨now, seq, same, _⟩ :=
    sound.numbered _ (sound.flying id message held).1.listed
  rw [same]
  exact messageID_ne_nil now seq

/-- The dead-letter engine has accepted exactly what was handed over. -/
def Routed (queue : QueueEngine τ) : Prop :=
  ∃ dlq, queue.dlq = some dlq ∧ dlq.closed = false ∧
    dlq.listed Event.acceptedID = queue.main.listed Event.handedID

variable [Shelf τ]

theorem Sound.deadLetter (sound : Sound queue.main) {id : Bytes}
    {message : Message} (held : queue.main.inFlight.lookup id = some message)
    {event : Event} (gone : event = .rejected id ∨ event = .exhausted id)
    (now : Int64) : Sound (queue.deadLetter event id message now).main :=
  sound.moved (moved_gone held (.inr gone))

theorem Sound.requeue (sound : Sound queue.main) {id : Bytes}
    {message : Message} (held : queue.main.inFlight.lookup id = some message)
    (left : message.retryCount < message.maxRetries) (now : Int64) :
    Sound (queue.main.requeue id message now) :=
  sound.moved (moved_requeue held (sound.conserved.named _ _ held) left)

theorem nack_event (msgID : Bytes) (requeue : Bool) :
    (if requeue then Event.exhausted msgID else .rejected msgID) =
        .rejected msgID ∨
      (if requeue then Event.exhausted msgID else .rejected msgID) =
        .exhausted msgID := by
  cases requeue
  · exact .inl rfl
  · exact .inr rfl

theorem Sound.nack (sound : Sound queue.main) (msgID : Bytes) (requeue : Bool)
    (now : Int64) : Sound (queue.nack msgID requeue now).2.main := by
  apply @nack_invariant _ _ queue (fun queue => Sound queue.main) msgID requeue
    now _ _ sound
  · intro message held _
    exact sound.deadLetter held (nack_event msgID requeue) now
  · intro message held left
    exact sound.requeue held left now

theorem Sound.lapse (sound : Sound queue.main) {id : Bytes}
    {message : Message} (held : queue.main.inFlight.lookup id = some message)
    (now : Int64) : Sound (queue.lapse now ⟨id, message⟩).main := by
  apply @lapse_invariant _ _ queue (fun queue => Sound queue.main) now id
    message _ _ sound
  · intro _ _
    exact sound.deadLetter held (.inr rfl) now
  · intro _ left
    exact sound.requeue held left now

theorem Performs.sound {call : Call} {after : QueueEngine τ}
    (performs : Performs call queue after) (sound : Sound queue.main) :
    Sound after.main := by
  rw [performs]
  cases call with
  | enqueue request now => exact sound.enqueue request now
  | dequeue visibilityTimeout now => exact sound.dequeue visibilityTimeout now
  | ack msgID => exact sound.ack msgID
  | nack msgID requeue now => exact sound.nack msgID requeue now
  | extend msgID duration now =>
      exact sound.moved (moved_extend msgID duration now)
  | checkInFlightAndDelayed order now =>
      exact checkInFlightAndDelayed_invariant
        (fun holds held => Sound.lapse holds held now) sound

/-! ## Handing over -/

theorem deadLetter_spec {dlq : Engine Unit} (found : queue.dlq = some dlq)
    (isOpen : dlq.closed = false) {message : Message}
    (hasID : message.id ≠ []) (event : Event) (id : Bytes) (now : Int64) :
    (queue.deadLetter event id message now).dlq =
        some (dlq.accept (dlq.prepare (QueueEngine.buried message now) now)) ∧
      (dlq.prepare (QueueEngine.buried message now) now).id = message.id := by
  have enqueued := @enqueue_named _ _ dlq (QueueEngine.buried message now) now
    isOpen hasID rfl
  refine ⟨?_, if_neg hasID⟩
  unfold QueueEngine.deadLetter
  rw [found, Option.map_some, enqueued]

theorem Routed.deadLetter (routed : Routed queue) (sound : Sound queue.main)
    {id : Bytes} {message : Message} {event : Event}
    (held : queue.main.inFlight.lookup id = some message)
    (handed : event.handedID = some id) (now : Int64) :
    Routed (queue.deadLetter event id message now) := by
  obtain ⟨dlq, found, isOpen, same⟩ := routed
  obtain ⟨grown, sameID⟩ := deadLetter_spec found isOpen (sound.hasID held)
    event id now
  have named := sound.conserved.named id message held
  refine ⟨_, grown, isOpen, ?_⟩
  have left : (dlq.accept (dlq.prepare (QueueEngine.buried message now)
      now)).listed Event.acceptedID = [id] ++ dlq.listed Event.acceptedID := by
    rw [← named, ← sameID]
    rfl
  have right : (queue.deadLetter event id message now).main.listed
      Event.handedID = [id] ++ queue.main.listed Event.handedID := by
    refine (listed_record _ event).trans ?_
    rw [handed]
    rfl
  rw [left, right, same]

theorem Routed.nack (routed : Routed queue) (sound : Sound queue.main)
    (msgID : Bytes) (requeue : Bool) (now : Int64) :
    Routed (queue.nack msgID requeue now).2 := by
  apply nack_invariant _ _ routed
  · intro message held _
    refine routed.deadLetter sound held ?_ now
    cases requeue <;> rfl
  · intro message held left
    exact routed

theorem Routed.lapse (routed : Routed queue) (sound : Sound queue.main)
    {id : Bytes} {message : Message}
    (held : queue.main.inFlight.lookup id = some message) (now : Int64) :
    Routed (queue.lapse now ⟨id, message⟩) := by
  apply lapse_invariant _ _ routed
  · intro _ _
    exact routed.deadLetter sound held rfl now
  · intro _ _
    exact routed

def Accounted (queue : QueueEngine τ) : Prop :=
  Sound queue.main ∧ Routed queue

theorem Accounted.lapse (accounted : Accounted queue) {id : Bytes}
    {message : Message} (held : queue.main.inFlight.lookup id = some message)
    (now : Int64) : Accounted (queue.lapse now ⟨id, message⟩) :=
  ⟨accounted.1.lapse held now, accounted.2.lapse accounted.1 held now⟩

def Call.hands : Call → Bool
  | .nack _ _ _ => true
  | .checkInFlightAndDelayed _ _ => true
  | _ => false

theorem perform_quiet {call : Call} (quiet : call.hands = false) :
    (queue.perform call).dlq = queue.dlq ∧
      (queue.perform call).main.listed Event.handedID =
        queue.main.listed Event.handedID := by
  cases call with
  | enqueue request now =>
      refine ⟨rfl, ?_⟩
      unfold QueueEngine.perform Engine.enqueue
      simp only
      split
      · rfl
      · split <;> rfl
  | dequeue visibilityTimeout now =>
      refine ⟨rfl, ?_⟩
      exact @dequeue_invariant _ _ queue.main
        (fun after => after.listed Event.handedID =
          queue.main.listed Event.handedID) visibilityTimeout now
        (fun holds _ _ => holds) (fun holds _ => holds) rfl
  | ack msgID =>
      refine ⟨rfl, ?_⟩
      exact @ack_invariant _ _ queue.main
        (fun after => after.listed Event.handedID =
          queue.main.listed Event.handedID) msgID (fun _ => rfl) rfl
  | extend msgID duration now =>
      refine ⟨rfl, ?_⟩
      unfold QueueEngine.perform Engine.extend
      simp only
      split <;> rfl
  | nack msgID requeue now => cases quiet
  | checkInFlightAndDelayed order now => cases quiet

theorem Performs.routed {call : Call} {after : QueueEngine τ}
    (performs : Performs call queue after) (sound : Sound queue.main)
    (routed : Routed queue) : Routed after := by
  rw [performs]
  by_cases quiet : call.hands = false
  · obtain ⟨sameDLQ, sameHanded⟩ := @perform_quiet _ queue _ call quiet
    unfold Routed
    rw [sameDLQ, sameHanded]
    exact routed
  · cases call with
    | nack msgID requeue now => exact routed.nack sound msgID requeue now
    | checkInFlightAndDelayed order now =>
        have both : Accounted (queue.checkInFlightAndDelayed order now) :=
          checkInFlightAndDelayed_invariant
            (fun holds held => Accounted.lapse holds held now) ⟨sound, routed⟩
        exact both.2
    | _ => exact absurd rfl quiet

theorem Performs.accounted {call : Call} {after : QueueEngine τ}
    (performs : Performs call queue after) (accounted : Accounted queue) :
    Accounted after :=
  ⟨performs.sound accounted.1, performs.routed accounted.1 accounted.2⟩

omit [Shelf τ] in
theorem accounted_new (name : Bytes) {cfg : Config} (tree : τ)
    (enabled : cfg.enableDLQ = true) :
    Accounted (QueueEngine.newQueueEngine name cfg tree) :=
  ⟨sound_new name cfg tree, _, if_pos enabled, rfl, rfl⟩

/-- In every run of a main queue, an accepted message is in exactly one place:
ready once, in flight under its identifier, acknowledged, dropped after its time
to live, or handed to the dead-letter queue, which then has accepted it.  It is
delivered at most `MaxRetries` times. -/
theorem queue_conserves {name : Bytes} {cfg : Config} {tree : τ}
    (enabled : cfg.enableDLQ = true) {calls : List Call}
    {final : QueueEngine τ}
    (execution : Execution Performs
      (QueueEngine.newQueueEngine name cfg tree) calls final) :
    ∃ dlq, final.dlq = some dlq ∧
      ∀ message, .accepted message ∈ final.main.log →
        final.main.places message.id = 1 ∧
        (∀ held, final.main.inFlight.lookup message.id = some held →
          held.id = message.id) ∧
        (message.id ∈ final.main.listed Event.handedID →
          message.id ∈ dlq.listed Event.acceptedID) ∧
        ((final.main.listed Event.deliveredID).count message.id : Int) ≤
          message.maxRetries := by
  have accounted : Accounted final :=
    execution.invariant (fun holds performs => Performs.accounted performs holds)
      (accounted_new name tree enabled)
  obtain ⟨sound, dlq, found, _, same⟩ := accounted
  refine ⟨dlq, found, fun message accepted => ⟨?_,
    fun held found => sound.conserved.named _ held found, fun handed => ?_,
    sound.bounded message accepted⟩⟩
  · rw [sound.conserved.placed]
    exact List.count_eq_one_of_mem sound.conserved.distinct
      (List.mem_filterMap.mpr ⟨_, accepted, rfl⟩)
  · rw [same]
    exact handed

end Queues

/-! ## One message -/

def twice : Request where
  payload := [1]
  priority := 128
  dedupID := []
  maxRetries := 2
  visibleAt := 0
  expireAt := 0

def newQueue : QueueEngine Unit := .newQueueEngine [0x71] defaultConfig ()

theorem queue_conserves_sample :
    ∃ final dlq message, Execution Performs newQueue
        [.enqueue twice 5, .dequeue 0 6, .nack (messageID 5 1) true 7] final ∧
      final.dlq = some dlq ∧ .accepted message ∈ final.main.log ∧
      final.main.places message.id = 1 ∧
      ((final.main.listed Event.deliveredID).count message.id : Int) ≤
        message.maxRetries := by
  have execution : Execution Performs newQueue
      [.enqueue twice 5, .dequeue 0 6, .nack (messageID 5 1) true 7]
      (((newQueue.perform (.enqueue twice 5)).perform (.dequeue 0 6)).perform
        (.nack (messageID 5 1) true 7)) :=
    .cons rfl (.cons rfl (.cons rfl (.nil _)))
  obtain ⟨dlq, found, each⟩ := queue_conserves rfl execution
  obtain ⟨placed, _, _, bounded⟩ := each
    (newQueue.main.prepare twice.message 5) (by decide)
  exact ⟨_, dlq, newQueue.main.prepare twice.message 5, execution, found,
    by decide, placed, bounded⟩

end CocoDB.Queue
