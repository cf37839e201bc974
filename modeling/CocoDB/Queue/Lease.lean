import CocoDB.Queue.Delivery

/-!
# Leases

Workers take messages off a main queue and name them by identifier when they
acknowledge, give back or extend.  The engine keeps no trace of who got a
message, so that the leases are a history beside it.
-/

namespace CocoDB.Queue

open Lib

/-- Who got a message last, and until when. -/
structure Lease (Worker : Type) where
  worker : Worker
  deadline : Int64
deriving DecidableEq

inductive WorkerCall (Worker : Type) where
  | enqueue (request : Request) (now : Int64)
  | dequeue (worker : Worker) (visibilityTimeout now : Int64)
  | ack (worker : Worker) (msgID : Bytes) (now : Int64)
  | nack (worker : Worker) (msgID : Bytes) (requeue : Bool) (now : Int64)
  | extend (worker : Worker) (msgID : Bytes) (duration now : Int64)
  | checkInFlightAndDelayed
      (order : Shuffle (Sigma fun _ : Bytes => Message)) (now : Int64)

namespace WorkerCall

variable {Worker : Type}

def call : WorkerCall Worker → Call
  | enqueue request now => .enqueue request now
  | dequeue _ visibilityTimeout now => .dequeue visibilityTimeout now
  | ack _ msgID _ => .ack msgID
  | nack _ msgID requeue now => .nack msgID requeue now
  | extend _ msgID duration now => .extend msgID duration now
  | checkInFlightAndDelayed order now => .checkInFlightAndDelayed order now

def now : WorkerCall Worker → Int64
  | enqueue _ now => now
  | dequeue _ _ now => now
  | ack _ _ now => now
  | nack _ _ _ now => now
  | extend _ _ _ now => now
  | checkInFlightAndDelayed _ now => now

end WorkerCall

/-- A queue, the time of the last call, and the deliveries so far. -/
structure Session (τ Worker : Type) where
  queue : QueueEngine τ
  clock : Int64
  lease : Bytes → Option (Lease Worker)
  received : List (Worker × Bytes)

namespace Session

variable {τ Worker : Type}

def newSession (queue : QueueEngine τ) (clock : Int64) : Session τ Worker where
  queue := queue
  clock := clock
  lease _ := none
  received := []

def holder (session : Session τ Worker) (id : Bytes) : Option Worker :=
  (session.lease id).map Lease.worker

variable [Shelf τ]

/-- What a call of `Dequeue` returns. -/
def obtained (session : Session τ Worker) :
    WorkerCall Worker → Option (Worker × Message)
  | .dequeue worker visibilityTimeout now =>
      match (session.queue.main.dequeue visibilityTimeout now).1 with
      | .ok (some message) => some (worker, message)
      | _ => none
  | _ => none

variable [DecidableEq Worker]

/-- The leases after a call: `Dequeue` begins one, its worker ends it or sets
its deadline anew. -/
def leases (session : Session τ Worker) (call : WorkerCall Worker) :
    Bytes → Option (Lease Worker) :=
  match call with
  | .dequeue _ _ _ =>
      match session.obtained call with
      | some (worker, message) =>
          Function.update session.lease message.id
            (some ⟨worker, message.visibleAt⟩)
      | none => session.lease
  | .ack worker msgID _ | .nack worker msgID _ _ =>
      if session.holder msgID = some worker then
        Function.update session.lease msgID none
      else session.lease
  | .extend worker msgID duration now =>
      if session.holder msgID = some worker ∧
          (session.queue.main.inFlight.lookup msgID).isSome then
        Function.update session.lease msgID (some ⟨worker, now + duration⟩)
      else session.lease
  | _ => session.lease

def perform (session : Session τ Worker) (call : WorkerCall Worker) :
    Session τ Worker where
  queue := session.queue.perform call.call
  clock := call.now
  lease := session.leases call
  received := ((session.obtained call).map fun pair =>
    (pair.1, pair.2.id)).toList ++ session.received

end Session

section Conditions

variable {τ Worker : Type}

def Serves [Shelf τ] [DecidableEq Worker] (call : WorkerCall Worker)
    (before after : Session τ Worker) : Prop :=
  after = before.perform call

/-- The clock does not run backwards, and workers name messages that they
got. -/
def Attended (call : WorkerCall Worker) (session : Session τ Worker) : Prop :=
  session.clock ≤ call.now ∧
    match call with
    | .ack worker msgID _ => (worker, msgID) ∈ session.received
    | .nack worker msgID _ _ => (worker, msgID) ∈ session.received
    | .extend worker msgID _ _ => (worker, msgID) ∈ session.received
    | _ => True

/-- A worker does not acknowledge a message, give it back or extend it for a
shorter time while another one holds a lease on it. -/
def Rightful (call : WorkerCall Worker) (session : Session τ Worker) : Prop :=
  match call with
  | .ack worker msgID now | .nack worker msgID _ now =>
      ∀ lease, session.lease msgID = some lease → now < lease.deadline →
        lease.worker = worker
  | .extend worker msgID duration now =>
      ∀ lease, session.lease msgID = some lease → now < lease.deadline →
        lease.worker = worker ∨ lease.deadline ≤ now + duration
  | _ => True

/-- A message under a lease is in flight and stays invisible until the
deadline. -/
def Protected (session : Session τ Worker) : Prop :=
  ∀ id lease, session.lease id = some lease → session.clock < lease.deadline →
    ∃ message, session.queue.main.inFlight.lookup id = some message ∧
      lease.deadline ≤ message.visibleAt

end Conditions

section Flight

variable {τ : Type} [Shelf τ] {engine : Engine τ} {queue : QueueEngine τ}

theorem enqueue_inFlight (message : Message) (now : Int64) :
    (engine.enqueue message now).2.inFlight = engine.inFlight := by
  unfold Engine.enqueue
  simp only
  split
  · rfl
  · split
    · rfl
    · split <;> rfl

/-- `Dequeue` puts the message that it returns in flight, and that one was not in
flight before. -/
theorem scanReady_inFlight (conserved : Conserved engine) (timeout now : Int64)
    (turns : Nat) :
    match (engine.scanReady timeout now turns).1 with
    | none =>
        (engine.scanReady timeout now turns).2.inFlight = engine.inFlight
    | some held => held.id ∉ engine.inFlight.keys ∧
        (engine.scanReady timeout now turns).2.inFlight =
          engine.inFlight.insert held.id held := by
  induction turns generalizing engine with
  | zero => rfl
  | succ turns inductionHypothesis =>
      rw [Engine.scanReady]
      cases top : engine.readyHeap.head? with
      | none => rfl
      | some message =>
          simp only
          by_cases expired : Engine.isExpired now message = true
          · rw [if_pos expired]
            exact inductionHypothesis (conserved.moved (moved_dropTop top))
          · rw [if_neg expired]
            by_cases delayed : now < message.visibleAt
            · rw [if_pos delayed]
            · rw [if_neg delayed]
              obtain ⟨rest, shape, _⟩ := popReady_spec top
              exact ⟨(conserved.top_alone shape).1, rfl⟩

theorem dequeue_inFlight (conserved : Conserved engine)
    (visibilityTimeout now : Int64) :
    match (engine.dequeue visibilityTimeout now).1 with
    | .ok (some held) => held.id ∉ engine.inFlight.keys ∧
        (engine.dequeue visibilityTimeout now).2.inFlight =
          engine.inFlight.insert held.id held
    | _ =>
        (engine.dequeue visibilityTimeout now).2.inFlight =
          engine.inFlight := by
  unfold Engine.dequeue
  simp only
  by_cases closed : engine.closed = true
  · rw [if_pos closed]
  · rw [if_neg closed]
    have scanned := scanReady_inFlight conserved
      (if visibilityTimeout ≤ 0 then engine.cfg.defaultVisibilityTimeout
        else visibilityTimeout) now (engine.readyHeap.length + 1)
    revert scanned
    generalize engine.scanReady _ now _ = outcome
    obtain ⟨found, after⟩ := outcome
    cases found with
    | none => exact fun same => same
    | some held => exact fun spec => spec

theorem lookup_ack {id msgID : Bytes} (different : id ≠ msgID) :
    (engine.ack msgID).2.inFlight.lookup id = engine.inFlight.lookup id := by
  unfold Engine.ack
  split
  · rfl
  · exact AList.lookup_erase_ne different

theorem lookup_nack {id msgID : Bytes} (different : id ≠ msgID)
    (requeue : Bool) (now : Int64) :
    (queue.nack msgID requeue now).2.main.inFlight.lookup id =
      queue.main.inFlight.lookup id := by
  unfold QueueEngine.nack
  split
  · rfl
  · split
    · exact AList.lookup_erase_ne different
    · exact AList.lookup_erase_ne different

theorem lookup_extend {id msgID : Bytes} (different : id ≠ msgID)
    (duration now : Int64) :
    (engine.extend msgID duration now).2.inFlight.lookup id =
      engine.inFlight.lookup id := by
  unfold Engine.extend
  split
  · rfl
  · exact AList.lookup_insert_ne different

theorem lookup_extend_self {msgID : Bytes} {message : Message}
    (held : engine.inFlight.lookup msgID = some message)
    (duration now : Int64) :
    (engine.extend msgID duration now).2.inFlight.lookup msgID =
      some { message with visibleAt := now + duration } := by
  unfold Engine.extend
  rw [held]
  exact AList.lookup_insert _

theorem lookup_checkInFlightAndDelayed
    {order : Shuffle (Sigma fun _ : Bytes => Message)} {now : Int64}
    {id : Bytes} {message : Message}
    (held : queue.main.inFlight.lookup id = some message)
    (invisible : now < message.visibleAt) :
    (queue.checkInFlightAndDelayed order now).main.inFlight.lookup id =
      some message := by
  refine @checkInFlightAndDelayed_invariant _ _ queue
    (fun swept => swept.main.inFlight.lookup id = some message) order now
    (fun {swept other visited} holds found => ?_) held
  by_cases same : other = id
  · subst same
    rw [holds] at found
    cases found
    unfold QueueEngine.lapse
    rw [if_pos invisible]
    exact holds
  · rw [lapse_lookup (Ne.symm same)]
    exact holds

end Flight

section Sessions

variable {τ Worker : Type} [Shelf τ] [DecidableEq Worker]
  {session : Session τ Worker}

theorem Protected.untouched (protects : Protected session)
    (call : WorkerCall Worker) (later : session.clock ≤ call.now) {id : Bytes}
    (same : session.leases call id = session.lease id)
    (alone : (session.queue.perform call.call).main.inFlight.lookup id =
      session.queue.main.inFlight.lookup id)
    {lease : Lease Worker} (held : session.leases call id = some lease)
    (live : call.now < lease.deadline) :
    ∃ message, (session.queue.perform call.call).main.inFlight.lookup id =
        some message ∧ lease.deadline ≤ message.visibleAt := by
  rw [same] at held
  rw [alone]
  exact protects id lease held (Int64.lt_of_le_of_lt later live)

theorem leases_dequeue (worker : Worker) {visibilityTimeout now : Int64}
    {message : Message}
    (returned : (session.queue.main.dequeue visibilityTimeout now).1 =
      .ok (some message)) :
    session.leases (.dequeue worker visibilityTimeout now) =
      Function.update session.lease message.id
        (some ⟨worker, message.visibleAt⟩) := by
  simp only [Session.leases, Session.obtained, returned]

theorem leases_dequeue_none (worker : Worker) {visibilityTimeout now : Int64}
    (nothing : ∀ message,
      (session.queue.main.dequeue visibilityTimeout now).1 ≠
        .ok (some message)) :
    session.leases (.dequeue worker visibilityTimeout now) =
      session.lease := by
  have nobody : session.obtained (.dequeue worker visibilityTimeout now) =
      none := by
    unfold Session.obtained
    cases outcome :
        (session.queue.main.dequeue visibilityTimeout now).1 with
    | error failure => simp only [outcome]
    | ok found =>
        cases found with
        | none => simp only [outcome]
        | some message => exact absurd outcome (nothing message)
  simp only [Session.leases, nobody]

theorem Protected.dequeue (protects : Protected session)
    (conserved : Conserved session.queue.main) {worker : Worker}
    {visibilityTimeout now : Int64} (later : session.clock ≤ now) :
    Protected (session.perform (.dequeue worker visibilityTimeout now)) := by
  intro id lease held live
  have spec := dequeue_inFlight conserved visibilityTimeout now
  by_cases returned : ∃ message,
      (session.queue.main.dequeue visibilityTimeout now).1 = .ok (some message)
  · obtain ⟨message, returned⟩ := returned
    rw [returned] at spec
    have leases := leases_dequeue worker returned
    by_cases same : id = message.id
    · subst same
      have given := (congrFun leases message.id).symm.trans held
      rw [Function.update_self] at given
      cases given
      refine ⟨message, ?_, Int64.le_refl _⟩
      exact (congrArg (AList.lookup _) spec.2).trans (AList.lookup_insert _)
    · refine protects.untouched (.dequeue worker visibilityTimeout now) later
        ?_ ?_ held live
      · rw [leases]
        exact Function.update_of_ne same _ _
      · exact (congrArg (AList.lookup id) spec.2).trans
          (AList.lookup_insert_ne same)
  · rw [not_exists] at returned
    refine protects.untouched (.dequeue worker visibilityTimeout now) later
      (congrFun (leases_dequeue_none worker returned) id) ?_ held live
    split at spec
    · rename_i found
      exact absurd found (returned _)
    · exact congrArg (AList.lookup id) spec

/-- A call that ends the lease of its worker on the message it names and leaves
the other messages in flight alone. -/
theorem Protected.settle (protects : Protected session)
    {call : WorkerCall Worker} {worker : Worker} {msgID : Bytes}
    (later : session.clock ≤ call.now)
    (leases : session.leases call =
      if session.holder msgID = some worker then
        Function.update session.lease msgID none
      else session.lease)
    (rightful : ∀ lease, session.lease msgID = some lease →
      call.now < lease.deadline → lease.worker = worker)
    (others : ∀ id, id ≠ msgID →
      (session.queue.perform call.call).main.inFlight.lookup id =
        session.queue.main.inFlight.lookup id) :
    Protected (session.perform call) := by
  intro id lease held live
  by_cases same : id = msgID
  · subst same
    have given : session.leases call id = some lease := held
    rw [leases] at given
    split at given
    · rw [Function.update_self] at given
      cases given
    · rename_i stranger
      -- a live lease belongs to the caller, who would have ended it
      have own := rightful lease given live
      refine absurd ?_ stranger
      unfold Session.holder
      rw [given, Option.map_some, own]
  · refine protects.untouched call later ?_ (others id same) held live
    rw [leases]
    split
    · exact Function.update_of_ne same _ _
    · rfl

theorem Protected.extend (protects : Protected session) {worker : Worker}
    {msgID : Bytes} {duration now : Int64} (later : session.clock ≤ now)
    (rightful : Rightful (.extend worker msgID duration now) session) :
    Protected (session.perform (.extend worker msgID duration now)) := by
  intro id lease held live
  by_cases same : id = msgID
  · subst same
    have given : session.leases (.extend worker id duration now) id =
        some lease := held
    unfold Session.leases at given
    simp only at given
    split at given
    · rename_i own
      rw [Function.update_self] at given
      cases given
      obtain ⟨message, found⟩ := Option.isSome_iff_exists.mp own.2
      exact ⟨_, lookup_extend_self found duration now, Int64.le_refl _⟩
    · rename_i stranger
      obtain ⟨message, found, bound⟩ :=
        protects id lease given (Int64.lt_of_le_of_lt later live)
      have longer : lease.deadline ≤ now + duration := by
        rcases rightful lease given live with own | longer
        · refine absurd ⟨?_, ?_⟩ stranger
          · unfold Session.holder
            rw [given, Option.map_some, own]
          · rw [found]
            rfl
        · exact longer
      exact ⟨_, lookup_extend_self found duration now, longer⟩
  · refine protects.untouched (.extend worker msgID duration now) later ?_
      (lookup_extend same duration now) held live
    unfold Session.leases
    simp only
    split
    · exact Function.update_of_ne same _ _
    · rfl

theorem Serves.protected {call : WorkerCall Worker}
    {after : Session τ Worker} (serves : Serves call session after)
    (attended : Attended call session) (rightful : Rightful call session)
    (sound : Sound session.queue.main) (protects : Protected session) :
    Protected after := by
  rw [serves]
  have later := attended.1
  cases call with
  | enqueue request now =>
      intro id lease held live
      exact protects.untouched (.enqueue request now) later rfl
        (congrArg (AList.lookup id) (enqueue_inFlight request.message now))
        held live
  | dequeue worker visibilityTimeout now =>
      exact protects.dequeue sound.conserved later
  | ack worker msgID now =>
      exact protects.settle later rfl rightful
        (fun id different => lookup_ack different)
  | nack worker msgID requeue now =>
      exact protects.settle later rfl rightful
        (fun id different => lookup_nack different requeue now)
  | extend worker msgID duration now => exact protects.extend later rightful
  | checkInFlightAndDelayed order now =>
      intro id lease held live
      obtain ⟨message, found, bound⟩ :=
        protects id lease held (Int64.lt_of_le_of_lt later live)
      exact ⟨message, lookup_checkInFlightAndDelayed found
        (Int64.lt_of_lt_of_le live bound), bound⟩

end Sessions

/-! ## Two workers -/

def overtaken : List (WorkerCall Nat) :=
  [.enqueue twice 5, .dequeue 0 10 6,
    .checkInFlightAndDelayed (.listed _) 20, .dequeue 1 10 21]

def twoWorkers : Session Unit Nat :=
  overtaken.foldl Session.perform (.newSession newQueue 0)

theorem overtaken_attended :
    Execution (Guarded (fun call session => Attended call session ∧
      Rightful call session) Serves) (.newSession newQueue 0) overtaken
      twoWorkers :=
  .cons ⟨⟨⟨by decide, trivial⟩, trivial⟩, rfl⟩
    (.cons ⟨⟨⟨by decide, trivial⟩, trivial⟩, rfl⟩
      (.cons ⟨⟨⟨by decide, trivial⟩, trivial⟩, rfl⟩
        (.cons ⟨⟨⟨by decide, trivial⟩, trivial⟩, rfl⟩ (.nil _))))

end CocoDB.Queue
