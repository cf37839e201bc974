import CocoDB.Cluster.Ring
import CocoDB.Queue.Places

/-!
# Enqueuing in a cluster

`Server.handleEnqueue` of `internal/cluster/server.go`.  A request with a
deduplication identifier is forwarded to the owner that the ring gives for it.
A forward that fails falls through to the queue of the node itself, whose
deduplicator knows nothing of the owner's.
-/

namespace CocoDB.Cluster

open Lib Queue

structure EnqueueReq where
  queue : Bytes
  payload : Bytes
  dedupID : Bytes
  priority : UInt8
  delayMs : Int64

/-- What `Queue.Enqueue` makes of a request and the default options. -/
def EnqueueReq.local (request : EnqueueReq) (now : Int64) : Request where
  payload := request.payload
  priority := if 0 < request.priority then request.priority else 128
  dedupID := request.dedupID
  maxRetries := 5
  visibleAt :=
    if 0 < request.delayMs then
      if 0 < request.delayMs * 1000000 then now + request.delayMs * 1000000
      else now
    else now
  expireAt := 0

inductive Reply where
  /-- `StatusOK` with an `EnqueueResp` -/
  | ok (messageID queue : Bytes) (state : MessageState)
  /-- `StatusDuplicate` or `StatusError` with the text of the error -/
  | error (failure : QueueError)

inductive Stage where
  | received
  | forwarding (owner : Bytes)
  | enqueuing
  | answered (reply : Reply)

/-- A call of `handleEnqueue` on a node, for a client or for a peer. -/
structure Handler where
  node : Bytes
  request : EnqueueReq
  fromPeer : Bool
  stage : Stage

structure Forwarded where
  owner : Bytes
  request : EnqueueReq

/-- The nodes by their addresses: their names and the ring they share. -/
structure Deployment where
  ring : HashRing
  nodeID : Bytes → Bytes

/-- The peer to which a node forwards a request.  `getPeer` always finds a
client. -/
def Deployment.forwardsTo (deployment : Deployment) (node : Bytes)
    (request : EnqueueReq) : Option Bytes :=
  if request.dedupID = [] then none
  else
    match deployment.ring.getNode request.dedupID with
    | none => none
    | some ownerNode =>
        if ownerNode ≠ deployment.nodeID node ∧ ownerNode ≠ node then
          some ownerNode
        else none

/-- The queues of every node, the calls in progress and the network. -/
structure ClusterState (τ : Type) where
  queues : Bytes → Bytes → QueueEngine τ
  handlers : List Handler
  frames : List Forwarded

namespace ClusterState

variable {τ : Type}

def started (trees : Bytes → Bytes → τ) : ClusterState τ where
  queues node name := .newQueueEngine name defaultConfig (trees node name)
  handlers := []
  frames := []

def advance (index : Nat) (stage : Stage) (cluster : ClusterState τ) :
    ClusterState τ :=
  { cluster with
    handlers := cluster.handlers.modify index fun handler =>
      { handler with stage := stage } }

variable [Queue.Shelf τ]

def enqueueLocally (index : Nat) (handler : Handler) (now : Int64)
    (cluster : ClusterState τ) : ClusterState τ :=
  let queue := cluster.queues handler.node handler.request.queue
  let (outcome, main) :=
    queue.main.enqueue (handler.request.local now).message now
  let reply : Reply :=
    match outcome with
    | .ok message => .ok message.id message.queue message.state
    | .error failure => .error failure
  { cluster.advance index (.answered reply) with
    queues := Function.update cluster.queues handler.node
      (Function.update (cluster.queues handler.node) handler.request.queue
        { queue with main := main }) }

end ClusterState

inductive Action where
  | request (node : Bytes) (request : EnqueueReq)
  | route (index : Nat)
  | arrive (place : Nat)
  | lose (place : Nat)
  | answer (index : Nat) (reply : Reply)
  | fail (index : Nat)
  | enqueue (index : Nat) (now : Int64)

/-- One action.  Peers share connections, so that the answer a call reads may be
the answer to another frame; a call whose forward fails does not know how far it
came. -/
inductive Acts {τ : Type} [Queue.Shelf τ] (deployment : Deployment) :
    Action → ClusterState τ → ClusterState τ → Prop where
  | request {cluster : ClusterState τ} (node : Bytes) (request : EnqueueReq) :
      Acts deployment (.request node request) cluster
        { cluster with
          handlers := cluster.handlers ++ [⟨node, request, false, .received⟩] }
  | keep {cluster : ClusterState τ} {index : Nat} {handler : Handler} :
      cluster.handlers[index]? = some handler → handler.stage = .received →
      deployment.forwardsTo handler.node handler.request = none →
      Acts deployment (.route index) cluster (cluster.advance index .enqueuing)
  | forward {cluster : ClusterState τ} {index : Nat} {handler : Handler}
      {owner : Bytes} :
      cluster.handlers[index]? = some handler → handler.stage = .received →
      deployment.forwardsTo handler.node handler.request = some owner →
      Acts deployment (.route index) cluster
        { cluster.advance index (.forwarding owner) with
          frames := cluster.frames ++ [⟨owner, handler.request⟩] }
  | arrive {cluster : ClusterState τ} {place : Nat} {frame : Forwarded} :
      cluster.frames[place]? = some frame →
      Acts deployment (.arrive place) cluster
        { cluster with
          handlers := cluster.handlers ++
            [⟨frame.owner, frame.request, true, .received⟩]
          frames := cluster.frames.eraseIdx place }
  | lose {cluster : ClusterState τ} (place : Nat) :
      Acts deployment (.lose place) cluster
        { cluster with frames := cluster.frames.eraseIdx place }
  | answer {cluster : ClusterState τ} {index : Nat} {handler : Handler}
      {owner : Bytes} {reply : Reply} :
      cluster.handlers[index]? = some handler →
      handler.stage = .forwarding owner →
      (∃ other ∈ cluster.handlers, other.node = owner ∧
        other.fromPeer = true ∧ other.stage = .answered reply) →
      Acts deployment (.answer index reply) cluster
        (cluster.advance index (.answered reply))
  | fail {cluster : ClusterState τ} {index : Nat} {handler : Handler}
      {owner : Bytes} :
      cluster.handlers[index]? = some handler →
      handler.stage = .forwarding owner →
      Acts deployment (.fail index) cluster (cluster.advance index .enqueuing)
  | enqueue {cluster : ClusterState τ} {index : Nat} {handler : Handler}
      {now : Int64} :
      cluster.handlers[index]? = some handler → handler.stage = .enqueuing →
      Acts deployment (.enqueue index now) cluster
        (cluster.enqueueLocally index handler now)

def acceptedWith {τ : Type} (dedupID : Bytes) (engine : Engine τ) :
    List Message :=
  (engine.log.filterMap Event.message).filter fun message =>
    message.dedupID = dedupID

def InWindow {τ : Type} (start : Int64) : Action → ClusterState τ → Prop
  | .enqueue _ now, _ => start.toInt ≤ now.toInt ∧
      now.toInt < start.toInt + defaultConfig.dedupWindow.toInt
  | _, _ => True

def Reachable {τ : Type} (queue dedupID : Bytes) :
    Action → ClusterState τ → Prop
  | .fail index, cluster => ∀ handler,
      cluster.handlers[index]? = some handler →
      ¬ (handler.request.queue = queue ∧ handler.request.dedupID = dedupID)
  | _, _ => True

section Engines

variable {τ : Type} [Queue.Shelf τ] {engine : Engine τ} {dedupID : Bytes}
  {start now : Int64} {message : Message}

omit [Queue.Shelf τ] in
theorem acceptedWith_accepted {after : Engine τ} {message : Message}
    (log : after.log = .accepted message :: engine.log) :
    acceptedWith dedupID after =
      if message.dedupID = dedupID then message :: acceptedWith dedupID engine
      else acceptedWith dedupID engine := by
  have shape : after.log.filterMap Event.message =
      message :: engine.log.filterMap Event.message := by
    rw [log]
    rfl
  unfold acceptedWith
  rw [shape, List.filter_cons]
  by_cases same : message.dedupID = dedupID <;> simp [same]

theorem enqueue_spec (engine : Engine τ) (message : Message) (now : Int64) :
    (engine.enqueue message now).2.cfg = engine.cfg ∧
      (engine.enqueue message now).2.dedup =
        (engine.dedup.checkOrSet message.dedupID engine.cfg.dedupWindow
          now).2 ∧
      ((engine.enqueue message now).2.log = engine.log ∨
        (engine.dedup.checkOrSet message.dedupID engine.cfg.dedupWindow
            now).1 = true ∧
          ∃ accepted, accepted.dedupID = message.dedupID ∧
            (engine.enqueue message now).2.log =
              .accepted accepted :: engine.log) := by
  unfold Engine.enqueue
  rcases engine.dedup.checkOrSet message.dedupID engine.cfg.dedupWindow
    now with ⟨isNew, dedup⟩
  simp only
  split
  · exact ⟨rfl, rfl, .inl rfl⟩
  · rename_i new
    split
    · exact ⟨rfl, rfl, .inl rfl⟩
    · split
      all_goals
        exact ⟨rfl, rfl, .inr ⟨by simpa using new,
          engine.prepare message now, rfl, rfl⟩⟩

theorem acceptedWith_other (different : message.dedupID ≠ dedupID) :
    acceptedWith dedupID (engine.enqueue message now).2 =
      acceptedWith dedupID engine := by
  obtain ⟨_, _, same | ⟨_, accepted, sameID, log⟩⟩ :=
    enqueue_spec engine message now
  · unfold acceptedWith
    rw [same]
  · rw [acceptedWith_accepted log, if_neg (sameID ▸ different)]

/-- An engine that accepted an identifier at most once in a window, and remembers
it until the end of the window. -/
structure Once (dedupID : Bytes) (start : Int64) (engine : Engine τ) :
    Prop where
  window : engine.cfg.dedupWindow = defaultConfig.dedupWindow
  atMost : (acceptedWith dedupID engine).length ≤ 1
  remembered : acceptedWith dedupID engine ≠ [] →
    ∃ expireAt, engine.dedup.entries.lookup dedupID = some expireAt ∧
      start.toInt + defaultConfig.dedupWindow.toInt ≤ expireAt.toInt

theorem expiry_after
    (early : start.toInt + 2 * defaultConfig.dedupWindow.toInt < 2 ^ 63)
    (after : start.toInt ≤ now.toInt)
    (before : now.toInt < start.toInt + defaultConfig.dedupWindow.toInt) :
    (now + defaultConfig.dedupWindow).toInt =
      now.toInt + defaultConfig.dedupWindow.toInt := by
  have low := Int64.le_toInt now
  have length : defaultConfig.dedupWindow.toInt = 600000000000 := by decide
  rw [Int64.toInt_add, Int.bmod_eq_of_le]
  · rw [length]
    omega
  · rw [length] at early before ⊢
    omega

theorem Once.enqueue (once : Once dedupID start engine)
    (given : dedupID ≠ [])
    (early : start.toInt + 2 * defaultConfig.dedupWindow.toInt < 2 ^ 63)
    (after : start.toInt ≤ now.toInt)
    (before : now.toInt < start.toInt + defaultConfig.dedupWindow.toInt)
    (message : Message) :
    Once dedupID start (engine.enqueue message now).2 := by
  obtain ⟨cfg, dedup, history⟩ := enqueue_spec engine message now
  have live : ∀ {expireAt : Int64},
      start.toInt + defaultConfig.dedupWindow.toInt ≤ expireAt.toInt →
      now < expireAt := fun bound =>
    Int64.lt_iff_toInt_lt.mpr (before.trans_le bound)
  have window := cfg ▸ once.window
  by_cases same : message.dedupID = dedupID
  · by_cases seen : acceptedWith dedupID engine = []
    · rcases history with kept | ⟨isNew, accepted, sameID, log⟩
      · have none : acceptedWith dedupID (engine.enqueue message now).2 =
            [] := by
          unfold acceptedWith at seen ⊢
          rw [kept]
          exact seen
        exact ⟨window, by rw [none]; exact Nat.zero_le 1,
          fun some => absurd none some⟩
      · have one : acceptedWith dedupID (engine.enqueue message now).2 =
            [accepted] := by
          rw [acceptedWith_accepted log, if_pos (sameID.trans same), seen]
        refine ⟨window, by rw [one]; exact Nat.le_refl 1, fun _ =>
          ⟨now + defaultConfig.dedupWindow, ?_, ?_⟩⟩
        · have sum := expiry_after early after before
          have positive : 0 < defaultConfig.dedupWindow.toInt := by decide
          rw [same, once.window] at isNew dedup
          rw [dedup]
          refine Deduplicator.lookup_checkOrSet_new given isNew ?_
          rw [Int64.lt_iff_toInt_lt, sum]
          omega
        · rw [expiry_after early after before]
          omega
    · -- the engine has the identifier, and takes the message for a duplicate
      obtain ⟨expireAt, held, bound⟩ := once.remembered seen
      have duplicate := Deduplicator.checkOrSet_held given held (live bound)
        engine.cfg.dedupWindow
      rw [same, duplicate] at dedup history
      rcases history with kept | ⟨isNew, _⟩
      · have unchanged : acceptedWith dedupID (engine.enqueue message now).2 =
            acceptedWith dedupID engine := by
          unfold acceptedWith
          rw [kept]
        exact ⟨window, unchanged ▸ once.atMost, fun _ =>
          ⟨expireAt, dedup ▸ held, bound⟩⟩
      · cases isNew
  · have unchanged := @acceptedWith_other _ _ engine dedupID now message same
    refine ⟨window, unchanged ▸ once.atMost, fun some => ?_⟩
    obtain ⟨expireAt, held, bound⟩ := once.remembered (unchanged ▸ some)
    refine ⟨expireAt, ?_, bound⟩
    rw [dedup]
    exact Deduplicator.lookup_checkOrSet (Ne.symm same) held (live bound) _

end Engines

section Clusters

variable {τ : Type} {deployment : Deployment} {queue dedupID owner : Bytes}
  {start : Int64} {cluster next : ClusterState τ}

/-- Only the owner enqueues messages with the identifier. -/
structure Owned (queue dedupID owner : Bytes) (start : Int64)
    (cluster : ClusterState τ) : Prop where
  settled : ∀ handler ∈ cluster.handlers, handler.request.queue = queue →
    handler.request.dedupID = dedupID → handler.stage = .enqueuing →
    handler.node = owner
  elsewhere : ∀ node, node ≠ owner →
    acceptedWith dedupID (cluster.queues node queue).main = []
  once : Once dedupID start (cluster.queues owner queue).main

theorem mem_advance {index : Nat} {stage : Stage} {handler : Handler}
    (member : handler ∈ (cluster.advance index stage).handlers) :
    handler ∈ cluster.handlers ∨ ∃ old,
      cluster.handlers[index]? = some old ∧
        handler = { old with stage := stage } := by
  obtain ⟨place, found⟩ := List.mem_iff_getElem?.mp member
  unfold ClusterState.advance at found
  simp only [List.getElem?_modify] at found
  by_cases same : index = place
  · subst same
    obtain ⟨old, before, changed⟩ := Option.map_eq_some_iff.mp found
    rw [if_pos rfl] at changed
    exact .inr ⟨old, before, changed.symm⟩
  · obtain ⟨old, before, changed⟩ := Option.map_eq_some_iff.mp found
    rw [if_neg same] at changed
    exact .inl (changed ▸ List.mem_of_getElem? before)

theorem Owned.advance (owned : Owned queue dedupID owner start cluster)
    {index : Nat} {stage : Stage}
    (rightful : ∀ handler, cluster.handlers[index]? = some handler →
      handler.request.queue = queue → handler.request.dedupID = dedupID →
      stage = .enqueuing → handler.node = owner) :
    Owned queue dedupID owner start (cluster.advance index stage) := by
  refine ⟨fun handler member sameQueue sameID ready => ?_, owned.elsewhere,
    owned.once⟩
  rcases mem_advance member with kept | ⟨old, found, rfl⟩
  · exact owned.settled handler kept sameQueue sameID ready
  · exact rightful old found sameQueue sameID ready

theorem Owned.appended (owned : Owned queue dedupID owner start cluster)
    (node : Bytes) (request : EnqueueReq) (fromPeer : Bool)
    (frames : List Forwarded) :
    Owned queue dedupID owner start
      { cluster with
        handlers := cluster.handlers ++ [⟨node, request, fromPeer, .received⟩]
        frames := frames } := by
  refine ⟨fun handler member sameQueue sameID ready => ?_, owned.elsewhere,
    owned.once⟩
  rcases List.mem_append.mp member with earlier | last
  · exact owned.settled handler earlier sameQueue sameID ready
  · rw [List.mem_singleton.mp last] at ready
    cases ready

theorem keeps_iff_owner (given : dedupID ≠ [])
    (owns : deployment.ring.getNode dedupID = some owner)
    (named : ∀ node, deployment.nodeID node = owner → node = owner)
    {node : Bytes} {request : EnqueueReq} (sameID : request.dedupID = dedupID)
    (keeps : deployment.forwardsTo node request = none) : node = owner := by
  unfold Deployment.forwardsTo at keeps
  rw [sameID, if_neg given, owns] at keeps
  simp only at keeps
  split at keeps
  · cases keeps
  · rename_i own
    by_cases byName : owner = deployment.nodeID node
    · exact named node byName.symm
    · by_contra different
      exact own ⟨byName, Ne.symm different⟩

theorem Owned.total (owned : Owned queue dedupID owner start cluster)
    {nodes : List Bytes} (distinct : nodes.Nodup) :
    (nodes.flatMap fun node =>
      acceptedWith dedupID (cluster.queues node queue).main).length ≤ 1 := by
  induction nodes with
  | nil => exact Nat.zero_le 1
  | cons node rest inductionHypothesis =>
      obtain ⟨absent, distinctRest⟩ := List.nodup_cons.mp distinct
      rw [List.flatMap_cons]
      by_cases here : node = owner
      · subst here
        have nothing : (rest.flatMap fun other =>
            acceptedWith dedupID (cluster.queues other queue).main) = [] :=
          List.flatMap_eq_nil_iff.mpr fun other member =>
            owned.elsewhere other fun same => absent (same ▸ member)
        rw [nothing, List.append_nil]
        exact owned.once.atMost
      · rw [owned.elsewhere node here, List.nil_append]
        exact inductionHypothesis distinctRest

variable [Queue.Shelf τ]

theorem Owned.enqueueLocally (owned : Owned queue dedupID owner start cluster)
    (given : dedupID ≠ [])
    (early : start.toInt + 2 * defaultConfig.dedupWindow.toInt < 2 ^ 63)
    {now : Int64} (after : start.toInt ≤ now.toInt)
    (before : now.toInt < start.toInt + defaultConfig.dedupWindow.toInt)
    {index : Nat} {handler : Handler} (member : handler ∈ cluster.handlers)
    (ready : handler.stage = .enqueuing) :
    Owned queue dedupID owner start
      (cluster.enqueueLocally index handler now) := by
  have advanced := fun reply => @Owned.advance _ queue dedupID owner start
    cluster owned index (.answered reply) (fun _ _ _ _ wrong => nomatch wrong)
  have queues : ∀ node,
      ((cluster.enqueueLocally index handler now).queues node queue).main =
        if node = handler.node ∧ queue = handler.request.queue then
          ((cluster.queues node queue).main.enqueue
            (handler.request.local now).message now).2
        else (cluster.queues node queue).main := by
    intro node
    unfold ClusterState.enqueueLocally
    simp only
    by_cases sameNode : node = handler.node
    · subst sameNode
      rw [Function.update_self]
      by_cases sameQueue : queue = handler.request.queue
      · subst sameQueue
        rw [Function.update_self, if_pos ⟨rfl, rfl⟩]
      · rw [Function.update_of_ne sameQueue, if_neg fun both =>
          sameQueue both.2]
    · rw [Function.update_of_ne sameNode, if_neg fun both => sameNode both.1]
  refine ⟨fun other inside => (advanced _).settled other inside,
    fun node foreign => ?_, ?_⟩
  · rw [queues]
    split
    · rename_i here
      -- a call with the identifier would be at the owner
      have different : (handler.request.local now).message.dedupID ≠
          dedupID := fun same =>
        foreign (here.1.trans
          (owned.settled handler member here.2.symm same ready))
      rw [acceptedWith_other different]
      exact owned.elsewhere node foreign
    · exact owned.elsewhere node foreign
  · rw [queues]
    split
    · exact owned.once.enqueue given early after before _
    · exact owned.once

theorem Acts.owned {action : Action} (acts : Acts deployment action cluster next)
    (given : dedupID ≠ [])
    (owns : deployment.ring.getNode dedupID = some owner)
    (named : ∀ node, deployment.nodeID node = owner → node = owner)
    (early : start.toInt + 2 * defaultConfig.dedupWindow.toInt < 2 ^ 63)
    (inWindow : InWindow start action cluster)
    (reachable : Reachable queue dedupID action cluster)
    (owned : Owned queue dedupID owner start cluster) :
    Owned queue dedupID owner start next := by
  cases acts with
  | request node request => exact owned.appended node request false _
  | @keep _ index handler found received keeps =>
      refine owned.advance fun other same _ sameID _ => ?_
      rw [found] at same
      cases same
      exact keeps_iff_owner given owns named sameID keeps
  | @forward _ index handler peer found received forwards =>
      have advanced := @Owned.advance _ queue dedupID owner start cluster owned
        index (.forwarding peer) (fun _ _ _ _ wrong => nomatch wrong)
      exact ⟨advanced.settled, advanced.elsewhere, advanced.once⟩
  | arrive found => exact owned.appended _ _ true _
  | lose place => exact ⟨owned.settled, owned.elsewhere, owned.once⟩
  | answer found forwarding answered =>
      exact owned.advance fun _ _ _ _ wrong => nomatch wrong
  | @fail _ index handler peer found forwarding =>
      refine owned.advance fun other same sameQueue sameID _ => ?_
      exact absurd ⟨sameQueue, sameID⟩ (reachable other same)
  | enqueue found ready =>
      exact owned.enqueueLocally given early inWindow.1 inWindow.2
        (List.mem_of_getElem? found) ready

/-- In every run in which no forward of a request to the queue with the identifier
fails, at most one message with the identifier is accepted over all nodes. -/
theorem enqueue_at_most_once {trees : Bytes → Bytes → τ}
    (given : dedupID ≠ [])
    (owns : deployment.ring.getNode dedupID = some owner)
    (named : ∀ node, deployment.nodeID node = owner → node = owner)
    (early : start.toInt + 2 * defaultConfig.dedupWindow.toInt < 2 ^ 63)
    {actions : List Action} {final : ClusterState τ}
    (execution : Execution
      (Guarded (fun action cluster => InWindow start action cluster ∧
        Reachable queue dedupID action cluster) (Acts deployment))
      (ClusterState.started trees) actions final)
    {nodes : List Bytes} (distinct : nodes.Nodup) :
    (nodes.flatMap fun node =>
      acceptedWith dedupID (final.queues node queue).main).length ≤ 1 := by
  have initial : Owned queue dedupID owner start
      (ClusterState.started trees) := by
    refine ⟨fun handler member => (nomatch member), fun node _ => rfl,
      ⟨?_, Nat.zero_le 1, fun some => absurd rfl some⟩⟩
    exact (by decide : defaultConfig.filled.dedupWindow =
      defaultConfig.dedupWindow)
  have owned : Owned queue dedupID owner start final :=
    execution.invariant
      (fun holds guarded => Acts.owned guarded.2 given owns named early
        guarded.1.1 guarded.1.2 holds) initial
  exact owned.total distinct

end Clusters

/-! ## Two nodes -/

/-- Nodes `a` and `b` under their default names. -/
def twoNodes : Deployment where
  ring := ((HashRing.newHashRing 1).addNode [0x61]).addNode [0x62]
  nodeID node := [0x6E, 0x6F, 0x64, 0x65, 0x5F] ++ node

/-- A request whose owner is `b`. -/
def payment : EnqueueReq where
  queue := [0x71]
  payload := [1]
  dedupID := [0x78]
  priority := 0
  delayMs := 0

theorem twoNodes_owner : twoNodes.ring.getNode payment.dedupID = some [0x62] := by
  decide

theorem twoNodes_forwards :
    twoNodes.forwardsTo [0x61] payment = some [0x62] := by
  decide

theorem twoNodes_keeps : twoNodes.forwardsTo [0x62] payment = none := by
  decide

/-- Node `a` gets the request and forwards it, and `b` accepts the message. -/
def forwarded : List Action :=
  [.request [0x61] payment, .route 0, .arrive 0, .route 1, .enqueue 1 5]

theorem enqueue_at_most_once_sample :
    ∃ final : ClusterState Unit,
      Execution (Guarded (fun action cluster => InWindow 0 action cluster ∧
        Reachable [0x71] [0x78] action cluster) (Acts twoNodes))
        (ClusterState.started fun _ _ => ()) forwarded final ∧
      (acceptedWith [0x78] (final.queues [0x62] [0x71]).main).length = 1 ∧
      ([[0x61], [0x62]].flatMap fun node =>
        acceptedWith [0x78] (final.queues node [0x71]).main).length ≤ 1 := by
  have run : ∃ final : ClusterState Unit,
      Execution (Guarded (fun action cluster => InWindow 0 action cluster ∧
        Reachable [0x71] [0x78] action cluster) (Acts twoNodes))
        (ClusterState.started fun _ _ => ()) forwarded final ∧
      (acceptedWith [0x78] (final.queues [0x62] [0x71]).main).length = 1 :=
    ⟨_, .cons ⟨⟨trivial, trivial⟩, .request _ _⟩
      (.cons ⟨⟨trivial, trivial⟩, .forward rfl rfl twoNodes_forwards⟩
        (.cons ⟨⟨trivial, trivial⟩, .arrive rfl⟩
          (.cons ⟨⟨trivial, trivial⟩, .keep rfl rfl twoNodes_keeps⟩
            (.cons ⟨⟨⟨by decide, by decide⟩, trivial⟩, .enqueue rfl rfl⟩ (.nil _))))),
      by decide⟩
  obtain ⟨final, execution, accepted⟩ := run
  refine ⟨final, execution, accepted, enqueue_at_most_once (by decide)
    twoNodes_owner (fun node same => ?_) (by decide) execution (by decide)⟩
  cases same

/-- The answer of `b` is lost, and `a` accepts the message once more. -/
theorem enqueue_twice :
    ∃ final : ClusterState Unit,
      Execution (Guarded (InWindow 0) (Acts twoNodes))
        (ClusterState.started fun _ _ => ())
        (forwarded ++ [.fail 0, .enqueue 0 6]) final ∧
      ([[0x61], [0x62]].flatMap fun node =>
        acceptedWith [0x78] (final.queues node [0x71]).main).length = 2 := by
  refine ⟨_, .cons ⟨trivial, .request _ _⟩
    (.cons ⟨trivial, .forward rfl rfl twoNodes_forwards⟩
      (.cons ⟨trivial, .arrive rfl⟩
        (.cons ⟨trivial, .keep rfl rfl twoNodes_keeps⟩
          (.cons ⟨⟨by decide, by decide⟩, .enqueue rfl rfl⟩
            (.cons ⟨trivial, .fail rfl rfl⟩
              (.cons ⟨⟨by decide, by decide⟩, .enqueue rfl rfl⟩ (.nil _))))))), ?_⟩
  decide

end CocoDB.Cluster
