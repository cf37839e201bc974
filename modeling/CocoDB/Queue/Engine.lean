import CocoDB.Lib.Heap
import CocoDB.Queue.Dedup
import CocoDB.Queue.Message
import Mathlib.Data.Nat.Digits.Defs

/-!
# The queue engine

`internal/queue/queue.go`.  Every call holds the lock of its engine, so that a
call is one step.  A message is in the ready heap or among the messages in
flight; a main engine hands messages that have used up their deliveries to its
dead-letter engine, which has none of its own.
-/

namespace CocoDB.Queue

open Lib

structure Config where
  defaultVisibilityTimeout : Int64
  defaultMaxRetries : Int
  dedupWindow : Int64
  enableDLQ : Bool
deriving DecidableEq, Repr

def defaultConfig : Config where
  defaultVisibilityTimeout := 30000000000
  defaultMaxRetries := 5
  dedupWindow := 600000000000
  enableDLQ := true

/-- The defaults that `NewQueueEngine` fills in. -/
def Config.filled (cfg : Config) : Config where
  defaultVisibilityTimeout :=
    if cfg.defaultVisibilityTimeout ≤ 0 then 30000000000
    else cfg.defaultVisibilityTimeout
  defaultMaxRetries :=
    if cfg.defaultMaxRetries ≤ 0 then 5 else cfg.defaultMaxRetries
  dedupWindow := if cfg.dedupWindow ≤ 0 then 600000000000 else cfg.dedupWindow
  enableDLQ := cfg.enableDLQ

inductive QueueError where
  /-- `coco/queue: duplicate message detected within deduplication window` -/
  | duplicateMessage
  /-- `coco/queue: message not found` -/
  | messageNotFound
  /-- `coco/queue: max retries exceeded, routed to DLQ` -/
  | maxRetriesExceeded
  /-- `coco/queue: queue closed` -/
  | queueClosed
deriving DecidableEq, Repr

/-- The tree of an engine; the errors of its calls are discarded. -/
class Shelf (τ : Type) where
  insert : Bytes → Bytes → τ → τ
  delete : Bytes → τ → τ

instance memoryShelf : Shelf Unit where
  insert _ _ shelf := shelf
  delete _ shelf := shelf

inductive Event where
  | accepted (message : Message)
  | delivered (id : Bytes)
  | acked (id : Bytes)
  | expired (id : Bytes)
  /-- `Nack` without requeue. -/
  | rejected (id : Bytes)
  /-- The deliveries are used up. -/
  | exhausted (id : Bytes)
deriving DecidableEq

/-- `QueueEngine` without its dead-letter engine.  `log` is a history that no
call reads. -/
structure Engine (τ : Type) where
  name : Bytes
  cfg : Config
  readyHeap : List Message
  inFlight : AList fun _ : Bytes => Message
  dedup : Deduplicator
  tree : τ
  msgSeq : Nat
  closed : Bool
  log : List Event

def less (left right : Message) : Bool :=
  if left.priority ≠ right.priority then right.priority < left.priority
  else left.visibleAt < right.visibleAt

/-- The ready heap is kept by `container/heap`. -/
def priorityHeap : HeapOrder Message := .ofLess less

/-- `%d` of a natural number -/
def decimal (value : Nat) : Bytes :=
  if value = 0 then [0x30]
  else (Nat.digits 10 value).reverse.map fun digit => 0x30 + UInt8.ofNat digit

/-- `%d` of an `int64` -/
def formatInt64 (value : Int64) : Bytes :=
  if value < 0 then 0x2D :: decimal value.toInt.natAbs
  else decimal value.toInt.toNat

/-- `msg_%d_%d` -/
def messageID (now : Int64) (seq : Nat) : Bytes :=
  [0x6D, 0x73, 0x67, 0x5F] ++ formatInt64 now ++ [0x5F] ++ decimal seq

namespace Engine

variable {τ : Type} [Shelf τ]

/-- `NewQueueEngine`, up to the restored messages and the dead-letter engine -/
def newEngine (name : Bytes) (cfg : Config) (tree : τ) : Engine τ where
  name := name
  cfg := cfg.filled
  readyHeap := []
  inFlight := ∅
  dedup := .newDeduplicator
  tree := tree
  msgSeq := 0
  closed := false
  log := []

/-- `q.tree.Insert` -/
def store (message : Message) (engine : Engine τ) : Engine τ :=
  { engine with
    tree := Shelf.insert message.id message.encode engine.tree }

/-- `q.tree.Delete` -/
def forget (id : Bytes) (engine : Engine τ) : Engine τ :=
  { engine with tree := Shelf.delete id engine.tree }

def pushReady (message : Message) (engine : Engine τ) : Engine τ :=
  { engine with readyHeap := heapPush priorityHeap message engine.readyHeap }

def popReady (engine : Engine τ) : Engine τ :=
  { engine with readyHeap := (heapPop priorityHeap engine.readyHeap).2 }

def record (event : Event) (engine : Engine τ) : Engine τ :=
  { engine with log := event :: engine.log }

/-- The fields that `Enqueue` sets. -/
def prepare (message : Message) (now : Int64) (engine : Engine τ) : Message :=
  { message with
    id := if message.id = [] then messageID now (engine.msgSeq + 1)
      else message.id
    queue := engine.name
    createdAt := now
    state := .ready
    maxRetries := if message.maxRetries ≤ 0 then engine.cfg.defaultMaxRetries
      else message.maxRetries
    visibleAt := if message.visibleAt ≤ 0 then now else message.visibleAt }

def accept (message : Message) (engine : Engine τ) : Engine τ :=
  ((engine.store message).pushReady message).record (.accepted message)

def enqueue (message : Message) (now : Int64) (engine : Engine τ) :
    Except QueueError Message × Engine τ :=
  let (isNew, dedup) :=
    engine.dedup.checkOrSet message.dedupID engine.cfg.dedupWindow now
  let checked := { engine with dedup := dedup }
  if isNew = false then (.error .duplicateMessage, checked)
  else if engine.closed then (.error .queueClosed, checked)
  else
    let prepared := engine.prepare message now
    let numbered :=
      if message.id = [] then { checked with msgSeq := engine.msgSeq + 1 }
      else checked
    (.ok prepared, numbered.accept prepared)

def dropTop (message : Message) (engine : Engine τ) : Engine τ :=
  (engine.popReady.forget message.id).record (.expired message.id)

/-- The message that `Dequeue` returns. -/
def leased (message : Message) (timeout now : Int64) : Message :=
  { message with
    state := .invisible
    retryCount := message.retryCount + 1
    visibleAt := now + timeout }

def deliver (message : Message) (timeout now : Int64) (engine : Engine τ) :
    Engine τ :=
  let held := leased message timeout now
  let popped := engine.popReady
  let flying := { popped with inFlight := popped.inFlight.insert held.id held }
  (flying.store held).record (.delivered held.id)

def isExpired (now : Int64) (message : Message) : Bool :=
  0 < message.expireAt && message.expireAt ≤ now

def scanReady (timeout now : Int64) : Nat → Engine τ → Option Message × Engine τ
  | 0, engine => (none, engine)
  | turns + 1, engine =>
      match engine.readyHeap.head? with
      | none => (none, engine)
      | some message =>
          if isExpired now message then
            scanReady timeout now turns (engine.dropTop message)
          else if now < message.visibleAt then (none, engine)
          else
            (some (leased message timeout now),
              engine.deliver message timeout now)

/-- One attempt of `Dequeue`; without a message the call waits. -/
def dequeue (visibilityTimeout now : Int64) (engine : Engine τ) :
    Except QueueError (Option Message) × Engine τ :=
  let timeout :=
    if visibilityTimeout ≤ 0 then engine.cfg.defaultVisibilityTimeout
    else visibilityTimeout
  if engine.closed then (.error .queueClosed, engine)
  else
    let (found, after) :=
      engine.scanReady timeout now (engine.readyHeap.length + 1)
    (.ok found, after)

/-- `delete(q.inFlight, id)` -/
def ground (id : Bytes) (engine : Engine τ) : Engine τ :=
  { engine with inFlight := engine.inFlight.erase id }

def ack (msgID : Bytes) (engine : Engine τ) : Except QueueError Unit × Engine τ :=
  match engine.inFlight.lookup msgID with
  | none => (.error .messageNotFound, engine)
  | some _ => (.ok (), ((engine.ground msgID).forget msgID).record (.acked msgID))

def extend (msgID : Bytes) (duration now : Int64) (engine : Engine τ) :
    Except QueueError Unit × Engine τ :=
  match engine.inFlight.lookup msgID with
  | none => (.error .messageNotFound, engine)
  | some message =>
      let extended := { message with visibleAt := now + duration }
      (.ok (), { engine with
        inFlight := engine.inFlight.insert msgID extended
        tree := Shelf.insert msgID extended.encode engine.tree })

def requeue (id : Bytes) (message : Message) (now : Int64)
    (engine : Engine τ) : Engine τ :=
  let ready := { message with state := .ready, visibleAt := now }
  let pushed := (engine.ground id).pushReady ready
  { pushed with tree := Shelf.insert id ready.encode pushed.tree }

end Engine

structure QueueEngine (τ : Type) where
  main : Engine τ
  dlq : Option (Engine Unit)

namespace QueueEngine

variable {τ : Type} [Shelf τ]

/-- `NewQueueEngine` of a main queue on a tree without messages -/
def newQueueEngine (name : Bytes) (cfg : Config) (tree : τ) :
    QueueEngine τ where
  main := .newEngine name cfg tree
  dlq :=
    if cfg.filled.enableDLQ then
      some (.newEngine (name ++ [0x2E, 0x64, 0x6C, 0x71])
        { cfg.filled with enableDLQ := false } ())
    else none

def buried (message : Message) (now : Int64) : Message :=
  { message with state := .deadLetter, visibleAt := now, dedupID := [] }

def deadLetter (event : Event) (id : Bytes) (message : Message) (now : Int64)
    (queue : QueueEngine τ) : QueueEngine τ where
  main := ((queue.main.ground id).forget id).record event
  dlq := queue.dlq.map fun dlq => (dlq.enqueue (buried message now) now).2

def nack (msgID : Bytes) (requeue : Bool) (now : Int64)
    (queue : QueueEngine τ) : Except QueueError Unit × QueueEngine τ :=
  match queue.main.inFlight.lookup msgID with
  | none => (.error .messageNotFound, queue)
  | some message =>
      if requeue = false ∨ message.maxRetries ≤ message.retryCount then
        (.error .maxRetriesExceeded,
          queue.deadLetter
            (if requeue then .exhausted msgID else .rejected msgID) msgID
            message now)
      else
        (.ok (), { queue with main := queue.main.requeue msgID message now })

def lapse (now : Int64) (queue : QueueEngine τ)
    (entry : Sigma fun _ : Bytes => Message) : QueueEngine τ :=
  if now < entry.2.visibleAt then queue
  else if entry.2.maxRetries ≤ entry.2.retryCount then
    queue.deadLetter (.exhausted entry.1) entry.1 entry.2 now
  else { queue with main := queue.main.requeue entry.1 entry.2 now }

/-- `checkInFlightAndDelayed`, with the order in which the loop visits the
messages -/
def checkInFlightAndDelayed (order : Shuffle (Sigma fun _ : Bytes => Message))
    (now : Int64) (queue : QueueEngine τ) : QueueEngine τ :=
  if queue.main.closed then queue
  else
    (order.arrange queue.main.inFlight.entries).foldl (lapse now) queue

end QueueEngine

end CocoDB.Queue
