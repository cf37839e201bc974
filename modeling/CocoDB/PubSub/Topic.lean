import CocoDB.Queue.Engine

/-!
# Topics

`internal/pubsub/topic.go` and `pubsub/pubsub.go`: the three tables of
subscriptions and the calls that change and read them.  Every call holds the
lock of the engine, so that a call is one step.  A map is a function: a topic
that is not in it has no subscriptions.  Publishing records to whom a message is
handed; the channels behind the subscriptions are left out.
-/

namespace CocoDB.PubSub

open Lib
open Queue (Deduplicator QueueError)

/-! ## Messages and subscriptions -/

inductive BackpressureStrategy where
  | blockOnFull
  | dropOldest
  | dropNewest
deriving DecidableEq, Repr

def encodeRune (rune : Nat) : Bytes :=
  if rune < 0x80 then [UInt8.ofNat rune]
  else if rune < 0x800 then
    [UInt8.ofNat (0xC0 + rune / 64), UInt8.ofNat (0x80 + rune % 64)]
  else if rune < 0x10000 then
    [UInt8.ofNat (0xE0 + rune / 4096), UInt8.ofNat (0x80 + rune / 64 % 64),
      UInt8.ofNat (0x80 + rune % 64)]
  else
    [UInt8.ofNat (0xF0 + rune / 262144), UInt8.ofNat (0x80 + rune / 4096 % 64),
      UInt8.ofNat (0x80 + rune / 64 % 64), UInt8.ofNat (0x80 + rune % 64)]

/-- `string(rune(seq))`: only the low 32 bits count, and what is not a code
point becomes U+FFFD. -/
def runeString (seq : UInt64) : Bytes :=
  let rune := seq.toNat % 2 ^ 32
  if 0x10FFFF < rune ∨ (0xD800 ≤ rune ∧ rune ≤ 0xDFFF) then encodeRune 0xFFFD
  else encodeRune rune

structure Message where
  id : Bytes
  topic : Bytes
  payload : Bytes
  dedupID : Bytes
  createdAt : Int64
deriving DecidableEq, Repr

/-- `Subscription`; `capacity` is the size of its channel, and the group of a
direct subscription is empty. -/
structure Subscription where
  id : UInt64
  topic : Bytes
  group : Bytes
  capacity : Int
  strategy : BackpressureStrategy
deriving DecidableEq, Repr

/-! ## Consumer groups -/

structure ConsumerGroup where
  name : Bytes
  subscribers : List Subscription
  roundRobin : UInt64
deriving DecidableEq, Repr

namespace ConsumerGroup

def add (sub : Subscription) (group : ConsumerGroup) : ConsumerGroup :=
  { group with subscribers := group.subscribers ++ [sub] }

def remove (subID : UInt64) (group : ConsumerGroup) : ConsumerGroup :=
  { group with
    subscribers := group.subscribers.filter fun sub => sub.id ≠ subID }

/-- `deliver`: the member whose turn it is, if there is any -/
def deliver (group : ConsumerGroup) : Option Subscription × ConsumerGroup :=
  if group.subscribers = [] then (none, group)
  else
    let next := group.roundRobin + 1
    (group.subscribers[next.toNat % group.subscribers.length]?,
      { group with roundRobin := next })

end ConsumerGroup

/-! ## Wildcards -/

/-- `strings.ContainsAny(topicPattern, "*>")` -/
def isPattern (topicPattern : Bytes) : Bool :=
  topicPattern.any fun byte => byte = 0x2A || byte = 0x3E

/-- The loop of `matchTopic` over the parts. -/
def matchParts : List Bytes → List Bytes → Bool
  | [], [] => true
  | [], _ :: _ => false
  | part :: _, [] => part = [0x3E]
  | part :: rest, topicPart :: others =>
      if part = [0x3E] then true
      else if part ≠ [0x2A] ∧ part ≠ topicPart then false
      else matchParts rest others

def matchTopic (pattern topic : Bytes) : Bool :=
  if pattern = topic ∨ pattern = [0x3E] then true
  else matchParts (pattern.splitOn 0x2E) (topic.splitOn 0x2E)

/-! ## The engine -/

/-- `Engine`.  `closed` holds the subscriptions whose flag is set. -/
structure Engine where
  exactSubs : Bytes → List Subscription
  groupSubs : Bytes → List ConsumerGroup
  patternSubs : List Subscription
  closed : List UInt64
  dedup : Deduplicator
  subSeq : UInt64
  msgSeq : UInt64
  totalPublished : UInt64
  totalDelivered : UInt64
  defaultBufSize : Int

namespace Engine

def newEngine (defaultBufSize : Int) : Engine where
  exactSubs := fun _ => []
  groupSubs := fun _ => []
  patternSubs := []
  closed := []
  dedup := .newDeduplicator
  subSeq := 0
  msgSeq := 0
  totalPublished := 0
  totalDelivered := 0
  defaultBufSize := if defaultBufSize ≤ 0 then 256 else defaultBufSize

def newSubscription (topic group : Bytes) (bufSize : Int)
    (strategy : BackpressureStrategy) (engine : Engine) : Subscription where
  id := engine.subSeq + 1
  topic := topic
  group := group
  capacity := if bufSize ≤ 0 then engine.defaultBufSize else bufSize
  strategy := strategy

def subscribe (topicPattern : Bytes) (bufSize : Int)
    (strategy : BackpressureStrategy) (engine : Engine) :
    Subscription × Engine :=
  let sub := engine.newSubscription topicPattern [] bufSize strategy
  let numbered := { engine with subSeq := engine.subSeq + 1 }
  if isPattern topicPattern then
    (sub, { numbered with patternSubs := engine.patternSubs ++ [sub] })
  else
    (sub, { numbered with
      exactSubs := Function.update engine.exactSubs topicPattern
        (engine.exactSubs topicPattern ++ [sub]) })

def joinGroup (groupName : Bytes) (sub : Subscription) :
    List ConsumerGroup → List ConsumerGroup
  | [] => [⟨groupName, [sub], 0⟩]
  | group :: rest =>
      if group.name = groupName then group.add sub :: rest
      else group :: joinGroup groupName sub rest

def subscribeGroup (topic groupName : Bytes) (bufSize : Int)
    (strategy : BackpressureStrategy) (engine : Engine) :
    Subscription × Engine :=
  let sub := engine.newSubscription topic groupName bufSize strategy
  (sub, { engine with
    subSeq := engine.subSeq + 1
    groupSubs := Function.update engine.groupSubs topic
      (joinGroup groupName sub (engine.groupSubs topic)) })

def leaveGroup (groupName : Bytes) (subID : UInt64)
    (groups : List ConsumerGroup) : List ConsumerGroup :=
  groups.map fun group =>
    if group.name = groupName then group.remove subID else group

/-- `unsubFn`, as `Subscribe` and `SubscribeGroup` set it. -/
def unsubFn (sub : Subscription) (engine : Engine) : Engine :=
  if sub.group ≠ [] then
    { engine with
      groupSubs := Function.update engine.groupSubs sub.topic
        (leaveGroup sub.group sub.id (engine.groupSubs sub.topic)) }
  else if isPattern sub.topic then
    { engine with
      patternSubs := engine.patternSubs.filter fun other => other.id ≠ sub.id }
  else
    { engine with
      exactSubs := Function.update engine.exactSubs sub.topic
        ((engine.exactSubs sub.topic).filter fun other => other.id ≠ sub.id) }

def unsubscribe (sub : Subscription) (engine : Engine) : Engine :=
  if sub.id ∈ engine.closed then engine
  else { engine with closed := sub.id :: engine.closed }.unsubFn sub

/-- The subscriptions that `deliverToSub` is called for, one after another. -/
def targets (order : Shuffle ConsumerGroup) (topic : Bytes) (engine : Engine) :
    List Subscription :=
  engine.exactSubs topic ++
    (order.arrange (engine.groupSubs topic)).filterMap (fun group =>
      group.deliver.1) ++
    engine.patternSubs.filter fun sub => matchTopic sub.topic topic

/-- Those to which `deliverToSub` hands the message. -/
def offered (order : Shuffle ConsumerGroup) (topic : Bytes)
    (engine : Engine) : List Subscription :=
  (engine.targets order topic).filter fun sub => sub.id ∉ engine.closed

/-- The result of `Publish`, to whom the message was handed, and the engine
afterwards. -/
structure Published where
  outcome : Except QueueError Nat
  message : Option Message
  offers : List Subscription
  engine : Engine

/-- `Publish`, with the order in which the groups of the topic are visited -/
def publish (order : Shuffle ConsumerGroup) (topic payload dedupID : Bytes)
    (dedupWindow now : Int64) (engine : Engine) : Published :=
  let (isNew, dedup) := engine.dedup.checkOrSet dedupID dedupWindow now
  let message : Message :=
    { id := topic ++ [0x5F] ++ runeString (engine.msgSeq + 1)
      topic := topic
      payload := payload
      dedupID := dedupID
      createdAt := now }
  if isNew = false then
    ⟨.error .duplicateMessage, none, [], { engine with dedup := dedup }⟩
  else
    let deliveredCount := (engine.targets order topic).length
    { outcome := .ok deliveredCount
      message := some message
      offers := engine.offered order topic
      engine :=
        { engine with
          dedup := dedup
          msgSeq := engine.msgSeq + 1
          totalPublished := engine.totalPublished + 1
          totalDelivered :=
            engine.totalDelivered + UInt64.ofNat deliveredCount
          groupSubs := Function.update engine.groupSubs topic
            ((engine.groupSubs topic).map fun group => group.deliver.2) } }

end Engine

/-! ## The public handle -/

structure Options where
  bufferSize : Int
  strategy : BackpressureStrategy
  dedupID : Bytes
  dedupWindow : Int64
  consumerGroup : Bytes
deriving DecidableEq, Repr

def defaultOptions : Options where
  bufferSize := 256
  strategy := .blockOnFull
  dedupID := []
  dedupWindow := 300000000000
  consumerGroup := []

/-- `PubSub.Subscribe`, with the options of the call -/
def Options.subscribe (topicPattern : Bytes) (cfg : Options)
    (engine : Engine) : Subscription × Engine :=
  if cfg.consumerGroup ≠ [] then
    engine.subscribeGroup topicPattern cfg.consumerGroup cfg.bufferSize
      cfg.strategy
  else engine.subscribe topicPattern cfg.bufferSize cfg.strategy

/-- `PubSub.SubscribeGroup`: the group is the last option -/
def Options.subscribeGroup (topic groupName : Bytes) (cfg : Options)
    (engine : Engine) : Subscription × Engine :=
  { cfg with consumerGroup := groupName }.subscribe topic engine

def Options.publish (order : Shuffle ConsumerGroup) (topic payload : Bytes)
    (now : Int64) (cfg : Options) (engine : Engine) : Engine.Published :=
  engine.publish order topic payload cfg.dedupID cfg.dedupWindow now

end CocoDB.PubSub
