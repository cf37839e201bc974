import CocoDB.Lib.Run
import CocoDB.PubSub.Topic

/-!
# Members that leave while messages are published

The consumer groups of one topic under concurrent calls, with the steps that a
lock or an atomic operation makes indivisible.  `SubscribeGroup` and the second
half of `Unsubscribe` hold the write lock of the engine and `Publish` the read
lock, so that neither of the first two runs while a message is published; the
flag of a member is set without any lock.  `deliver` holds the lock of its
group from the choice of the member until the message is handed over.
-/

namespace CocoDB.PubSub

open Lib

/-! ## Groups whose members have a flag each -/

/-- A `*Subscription`: `ref` tells the objects, and so their flags, apart. -/
structure Member where
  ref : Nat
  sub : Subscription
deriving DecidableEq, Repr

structure Group where
  name : Bytes
  subscribers : List Member
  roundRobin : UInt64
deriving DecidableEq, Repr

namespace Group

def add (member : Member) (group : Group) : Group :=
  { group with subscribers := group.subscribers ++ [member] }

def remove (subID : UInt64) (group : Group) : Group :=
  { group with
    subscribers := group.subscribers.filter fun member =>
      member.sub.id ≠ subID }

def next (group : Group) : Option Member :=
  group.subscribers[(group.roundRobin + 1).toNat % group.subscribers.length]?

/-- `atomic.AddUint64`, which an empty group does not reach. -/
def advance (group : Group) : Group :=
  if group.subscribers = [] then group
  else { group with roundRobin := group.roundRobin + 1 }

theorem next_eq_none {group : Group} :
    group.next = none ↔ group.subscribers = [] := by
  rw [next, List.getElem?_eq_none_iff]
  constructor
  · intro outside
    by_contra filled
    have positive := List.length_pos_of_ne_nil filled
    exact absurd (Nat.mod_lt _ positive) (Nat.not_lt.mpr outside)
  · intro empty
    simp [empty]

theorem next_mem {group : Group} {member : Member}
    (turn : group.next = some member) : member ∈ group.subscribers :=
  List.mem_of_getElem? turn

def card (group : Group) : Bytes × List Member :=
  (group.name, group.subscribers)

@[simp]
theorem card_advance (group : Group) : group.advance.card = group.card := by
  rw [advance]
  split <;> rfl

end Group

def enterGroup (groupName : Bytes) (member : Member) : List Group → List Group
  | [] => [⟨groupName, [member], 0⟩]
  | group :: others =>
      if group.name = groupName then group.add member :: others
      else group :: enterGroup groupName member others

def quitGroup (groupName : Bytes) (subID : UInt64) (groups : List Group) :
    List Group :=
  groups.map fun group =>
    if group.name = groupName then group.remove subID else group

/-! ## Calls in progress -/

/-- A member that `deliver` has chosen, and whether its flag was not set
then. -/
structure Turn where
  group : Bytes
  target : Member
  fresh : Bool
deriving DecidableEq, Repr

/-- A call of `Publish` while it goes through the groups of the topic: those
it found, those it has not come to, the one it is in, the members it has
handed the message, and the groups that `deliveredCount` includes. -/
structure Publication where
  groups : List Group
  waiting : List Bytes
  holding : Option Turn
  offers : List Turn
  counted : List Bytes
deriving DecidableEq, Repr

/-- A call of `Publish` that has returned, and the flags that were set then. -/
structure Finished where
  call : Publication
  closed : List Nat
deriving DecidableEq, Repr

/-- A topic of an engine: `leaving` holds the members whose `Unsubscribe` has
set the flag and has not removed them. -/
structure Room where
  topic : Bytes
  defaultBufSize : Int
  subSeq : UInt64
  groups : List Group
  issued : List Member
  closed : List Nat
  leaving : List Member
  publishing : List Publication
  finished : List Finished

inductive Action where
  | subscribeGroup (groupName : Bytes) (bufSize : Int)
      (strategy : BackpressureStrategy)
  | close (member : Member)
  | remove (member : Member)
  | publish (order : Shuffle Bytes)
  | choose (call : Nat)
  | offer (call : Nat)
  | finish (call : Nat)

namespace Room

def newRoom (topic : Bytes) (defaultBufSize : Int) : Room :=
  ⟨topic, defaultBufSize, 0, [], [], [], [], [], []⟩

/-- The member that `SubscribeGroup` makes. -/
def newMember (groupName : Bytes) (bufSize : Int)
    (strategy : BackpressureStrategy) (room : Room) : Member where
  ref := room.issued.length
  sub :=
    { id := room.subSeq + 1
      topic := room.topic
      group := groupName
      capacity := if bufSize ≤ 0 then room.defaultBufSize else bufSize
      strategy := strategy }

/-- `SubscribeGroup` -/
def join (groupName : Bytes) (member : Member) (room : Room) : Room :=
  { room with
    subSeq := room.subSeq + 1
    issued := room.issued ++ [member]
    groups := enterGroup groupName member room.groups }

/-- `s.closed.CompareAndSwap(false, true)` -/
def close (member : Member) (room : Room) : Room :=
  { room with
    closed := member.ref :: room.closed
    leaving := member :: room.leaving }

/-- `s.unsubFn()` -/
def remove (member : Member) (room : Room) : Room :=
  { room with
    leaving := room.leaving.erase member
    groups := quitGroup member.sub.group member.sub.id room.groups }

/-- `Publish` comes to the groups; `order` is the order of the map. -/
def publish (order : Shuffle Bytes) (room : Room) : Room :=
  { room with
    publishing := room.publishing ++
      [⟨room.groups, order.arrange (room.groups.map Group.name), none, [],
        []⟩] }

def locked (name : Bytes) (room : Room) : Bool :=
  room.publishing.any fun call =>
    call.holding.any fun turn => turn.group = name

def find (name : Bytes) (room : Room) : Option Group :=
  room.groups.find? fun group => group.name = name

/-- `deliver` as far as the choice of the target. -/
def pick (group : Group) (others : List Bytes) (call : Publication)
    (room : Room) : Publication :=
  match group.next with
  | none => { call with waiting := others }
  | some target =>
      { call with
        waiting := others
        holding := some
          ⟨group.name, target, decide (target.ref ∉ room.closed)⟩ }

def choose (place : Nat) (group : Group) (others : List Bytes)
    (call : Publication) (room : Room) : Room :=
  { room with
    groups := room.groups.map fun other =>
      if other.name = group.name then other.advance else other
    publishing := room.publishing.set place (room.pick group others call) }

/-- `deliverToSub` and the rest of `deliver`: a member whose flag is set is
handed nothing, and `deliver` returns true. -/
def handOver (turn : Turn) (call : Publication) (room : Room) :
    Publication :=
  { call with
    holding := none
    counted := turn.group :: call.counted
    offers :=
      if turn.target.ref ∈ room.closed then call.offers
      else turn :: call.offers }

def offer (place : Nat) (turn : Turn) (call : Publication) (room : Room) :
    Room :=
  { room with
    publishing := room.publishing.set place (room.handOver turn call) }

/-- `Publish` returns. -/
def finish (place : Nat) (call : Publication) (room : Room) : Room :=
  { room with
    publishing := room.publishing.eraseIdx place
    finished := ⟨call, room.closed⟩ :: room.finished }

def perform : Action → Room → Option Room
  | .subscribeGroup groupName bufSize strategy, room =>
      if room.publishing = [] then
        some (room.join groupName
          (room.newMember groupName bufSize strategy))
      else none
  | .close member, room =>
      if member ∈ room.issued ∧ member.ref ∉ room.closed then
        some (room.close member)
      else none
  | .remove member, room =>
      if member ∈ room.leaving ∧ room.publishing = [] then
        some (room.remove member)
      else none
  | .publish order, room => some (room.publish order)
  | .choose place, room =>
      match room.publishing[place]? with
      | none => none
      | some call =>
          match call.holding, call.waiting with
          | none, name :: others =>
              if room.locked name then none
              else (room.find name).map fun group =>
                room.choose place group others call
          | _, _ => none
  | .offer place, room =>
      match room.publishing[place]? with
      | none => none
      | some call =>
          call.holding.map fun turn => room.offer place turn call
  | .finish place, room =>
      match room.publishing[place]? with
      | none => none
      | some call =>
          if call.holding = none ∧ call.waiting = [] then
            some (room.finish place call)
          else none

def Performs (action : Action) (before after : Room) : Prop :=
  before.perform action = some after

end Room


namespace Room

variable {action : Action} {before after room : Room} {call : Publication}

inductive Moves : Action → Room → Room → Prop where
  | subscribeGroup {room : Room} (groupName : Bytes) (bufSize : Int)
      (strategy : BackpressureStrategy) (quiet : room.publishing = []) :
      Moves (.subscribeGroup groupName bufSize strategy) room
        (room.join groupName (room.newMember groupName bufSize strategy))
  | close {room : Room} (member : Member)
      (unset : member.ref ∉ room.closed) :
      Moves (.close member) room (room.close member)
  | remove {room : Room} (member : Member) (quiet : room.publishing = []) :
      Moves (.remove member) room (room.remove member)
  | publish {room : Room} (order : Shuffle Bytes) :
      Moves (.publish order) room (room.publish order)
  | choose {room : Room} {place : Nat} {call : Publication}
      {others : List Bytes} {group : Group}
      (running : room.publishing[place]? = some call)
      (free : call.holding = none)
      (waiting : call.waiting = group.name :: others)
      (found : room.find group.name = some group) :
      Moves (.choose place) room (room.choose place group others call)
  | offer {room : Room} {place : Nat} {call : Publication} {turn : Turn}
      (running : room.publishing[place]? = some call)
      (held : call.holding = some turn) :
      Moves (.offer place) room (room.offer place turn call)
  | finish {room : Room} {place : Nat} {call : Publication}
      (running : room.publishing[place]? = some call)
      (free : call.holding = none) (waiting : call.waiting = []) :
      Moves (.finish place) room (room.finish place call)

theorem find_name {name : Bytes} {group : Group}
    (found : room.find name = some group) : group.name = name := by
  simpa using List.find?_some found

theorem Performs.moves (taken : Performs action before after) :
    Moves action before after := by
  rw [Performs] at taken
  cases action with
  | subscribeGroup groupName bufSize strategy =>
      rw [perform] at taken
      split at taken
      · next quiet =>
        cases taken
        exact .subscribeGroup groupName bufSize strategy quiet
      · cases taken
  | close member =>
      rw [perform] at taken
      split at taken
      · next guard =>
        cases taken
        exact .close member guard.2
      · cases taken
  | remove member =>
      rw [perform] at taken
      split at taken
      · next guard =>
        cases taken
        exact .remove member guard.2
      · cases taken
  | publish order =>
      cases taken
      exact .publish order
  | choose place =>
      rw [perform] at taken
      cases running : before.publishing[place]? with
      | none => simp [running] at taken
      | some call =>
          cases free : call.holding with
          | some turn => simp [running, free] at taken
          | none =>
              cases waiting : call.waiting with
              | nil => simp [running, free, waiting] at taken
              | cons name others =>
                  simp only [running, free, waiting] at taken
                  split at taken
                  · cases taken
                  · cases found : before.find name with
                    | none => simp [found] at taken
                    | some group =>
                        rw [found] at taken
                        cases taken
                        have same := find_name found
                        rw [← same] at waiting found
                        exact .choose running free waiting found
  | offer place =>
      rw [perform] at taken
      cases running : before.publishing[place]? with
      | none => simp [running] at taken
      | some call =>
          cases held : call.holding with
          | none => simp [running, held] at taken
          | some turn =>
              simp only [running, held] at taken
              cases taken
              exact .offer running held
  | finish place =>
      rw [perform] at taken
      cases running : before.publishing[place]? with
      | none => simp [running] at taken
      | some call =>
          simp only [running] at taken
          split at taken
          · next ended =>
            cases taken
            exact .finish running ended.1 ended.2
          · cases taken

end Room

end CocoDB.PubSub
