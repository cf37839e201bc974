import CocoDB.Lib.Channel
import CocoDB.Lib.Run
import CocoDB.PubSub.Topic

/-!
# Backpressure

`deliverToSub`, the channel of one subscription, and what a consumer receives
from it.
-/

namespace CocoDB.PubSub

open Lib

/-- The part of a `Subscription` that `deliverToSub` works on -/
structure Stream (α : Type) where
  strategy : BackpressureStrategy
  closed : Bool
  ch : Channel α

namespace Stream

variable {α : Type} {msg : α} {stream next : Stream α}

/-- `make(chan *Message, bufSize)` of a new subscription -/
def ofSubscription (sub : Subscription) : Stream α where
  strategy := sub.strategy
  closed := false
  ch := .make sub.capacity.toNat

/-- `deliverToSub`; `none` is a send that waits -/
def deliverToSub (msg : α) (stream : Stream α) : Option (Stream α) :=
  if stream.closed then some stream
  else
    match stream.strategy with
    | .blockOnFull =>
        match stream.ch.send msg with
        | some ch => some { stream with ch := ch }
        | none => none
    | .dropNewest =>
        match stream.ch.send msg with
        | some ch => some { stream with ch := ch }
        | none => some stream
    | .dropOldest =>
        match stream.ch.send msg with
        | some ch => some { stream with ch := ch }
        | none =>
            let emptied :=
              match stream.ch.receive with
              | some (_, ch) => ch
              | none => stream.ch
            match emptied.send msg with
            | some ch => some { stream with ch := ch }
            | none => some { stream with ch := emptied }

/-- What a delivery does: the message goes to the back of the buffer, and of a
full buffer the strategy drops the message or the one at the front. -/
structure Delivers (msg : α) (stream next : Stream α) : Prop where
  strategy : next.strategy = stream.strategy
  closed : next.closed = stream.closed
  capacity : next.ch.capacity = stream.ch.capacity
  room : stream.ch.buffer.length < stream.ch.capacity →
    next.ch.buffer = stream.ch.buffer ++ [msg]
  full : stream.ch.capacity ≤ stream.ch.buffer.length →
    (stream.strategy = .dropNewest ∧ next.ch.buffer = stream.ch.buffer) ∨
      (stream.strategy = .dropOldest ∧
        next.ch.buffer = stream.ch.buffer.tail ++ [msg])

theorem delivers_send {ch : Channel α} (sent : stream.ch.send msg = some ch) :
    Delivers msg stream { stream with ch := ch } := by
  obtain ⟨room, capacity, buffer⟩ := Channel.send_eq_some_iff.mp sent
  exact ⟨rfl, rfl, capacity, fun _ => buffer,
    fun full => absurd room (Nat.not_lt.mpr full)⟩

theorem deliverToSub_spec (active : stream.closed = false)
    (positive : 0 < stream.ch.capacity)
    (delivered : stream.deliverToSub msg = some next) :
    Delivers msg stream next := by
  rw [deliverToSub, if_neg (Bool.eq_false_iff.mp active)] at delivered
  cases sent : stream.ch.send msg with
  | some ch =>
      have spec := delivers_send sent
      rw [sent] at delivered
      split at delivered <;> cases delivered <;> exact spec
  | none =>
      have full := Channel.send_eq_none_iff.mp sent
      rw [sent] at delivered
      split at delivered
      case h_1 => cases delivered
      case h_2 newest =>
          cases delivered
          exact ⟨rfl, rfl, rfl, fun room => absurd full (Nat.not_le.mpr room),
            fun _ => Or.inl ⟨newest, rfl⟩⟩
      case h_3 oldest =>
          -- a full buffer has a front, and without it there is room
          obtain ⟨front, rest, waiting⟩ :
              ∃ front rest, stream.ch.buffer = front :: rest :=
            List.exists_cons_of_length_pos (positive.trans_le full)
          cases received : stream.ch.receive with
          | none =>
              rw [Channel.receive_eq_none_iff.mp received] at waiting
              cases waiting
          | some taken =>
              obtain ⟨item, emptied⟩ := taken
              obtain ⟨capacity, buffer⟩ :=
                Channel.receive_eq_some_iff.mp received
              have room : emptied.buffer.length < emptied.capacity := by
                have bounded := stream.ch.bounded
                rw [buffer, List.length_cons] at bounded
                rw [capacity]
                exact bounded
              rw [received] at delivered
              simp only at delivered
              cases again : emptied.send msg with
              | none =>
                  exact absurd room
                    (Nat.not_lt.mpr (Channel.send_eq_none_iff.mp again))
              | some ch =>
                  rw [again] at delivered
                  cases delivered
                  obtain ⟨_, same, filled⟩ :=
                    Channel.send_eq_some_iff.mp again
                  refine ⟨rfl, rfl, same.trans capacity,
                    fun room => absurd full (Nat.not_le.mpr room),
                    fun _ => Or.inr ⟨oldest, ?_⟩⟩
                  rw [filled, buffer, List.tail_cons]

end Stream

/-! ## Runs of one subscription -/

inductive FeedAction where
  | deliver (msg : Message)
  | receive

/-- A subscription with its past.  The messages are numbered in the order of
their delivery; `admitted` are those that came while the buffer had room. -/
structure Feed where
  stream : Stream (Nat × Message)
  delivered : List (Nat × Message)
  admitted : List (Nat × Message)
  received : List (Nat × Message)

namespace Feed

variable {feed next : Feed}

def ofSubscription (sub : Subscription) : Feed where
  stream := .ofSubscription sub
  delivered := []
  admitted := []
  received := []

/-- One step; `none` is a step that has to wait. -/
def step (action : FeedAction) (feed : Feed) : Option Feed :=
  match action with
  | .deliver msg =>
      let numbered := (feed.delivered.length, msg)
      match feed.stream.deliverToSub numbered with
      | none => none
      | some stream =>
          some { feed with
            stream := stream
            delivered := feed.delivered ++ [numbered]
            admitted :=
              if feed.stream.ch.buffer.length < feed.stream.ch.capacity then
                feed.admitted ++ [numbered]
              else feed.admitted }
  | .receive =>
      match feed.stream.ch.receive with
      | none => none
      | some (numbered, ch) =>
          some { feed with
            stream := { feed.stream with ch := ch }
            received := feed.received ++ [numbered] }

def Steps (action : FeedAction) (feed next : Feed) : Prop :=
  feed.step action = some next

structure Promised (sub : Subscription) (feed : Feed) : Prop where
  strategy : feed.stream.strategy = sub.strategy
  active : feed.stream.closed = false
  capacity : feed.stream.ch.capacity = sub.capacity.toNat
  numbered : feed.delivered.map Prod.fst = List.range feed.delivered.length
  order : (feed.received ++ feed.stream.ch.buffer).Sublist feed.delivered
  newest : sub.strategy = .dropNewest →
    feed.received ++ feed.stream.ch.buffer = feed.admitted
  oldest : sub.strategy = .dropOldest →
    feed.stream.ch.buffer <:+ feed.delivered ∧
      ∀ item ∈ feed.delivered, item ∈ feed.stream.ch.buffer ∨
        item ∈ feed.received ∨
        item.1 + sub.capacity.toNat < feed.delivered.length

namespace Promised

variable {sub : Subscription}

theorem start (sub : Subscription) : Promised sub (ofSubscription sub) where
  strategy := rfl
  active := rfl
  capacity := rfl
  numbered := rfl
  order := List.Sublist.refl _
  newest _ := rfl
  oldest _ := ⟨List.suffix_refl _, fun _ mem => absurd mem List.not_mem_nil⟩

theorem receive (promised : Promised sub feed)
    (step : Steps .receive feed next) : Promised sub next := by
  simp only [Steps, Feed.step] at step
  split at step
  case h_1 => cases step
  case h_2 item ch received =>
      cases step
      obtain ⟨capacity, buffer⟩ := Channel.receive_eq_some_iff.mp received
      have moved : (feed.received ++ [item]) ++ ch.buffer =
          feed.received ++ feed.stream.ch.buffer := by
        rw [buffer, List.append_assoc, List.singleton_append]
      refine ⟨promised.strategy, promised.active,
        capacity.trans promised.capacity, promised.numbered,
        moved.symm ▸ promised.order,
        fun same => moved.trans (promised.newest same), fun same => ?_⟩
      obtain ⟨suffix, found⟩ := promised.oldest same
      rw [buffer] at suffix found
      refine ⟨(List.suffix_cons item ch.buffer).trans suffix,
        fun other mem => ?_⟩
      rcases found other mem with waiting | taken | late
      · rcases List.mem_cons.mp waiting with rfl | later
        · exact Or.inr (Or.inl
            (List.mem_append_right _ (List.mem_singleton_self other)))
        · exact Or.inl later
      · exact Or.inr (Or.inl (List.mem_append_left _ taken))
      · exact Or.inr (Or.inr late)

/-- The message at the front of a full buffer has as many after it as the
buffer holds. -/
theorem front_number {front : Nat × Message} {rest : List (Nat × Message)}
    (promised : Promised sub feed)
    (suffix : front :: rest <:+ feed.delivered) :
    front.1 + (rest.length + 1) = feed.delivered.length := by
  obtain ⟨before, same⟩ := suffix
  have numbered := promised.numbered
  rw [← same] at numbered ⊢
  have at_front := congrArg (·[before.length]?) numbered
  simp only [List.map_append, List.map_cons, List.length_append,
    List.length_cons] at at_front
  rw [List.getElem?_append_right (List.length_map ..).le,
    List.length_map, Nat.sub_self, List.getElem?_cons_zero,
    List.getElem?_range (by omega)] at at_front
  have number : front.1 = before.length := Option.some.inj at_front
  rw [number, List.length_append, List.length_cons]

theorem numbered_append {msg : Message} {items : List (Nat × Message)}
    (numbered : items.map Prod.fst = List.range items.length) :
    (items ++ [(items.length, msg)]).map Prod.fst =
      List.range (items ++ [(items.length, msg)]).length := by
  rw [List.map_append, numbered, List.length_append, List.length_singleton,
    List.range_succ]
  rfl

theorem deliver {msg : Message} (positive : 1 ≤ sub.capacity)
    (promised : Promised sub feed)
    (step : Steps (.deliver msg) feed next) : Promised sub next := by
  simp only [Steps, Feed.step] at step
  split at step
  case h_1 => cases step
  case h_2 stream delivered =>
      have capacity : 0 < feed.stream.ch.capacity := by
        rw [promised.capacity]
        omega
      have spec := Stream.deliverToSub_spec promised.active capacity delivered
      cases step
      rcases lt_or_ge feed.stream.ch.buffer.length feed.stream.ch.capacity with
        room | full
      · have buffer := spec.room room
        refine ⟨spec.strategy.trans promised.strategy,
          spec.closed.trans promised.active,
          spec.capacity.trans promised.capacity,
          numbered_append promised.numbered, ?_, fun same => ?_,
          fun same => ?_⟩
        · rw [buffer, ← List.append_assoc]
          exact promised.order.append (List.Sublist.refl _)
        · simp only [buffer, room, if_true]
          rw [← List.append_assoc, promised.newest same]
        · obtain ⟨⟨before, split⟩, found⟩ := promised.oldest same
          simp only [buffer]
          refine ⟨⟨before, by rw [← List.append_assoc, split]⟩,
            fun other mem => ?_⟩
          rw [List.length_append, List.length_singleton]
          rcases List.mem_append.mp mem with old | new
          · rcases found other old with waiting | taken | late
            · exact Or.inl (List.mem_append_left _ waiting)
            · exact Or.inr (Or.inl taken)
            · exact Or.inr (Or.inr (late.trans (Nat.lt_succ_self _)))
          · exact Or.inl (List.mem_append_right _ new)
      · have noRoom := Nat.not_lt.mpr full
        refine ⟨spec.strategy.trans promised.strategy,
          spec.closed.trans promised.active,
          spec.capacity.trans promised.capacity,
          numbered_append promised.numbered, ?_, fun same => ?_,
          fun same => ?_⟩
        · rcases spec.full full with ⟨_, buffer⟩ | ⟨_, buffer⟩
          · rw [buffer]
            exact promised.order.trans (List.sublist_append_left _ _)
          · rw [buffer, ← List.append_assoc]
            refine List.Sublist.append ?_ (List.Sublist.refl _)
            exact (List.Sublist.append (List.Sublist.refl _)
              (List.tail_sublist _)).trans promised.order
        · rcases spec.full full with ⟨_, buffer⟩ | ⟨oldest, _⟩
          · simp only [buffer, noRoom, if_false]
            exact promised.newest same
          · rw [promised.strategy, same] at oldest
            cases oldest
        · rcases spec.full full with ⟨newest, _⟩ | ⟨_, buffer⟩
          · rw [promised.strategy, same] at newest
            cases newest
          · obtain ⟨front, rest, waiting⟩ :
                ∃ front rest, feed.stream.ch.buffer = front :: rest :=
              List.exists_cons_of_length_pos (capacity.trans_le full)
            obtain ⟨suffix, found⟩ := promised.oldest same
            rw [waiting] at suffix found full
            have last := promised.front_number suffix
            obtain ⟨before, split⟩ := suffix
            simp only [buffer, waiting, List.tail_cons]
            refine ⟨⟨before ++ [front], ?_⟩, fun other mem => ?_⟩
            · rw [← split, ← List.append_assoc, List.append_assoc before,
                List.singleton_append]
            rw [List.length_append, List.length_singleton]
            rcases List.mem_append.mp mem with old | new
            · rcases found other old with inside | taken | late
              · rcases List.mem_cons.mp inside with rfl | later
                · -- the message that the strategy drops
                  rw [promised.capacity, List.length_cons] at full
                  exact Or.inr (Or.inr (by omega))
                · exact Or.inl (List.mem_append_left _ later)
              · exact Or.inr (Or.inl taken)
              · exact Or.inr (Or.inr (late.trans (Nat.lt_succ_self _)))
            · exact Or.inl (List.mem_append_right _ new)

theorem step {action : FeedAction} (positive : 1 ≤ sub.capacity)
    (promised : Promised sub feed) (step : Steps action feed next) :
    Promised sub next := by
  cases action with
  | deliver msg => exact promised.deliver positive step
  | receive => exact promised.receive step

theorem nodup (promised : Promised sub feed) :
    (feed.received ++ feed.stream.ch.buffer).Nodup := by
  have distinct : feed.delivered.Nodup := by
    apply List.Nodup.of_map Prod.fst
    rw [promised.numbered]
    exact List.nodup_range
  exact distinct.sublist promised.order

end Promised

/-- What the buffer of a subscription promises, in every state of every run. -/
theorem keeps_promises {sub : Subscription} {actions : List FeedAction}
    (positive : 1 ≤ sub.capacity)
    (execution : Execution Steps (ofSubscription sub) actions feed) :
    feed.stream.ch.buffer.length ≤ sub.capacity.toNat ∧
    (feed.received ++ feed.stream.ch.buffer).Nodup ∧
    (feed.received ++ feed.stream.ch.buffer).Sublist feed.delivered ∧
    (sub.strategy = .dropOldest →
      feed.stream.ch.buffer <:+ feed.delivered ∧
        ∀ item ∈ feed.delivered, item ∉ feed.stream.ch.buffer →
          item ∉ feed.received →
          item.1 + sub.capacity.toNat < feed.delivered.length) ∧
    (sub.strategy = .dropNewest →
      feed.received ++ feed.stream.ch.buffer = feed.admitted) := by
  have promised : Promised sub feed :=
    execution.invariant (fun promised step => promised.step positive step)
      (Promised.start sub)
  refine ⟨?_, promised.nodup, promised.order, fun same => ?_,
    promised.newest⟩
  · rw [← promised.capacity]
    exact feed.stream.ch.bounded
  · obtain ⟨suffix, found⟩ := promised.oldest same
    exact ⟨suffix, fun item mem absent unread =>
      ((found item mem).resolve_left absent).resolve_left unread⟩

def narrow : Subscription where
  id := 1
  topic := [0x74]
  group := []
  capacity := 1
  strategy := .dropOldest

def greeting : Message where
  id := [0x74, 0x5F, 0x01]
  topic := [0x74]
  payload := [1]
  dedupID := []
  createdAt := 0

/-- Of three messages the consumer receives the first, and the third takes the
place of the second. -/
theorem keeps_promises_sample :
    ∃ feed : Feed,
      Execution Steps (ofSubscription narrow)
        [.deliver greeting, .receive, .deliver greeting, .deliver greeting]
        feed ∧
      feed.stream.ch.buffer = [(2, greeting)] ∧
      feed.stream.ch.buffer <:+ feed.delivered ∧
      feed.received = [(0, greeting)] := by
  have run : ∃ feed : Feed,
      Execution Steps (ofSubscription narrow)
        [.deliver greeting, .receive, .deliver greeting, .deliver greeting]
        feed ∧
      feed.stream.ch.buffer = [(2, greeting)] ∧
      feed.received = [(0, greeting)] :=
    ⟨_, .cons rfl (.cons rfl (.cons rfl (.cons rfl (.nil _)))), rfl, rfl⟩
  obtain ⟨feed, execution, buffer, received⟩ := run
  have promises := keeps_promises (by decide) execution
  exact ⟨feed, execution, buffer, (promises.2.2.2.1 rfl).1, received⟩

end Feed

end CocoDB.PubSub
