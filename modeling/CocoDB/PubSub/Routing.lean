import CocoDB.Lib.Run
import CocoDB.PubSub.Topic

/-!
# Routing

A broker is watched with the list of all subscriptions it has handed out and
with a log of what was published.  After every run the tables of the engine
hold exactly the subscriptions that are not closed, as long as the 64-bit
counter of the subscriptions does not wrap around.
-/

namespace CocoDB.PubSub

open Lib

/-! ## Brokers -/

/-- A message that was accepted and to whom it was handed. -/
structure Delivery where
  topic : Bytes
  offers : List Subscription

/-- An engine, the subscriptions it has handed out, and its messages, the
last one first. -/
structure Broker where
  engine : Engine
  issued : List Subscription
  log : List Delivery

inductive Call where
  | subscribe (topicPattern : Bytes) (cfg : Options)
  | unsubscribe (sub : Subscription)
  | publish (order : Shuffle ConsumerGroup) (topic payload : Bytes)
      (now : Int64) (cfg : Options)

namespace Broker

def newBroker (defaultBufSize : Int) : Broker :=
  ⟨.newEngine defaultBufSize, [], []⟩

def perform (broker : Broker) : Call → Broker
  | .subscribe topicPattern cfg =>
      let (sub, engine) := cfg.subscribe topicPattern broker.engine
      { broker with engine := engine, issued := broker.issued ++ [sub] }
  | .unsubscribe sub =>
      { broker with engine := broker.engine.unsubscribe sub }
  | .publish order topic payload now cfg =>
      let published := cfg.publish order topic payload now broker.engine
      { broker with
        engine := published.engine
        log :=
          match published.outcome with
          | .error _ => broker.log
          | .ok _ => ⟨topic, published.offers⟩ :: broker.log }

def Allowed (broker : Broker) : Call → Prop
  | .unsubscribe sub => sub ∈ broker.issued
  | _ => True

def Performs (call : Call) (before after : Broker) : Prop :=
  before.Allowed call ∧ before.perform call = after

/-- The 64-bit counters of the subscriptions and of the groups do not wrap
around. -/
def NoWrap (call : Call) (broker : Broker) : Prop :=
  match call with
  | .subscribe _ _ => broker.engine.subSeq.toNat + 1 < 2 ^ 64
  | .unsubscribe _ => True
  | .publish _ topic _ _ _ => ∀ group, group ∈ broker.engine.groupSubs topic →
      group.roundRobin.toNat + 1 < 2 ^ 64

instance : (call : Call) → (broker : Broker) → Decidable (NoWrap call broker)
  | .subscribe _ _, broker =>
      inferInstanceAs (Decidable (broker.engine.subSeq.toNat + 1 < 2 ^ 64))
  | .unsubscribe _, _ => inferInstanceAs (Decidable True)
  | .publish _ topic _ _ _, broker =>
      inferInstanceAs (Decidable (∀ group,
        group ∈ broker.engine.groupSubs topic →
          group.roundRobin.toNat + 1 < 2 ^ 64))

/-- The subscriptions of a kind that are not closed, in the order in which they
were handed out. -/
def current (kind : Subscription → Bool) (broker : Broker) :
    List Subscription :=
  broker.issued.filter fun sub =>
    kind sub && decide (sub.id ∉ broker.engine.closed)

end Broker

def directOn (topic : Bytes) (sub : Subscription) : Bool :=
  sub.group = [] ∧ isPattern sub.topic = false ∧ sub.topic = topic

def wildcard (sub : Subscription) : Bool :=
  sub.group = [] ∧ isPattern sub.topic = true

def memberOf (topic group : Bytes) (sub : Subscription) : Bool :=
  sub.topic = topic ∧ sub.group = group

def Matches (topicPattern topic : Bytes) : Prop :=
  if isPattern topicPattern then matchTopic topicPattern topic = true
  else topicPattern = topic

namespace Broker

structure Grouped (topic : Bytes) (broker : Broker)
    (groups : List ConsumerGroup) : Prop where
  names : (groups.map ConsumerGroup.name).Nodup
  named : ∀ group, group ∈ groups → group.name ≠ []
  hold : ∀ group, group ∈ groups →
    group.subscribers = broker.current (memberOf topic group.name)
  present : ∀ sub, sub ∈ broker.issued → sub.topic = topic →
    sub.group ≠ [] → ∃ group, group ∈ groups ∧ group.name = sub.group

/-- The tables hold the subscriptions that are not closed. -/
structure Tabled (broker : Broker) : Prop where
  numbered : (broker.issued.map Subscription.id).Nodup
  bounded : ∀ sub, sub ∈ broker.issued →
    sub.id.toNat ≤ broker.engine.subSeq.toNat
  closed : ∀ id, id ∈ broker.engine.closed →
    id.toNat ≤ broker.engine.subSeq.toNat
  exactly : ∀ topic, broker.engine.exactSubs topic =
    broker.current (directOn topic)
  patterns : broker.engine.patternSubs = broker.current wildcard
  groups : ∀ topic, Grouped topic broker (broker.engine.groupSubs topic)

theorem tabled_newBroker (defaultBufSize : Int) :
    Tabled (newBroker defaultBufSize) where
  numbered := List.nodup_nil
  bounded := fun _ member => nomatch member
  closed := fun _ member => nomatch member
  exactly := fun _ => rfl
  patterns := rfl
  groups := fun _ =>
    { names := List.nodup_nil
      named := fun _ member => nomatch member
      hold := fun _ member => nomatch member
      present := fun _ member => nomatch member }

section Lists

variable {broker after : Broker} {sub : Subscription}
  {kind : Subscription → Bool}

theorem current_issue (issued : after.issued = broker.issued ++ [sub])
    (closed : after.engine.closed = broker.engine.closed)
    (isOpen : sub.id ∉ broker.engine.closed) :
    after.current kind =
      broker.current kind ++ if kind sub then [sub] else [] := by
  simp only [current, issued, closed, List.filter_append]
  congr 1
  by_cases right : kind sub = true
  · rw [if_pos right]
    simp [right, isOpen]
  · rw [if_neg right]
    simp [right]

theorem mem_current {other : Subscription} :
    other ∈ broker.current kind ↔ other ∈ broker.issued ∧
      kind other = true ∧ other.id ∉ broker.engine.closed := by
  simp only [current, List.mem_filter, Bool.and_eq_true, decide_eq_true_eq]

theorem Tabled.same_id (tabled : Tabled broker) {other : Subscription}
    (member : sub ∈ broker.issued) (also : other ∈ broker.issued)
    (same : other.id = sub.id) : other = sub :=
  List.inj_on_of_nodup_map tabled.numbered also member same

theorem current_close (tabled : Tabled broker)
    (issued : after.issued = broker.issued)
    (closed : after.engine.closed = sub.id :: broker.engine.closed)
    (member : sub ∈ broker.issued) :
    after.current kind =
      if kind sub then
        (broker.current kind).filter fun other => other.id ≠ sub.id
      else broker.current kind := by
  have both : after.current kind =
      (broker.current kind).filter fun other => other.id ≠ sub.id := by
    simp only [current, issued, closed, List.filter_filter, List.mem_cons,
      not_or]
    congr 1
    funext other
    cases kind other <;> simp
  split
  · exact both
  · rename_i different
    rw [both]
    apply List.filter_eq_self.mpr
    intro other listed
    obtain ⟨handed, right, _⟩ := mem_current.mp listed
    rw [decide_eq_true_eq]
    intro same
    rw [tabled.same_id member handed same] at right
    exact different right

theorem Tabled.next_id (tabled : Tabled broker)
    (room : broker.engine.subSeq.toNat + 1 < 2 ^ 64)
    (number : sub.id = broker.engine.subSeq + 1) :
    sub.id ∉ broker.engine.closed ∧
      (∀ other, other ∈ broker.issued → other.id ≠ sub.id) ∧
      sub.id.toNat = broker.engine.subSeq.toNat + 1 := by
  have size : sub.id.toNat = broker.engine.subSeq.toNat + 1 := by
    rw [number, toNat_succ64 room]
  refine ⟨fun shut => ?_, fun other member same => ?_, size⟩
  · have bound := tabled.closed _ shut
    omega
  · have bound := tabled.bounded other member
    rw [same] at bound
    omega

theorem Tabled.numbering (tabled : Tabled broker)
    (room : broker.engine.subSeq.toNat + 1 < 2 ^ 64)
    (number : sub.id = broker.engine.subSeq + 1)
    (issued : after.issued = broker.issued ++ [sub])
    (closed : after.engine.closed = broker.engine.closed)
    (seq : after.engine.subSeq = broker.engine.subSeq + 1) :
    (after.issued.map Subscription.id).Nodup ∧
      (∀ other, other ∈ after.issued →
        other.id.toNat ≤ after.engine.subSeq.toNat) ∧
      ∀ id, id ∈ after.engine.closed →
        id.toNat ≤ after.engine.subSeq.toNat := by
  obtain ⟨_, fresh, size⟩ := tabled.next_id room number
  have grown : after.engine.subSeq.toNat =
      broker.engine.subSeq.toNat + 1 := by
    rw [seq, toNat_succ64 room]
  refine ⟨?_, fun other member => ?_, fun id shut => ?_⟩
  · rw [issued, List.map_append, List.map_singleton]
    apply List.Nodup.append tabled.numbered (List.nodup_singleton _)
    intro id first second
    obtain ⟨other, member, rfl⟩ := List.mem_map.mp first
    exact fresh other member (List.mem_singleton.mp second)
  · rw [issued] at member
    rcases List.mem_append.mp member with old | new
    · have bound := tabled.bounded other old
      omega
    · rw [List.mem_singleton.mp new]
      omega
  · rw [closed] at shut
    have bound := tabled.closed id shut
    omega

end Lists

section Calls

variable {broker : Broker}

theorem Grouped.of_eq {after : Broker} {topic : Bytes}
    {groups : List ConsumerGroup} (grouped : Grouped topic broker groups)
    (same : ∀ name, name ≠ [] → after.current (memberOf topic name) =
      broker.current (memberOf topic name))
    (handed : ∀ sub, sub ∈ after.issued → sub.topic = topic →
      sub.group ≠ [] → sub ∈ broker.issued) :
    Grouped topic after groups where
  names := grouped.names
  named := grouped.named
  hold := fun group member => by
    rw [grouped.hold group member, same _ (grouped.named group member)]
  present := fun sub member topic named =>
    grouped.present sub (handed sub member topic named) topic named

theorem Tabled.issue {after : Broker} {sub : Subscription}
    (tabled : Tabled broker)
    (room : broker.engine.subSeq.toNat + 1 < 2 ^ 64)
    (number : sub.id = broker.engine.subSeq + 1)
    (issued : after.issued = broker.issued ++ [sub])
    (closed : after.engine.closed = broker.engine.closed)
    (seq : after.engine.subSeq = broker.engine.subSeq + 1)
    (exactly : ∀ topic, after.engine.exactSubs topic =
      broker.engine.exactSubs topic ++ if directOn topic sub then [sub] else [])
    (patterns : after.engine.patternSubs =
      broker.engine.patternSubs ++ if wildcard sub then [sub] else [])
    (groups : ∀ topic, Grouped topic after (after.engine.groupSubs topic)) :
    Tabled after := by
  obtain ⟨isOpen, _, _⟩ := tabled.next_id room number
  obtain ⟨numbered, bounded, shut⟩ :=
    tabled.numbering room number issued closed seq
  refine ⟨numbered, bounded, shut, fun topic => ?_, ?_, groups⟩
  · rw [exactly, current_issue issued closed isOpen, tabled.exactly]
  · rw [patterns, current_issue issued closed isOpen, tabled.patterns]

theorem Grouped.issue {after : Broker} {sub : Subscription} {topic : Bytes}
    {groups : List ConsumerGroup} (grouped : Grouped topic broker groups)
    (issued : after.issued = broker.issued ++ [sub])
    (closed : after.engine.closed = broker.engine.closed)
    (isOpen : sub.id ∉ broker.engine.closed)
    (elsewhere : sub.topic ≠ topic ∨ sub.group = []) :
    Grouped topic after groups := by
  apply grouped.of_eq
  · intro name named
    have apart : memberOf topic name sub = false := by
      rcases elsewhere with other | direct
      · simp [memberOf, other]
      · simp [memberOf, direct, Ne.symm named]
    rw [current_issue issued closed isOpen, if_neg (by simp [apart]),
      List.append_nil]
  · intro other member here named
    rw [issued] at member
    rcases List.mem_append.mp member with old | new
    · exact old
    · rw [List.mem_singleton.mp new] at here named
      exact absurd elsewhere (by simp [here, named])

theorem Tabled.subscribe (tabled : Tabled broker) (topicPattern : Bytes)
    (bufSize : Int) (strategy : BackpressureStrategy)
    (room : broker.engine.subSeq.toNat + 1 < 2 ^ 64) :
    Tabled
      { broker with
        engine :=
          (broker.engine.subscribe topicPattern bufSize strategy).2
        issued := broker.issued ++
          [(broker.engine.subscribe topicPattern bufSize strategy).1] } := by
  have isOpen := (@Tabled.next_id broker (broker.engine.newSubscription
    topicPattern [] bufSize strategy) tabled room rfl).1
  cases wild : isPattern topicPattern with
  | true =>
      simp only [Engine.subscribe, wild, if_true]
      refine tabled.issue room rfl rfl rfl rfl ?_ ?_ ?_
      · intro topic
        simp [directOn, Engine.newSubscription, wild]
      · simp [wildcard, Engine.newSubscription, wild]
      · intro topic
        exact (tabled.groups topic).issue rfl rfl isOpen (.inr rfl)
  | false =>
      simp only [Engine.subscribe, wild, Bool.false_eq_true, if_false]
      refine tabled.issue room rfl rfl rfl rfl ?_ ?_ ?_
      · intro topic
        by_cases here : topicPattern = topic
        · subst here
          simp [directOn, Engine.newSubscription, wild]
        · simp [directOn, Engine.newSubscription, here,
            Function.update_of_ne (Ne.symm here)]
      · simp [wildcard, Engine.newSubscription, wild]
      · intro topic
        exact (tabled.groups topic).issue rfl rfl isOpen (.inr rfl)

theorem joinGroup_spec {name : Bytes} {sub : Subscription}
    {groups : List ConsumerGroup} :
    (∃ group, group ∈ groups ∧ group.name = name) ∧
        (Engine.joinGroup name sub groups).map ConsumerGroup.name =
          groups.map ConsumerGroup.name ∨
      (∀ group, group ∈ groups → group.name ≠ name) ∧
        Engine.joinGroup name sub groups = groups ++ [⟨name, [sub], 0⟩] := by
  induction groups with
  | nil => exact .inr ⟨fun _ member => (nomatch member), rfl⟩
  | cons group rest inductionHypothesis =>
      rw [Engine.joinGroup]
      by_cases here : group.name = name
      · rw [if_pos here]
        exact .inl ⟨⟨group, List.mem_cons_self, here⟩, rfl⟩
      · rw [if_neg here]
        rcases inductionHypothesis with
          ⟨⟨other, member, found⟩, same⟩ | ⟨none, grown⟩
        · refine .inl ⟨⟨other, List.mem_cons_of_mem _ member, found⟩, ?_⟩
          rw [List.map_cons, same, List.map_cons]
        · refine .inr ⟨?_, by rw [grown, List.cons_append]⟩
          intro other member
          rcases List.mem_cons.mp member with rfl | later
          · exact here
          · exact none other later

theorem mem_joinGroup {name : Bytes} {sub : Subscription}
    {groups : List ConsumerGroup}
    (names : (groups.map ConsumerGroup.name).Nodup) {group : ConsumerGroup}
    (member : group ∈ Engine.joinGroup name sub groups) :
    (group ∈ groups ∧ group.name ≠ name) ∨
    (∃ old, old ∈ groups ∧ old.name = name ∧ group = old.add sub) ∨
    ((∀ other, other ∈ groups → other.name ≠ name) ∧
      group = ⟨name, [sub], 0⟩) := by
  induction groups with
  | nil => exact .inr (.inr ⟨fun _ member => (nomatch member),
      List.mem_singleton.mp member⟩)
  | cons first rest inductionHypothesis =>
      rw [List.map_cons, List.nodup_cons] at names
      rw [Engine.joinGroup] at member
      by_cases here : first.name = name
      · rw [if_pos here] at member
        rcases List.mem_cons.mp member with rfl | later
        · exact .inr (.inl ⟨first, List.mem_cons_self, here, rfl⟩)
        · refine .inl ⟨List.mem_cons_of_mem _ later, fun same => ?_⟩
          exact names.1 (List.mem_map.mpr ⟨group, later, same.trans here.symm⟩)
      · rw [if_neg here] at member
        rcases List.mem_cons.mp member with rfl | later
        · exact .inl ⟨List.mem_cons_self, here⟩
        · rcases inductionHypothesis names.2 later with
            ⟨old, apart⟩ | ⟨old, among, named, rfl⟩ | ⟨none, rfl⟩
          · exact .inl ⟨List.mem_cons_of_mem _ old, apart⟩
          · exact .inr (.inl ⟨old, List.mem_cons_of_mem _ among, named, rfl⟩)
          · refine .inr (.inr ⟨fun other among => ?_, rfl⟩)
            rcases List.mem_cons.mp among with rfl | later
            · exact here
            · exact none other later

theorem Grouped.join {after : Broker} {sub : Subscription}
    {groups : List ConsumerGroup} (grouped : Grouped sub.topic broker groups)
    (issued : after.issued = broker.issued ++ [sub])
    (closed : after.engine.closed = broker.engine.closed)
    (isOpen : sub.id ∉ broker.engine.closed) (given : sub.group ≠ []) :
    Grouped sub.topic after (Engine.joinGroup sub.group sub groups) := by
  have mine : ∀ group, memberOf sub.topic group sub =
      decide (sub.group = group) := by
    intro group
    simp [memberOf]
  constructor
  · rcases @joinGroup_spec sub.group sub groups with
      ⟨_, same⟩ | ⟨none, grown⟩
    · rw [same]
      exact grouped.names
    · rw [grown, List.map_append]
      apply List.Nodup.append grouped.names (List.nodup_singleton _)
      intro found first second
      obtain ⟨group, member, rfl⟩ := List.mem_map.mp first
      exact none group member (List.mem_singleton.mp second)
  · intro group member
    rcases mem_joinGroup grouped.names member with
      ⟨old, _⟩ | ⟨old, among, _, rfl⟩ | ⟨_, rfl⟩
    · exact grouped.named group old
    · exact grouped.named old among
    · exact given
  · intro group member
    rw [current_issue issued closed isOpen, mine]
    rcases mem_joinGroup grouped.names member with
      ⟨old, apart⟩ | ⟨old, among, named, rfl⟩ | ⟨none, rfl⟩
    · rw [if_neg (by simpa using Ne.symm apart), List.append_nil]
      exact grouped.hold group old
    · have kept : (old.add sub).name = sub.group := named
      rw [kept, if_pos (by simp), ← named, ← grouped.hold old among]
      rfl
    · rw [if_pos (by simp)]
      -- a new group had no members before
      have empty : broker.current (memberOf sub.topic sub.group) = [] := by
        apply List.eq_nil_iff_forall_not_mem.mpr
        intro other listed
        obtain ⟨handed, kind, _⟩ := mem_current.mp listed
        simp only [memberOf, decide_eq_true_eq] at kind
        obtain ⟨group, among, found⟩ := grouped.present other handed kind.1
          (by rw [kind.2]; exact given)
        exact none group among (found.trans kind.2)
      rw [empty]
      rfl
  · intro other member here named
    have joined : (∃ group, group ∈ groups ∧ group.name = other.group) ∨
        other.group = sub.group → other.group ∈
          (Engine.joinGroup sub.group sub groups).map ConsumerGroup.name := by
      intro either
      rcases @joinGroup_spec sub.group sub groups with
        ⟨⟨group, among, has⟩, same⟩ | ⟨_, grown⟩
      · rw [same]
        rcases either with ⟨old, listed, found⟩ | equal
        · exact found ▸ List.mem_map_of_mem listed
        · exact equal ▸ has ▸ List.mem_map_of_mem among
      · rw [grown, List.map_append]
        rcases either with ⟨old, listed, found⟩ | equal
        · exact List.mem_append_left _ (found ▸ List.mem_map_of_mem listed)
        · exact List.mem_append_right _ (equal ▸ List.mem_cons_self)
    apply List.mem_map.mp
    apply joined
    rw [issued] at member
    rcases List.mem_append.mp member with old | new
    · exact .inl (grouped.present other old here named)
    · exact .inr (by rw [List.mem_singleton.mp new])

theorem Tabled.subscribeGroup (tabled : Tabled broker) (topic name : Bytes)
    (bufSize : Int) (strategy : BackpressureStrategy) (given : name ≠ [])
    (room : broker.engine.subSeq.toNat + 1 < 2 ^ 64) :
    Tabled
      { broker with
        engine :=
          (broker.engine.subscribeGroup topic name bufSize strategy).2
        issued := broker.issued ++
          [(broker.engine.subscribeGroup topic name bufSize strategy).1] } := by
  have isOpen := (@Tabled.next_id broker (broker.engine.newSubscription
    topic name bufSize strategy) tabled room rfl).1
  refine tabled.issue room rfl rfl rfl rfl ?_ ?_ ?_
  · intro other
    simp [directOn, Engine.subscribeGroup, Engine.newSubscription, given]
  · simp [wildcard, Engine.subscribeGroup, Engine.newSubscription, given]
  · intro other
    simp only [Engine.subscribeGroup]
    by_cases here : topic = other
    · subst here
      rw [Function.update_self]
      exact @Grouped.join broker _ (broker.engine.newSubscription topic name
        bufSize strategy) _ (tabled.groups topic) rfl rfl isOpen given
    · rw [Function.update_of_ne (Ne.symm here)]
      exact (tabled.groups other).issue rfl rfl isOpen (.inl here)

theorem Grouped.leave {after : Broker} {sub : Subscription} {topic : Bytes}
    {groups : List ConsumerGroup} (tabled : Tabled broker)
    (grouped : Grouped topic broker groups)
    (issued : after.issued = broker.issued)
    (closed : after.engine.closed = sub.id :: broker.engine.closed)
    (member : sub ∈ broker.issued) :
    Grouped topic after
      (if sub.topic = topic then Engine.leaveGroup sub.group sub.id groups
        else groups) := by
  have names : ∀ found : List ConsumerGroup,
      (Engine.leaveGroup sub.group sub.id found).map ConsumerGroup.name =
        found.map ConsumerGroup.name := by
    intro found
    rw [Engine.leaveGroup, List.map_map]
    congr 1
    funext group
    simp only [Function.comp]
    split <;> rfl
  have leaves : ∀ name, after.current (memberOf topic name) =
      if memberOf topic name sub then (broker.current (memberOf topic name)).filter
        fun other => other.id ≠ sub.id
      else broker.current (memberOf topic name) :=
    fun name => current_close tabled issued closed member
  by_cases here : sub.topic = topic
  · rw [if_pos here]
    constructor
    · rw [names]
      exact grouped.names
    · intro group among
      obtain ⟨old, listed, rfl⟩ := List.mem_map.mp among
      split
      · exact grouped.named old listed
      · exact grouped.named old listed
    · intro group among
      obtain ⟨old, listed, rfl⟩ := List.mem_map.mp among
      split
      · rename_i mine
        have kept : (old.remove sub.id).name = old.name := rfl
        rw [kept, leaves, if_pos (by simp [memberOf, here, mine]),
          ← grouped.hold old listed]
        rfl
      · rename_i other
        rw [leaves, if_neg (by simpa [memberOf, here] using Ne.symm other)]
        exact grouped.hold old listed
    · intro other handed there named
      rw [issued] at handed
      apply List.mem_map.mp
      rw [names]
      exact List.mem_map.mpr (grouped.present other handed there named)
  · rw [if_neg here]
    apply grouped.of_eq
    · intro name _
      rw [leaves, if_neg (by simp [memberOf, here])]
    · intro other handed _ _
      rwa [issued] at handed

theorem Tabled.close {after : Broker} {sub : Subscription}
    (tabled : Tabled broker) (member : sub ∈ broker.issued)
    (issued : after.issued = broker.issued)
    (closed : after.engine.closed = sub.id :: broker.engine.closed)
    (seq : after.engine.subSeq = broker.engine.subSeq)
    (exactly : ∀ topic, after.engine.exactSubs topic =
      if directOn topic sub then (broker.engine.exactSubs topic).filter
        fun other => other.id ≠ sub.id
      else broker.engine.exactSubs topic)
    (patterns : after.engine.patternSubs =
      if wildcard sub then broker.engine.patternSubs.filter
        fun other => other.id ≠ sub.id
      else broker.engine.patternSubs)
    (groups : ∀ topic, Grouped topic after (after.engine.groupSubs topic)) :
    Tabled after := by
  refine ⟨?_, ?_, ?_, fun topic => ?_, ?_, groups⟩
  · rw [issued]
    exact tabled.numbered
  · rw [issued, seq]
    exact tabled.bounded
  · rw [closed, seq]
    intro id among
    rcases List.mem_cons.mp among with rfl | old
    · exact tabled.bounded sub member
    · exact tabled.closed id old
  · rw [exactly, current_close tabled issued closed member, tabled.exactly]
  · rw [patterns, current_close tabled issued closed member, tabled.patterns]

theorem Tabled.unsubscribe (tabled : Tabled broker) {sub : Subscription}
    (member : sub ∈ broker.issued) :
    Tabled { broker with engine := broker.engine.unsubscribe sub } := by
  by_cases shut : sub.id ∈ broker.engine.closed
  · simp only [Engine.unsubscribe, if_pos shut]
    exact tabled
  simp only [Engine.unsubscribe, if_neg shut, Engine.unsubFn]
  by_cases direct : sub.group = []
  · -- no group has the empty name
    have outside : ∀ {after : Broker} (topic : Bytes),
        after.issued = broker.issued →
        after.engine.closed = sub.id :: broker.engine.closed →
        Grouped topic after (broker.engine.groupSubs topic) := by
      intro after topic issued closed
      apply (tabled.groups topic).of_eq
      · intro name named
        rw [current_close tabled issued closed member,
          if_neg (by simp [memberOf, direct, Ne.symm named])]
      · intro other handed _ _
        rwa [issued] at handed
    rw [if_neg (not_not.mpr direct)]
    cases wild : isPattern sub.topic with
    | true =>
        refine tabled.close member rfl rfl rfl ?_ ?_
          fun topic => outside topic rfl rfl
        · intro topic
          simp [directOn, wild]
        · simp [wildcard, wild, direct]
    | false =>
        refine tabled.close member rfl rfl rfl ?_ ?_
          fun topic => outside topic rfl rfl
        · intro topic
          by_cases here : sub.topic = topic
          · subst here
            simp [directOn, wild, direct]
          · simp [directOn, here, Function.update_of_ne (Ne.symm here)]
        · simp [wildcard, wild]
  · rw [if_pos direct]
    refine tabled.close member rfl rfl rfl ?_ ?_ ?_
    · intro topic
      simp [directOn, direct]
    · simp [wildcard, direct]
    · intro topic
      have shape : Function.update broker.engine.groupSubs sub.topic
          (Engine.leaveGroup sub.group sub.id
            (broker.engine.groupSubs sub.topic)) topic =
          if sub.topic = topic then
            Engine.leaveGroup sub.group sub.id (broker.engine.groupSubs topic)
          else broker.engine.groupSubs topic := by
        split
        · rename_i here
          rw [← here, Function.update_self]
        · rename_i here
          rw [Function.update_of_ne (Ne.symm here)]
      simp only [shape]
      exact Grouped.leave tabled (tabled.groups topic) rfl rfl member

theorem deliver_name (group : ConsumerGroup) :
    group.deliver.2.name = group.name := by
  rw [ConsumerGroup.deliver]
  split <;> rfl

theorem deliver_subscribers (group : ConsumerGroup) :
    group.deliver.2.subscribers = group.subscribers := by
  rw [ConsumerGroup.deliver]
  split <;> rfl

theorem Tabled.publish (tabled : Tabled broker)
    (order : Shuffle ConsumerGroup) (topic payload dedupID : Bytes)
    (window now : Int64) (log : List Delivery) :
    Tabled
      { broker with
        engine := (broker.engine.publish order topic payload dedupID window
          now).engine
        log := log } := by
  simp only [Engine.publish]
  split
  · exact ⟨tabled.numbered, tabled.bounded, tabled.closed, tabled.exactly,
      tabled.patterns, fun other => (tabled.groups other).of_eq
        (fun _ _ => rfl) fun _ handed _ _ => handed⟩
  · refine ⟨tabled.numbered, tabled.bounded, tabled.closed, tabled.exactly,
      tabled.patterns, fun other => ?_⟩
    have grouped := tabled.groups other
    by_cases here : topic = other
    · subst here
      simp only [Function.update_self]
      have names : ((broker.engine.groupSubs topic).map
          fun group => group.deliver.2).map ConsumerGroup.name =
            (broker.engine.groupSubs topic).map ConsumerGroup.name := by
        rw [List.map_map]
        exact congrArg (List.map · _) (funext deliver_name)
      constructor
      · rw [names]
        exact grouped.names
      · intro group among
        obtain ⟨old, listed, rfl⟩ := List.mem_map.mp among
        rw [deliver_name]
        exact grouped.named old listed
      · intro group among
        obtain ⟨old, listed, rfl⟩ := List.mem_map.mp among
        rw [deliver_name, deliver_subscribers]
        exact grouped.hold old listed
      · intro sub handed there named
        apply List.mem_map.mp
        rw [names]
        exact List.mem_map.mpr (grouped.present sub handed there named)
    · simp only [Function.update_of_ne (Ne.symm here)]
      exact grouped.of_eq (fun _ _ => rfl) fun _ handed _ _ => handed

theorem Tabled.performs {call : Call} {after : Broker}
    (tabled : Tabled broker) (taken : Guarded NoWrap Performs call broker after) :
    Tabled after := by
  obtain ⟨room, allowed, rfl⟩ := taken
  cases call with
  | subscribe topicPattern cfg =>
      simp only [perform, Options.subscribe]
      split
      · rename_i given
        exact tabled.subscribeGroup _ _ _ _ given room
      · exact tabled.subscribe _ _ _ room
  | unsubscribe sub => exact tabled.unsubscribe allowed
  | publish order topic payload now cfg =>
      exact tabled.publish order topic payload _ _ now _

end Calls

end Broker

end CocoDB.PubSub
