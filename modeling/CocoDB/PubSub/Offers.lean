import CocoDB.PubSub.Routing
import Mathlib.Data.Int.CardIntervalMod

/-!
# To whom a message goes

A message goes to whom it should, except that a consumer group is looked up by
the topic itself: a group on a pattern gets nothing that the pattern matches.
The members of a group that stays as it is take turns.
-/

namespace CocoDB.PubSub

open Lib

namespace Broker

/-! ## Exact routing -/

def Live (broker : Broker) (sub : Subscription) : Prop :=
  sub ∈ broker.issued ∧ sub.id ∉ broker.engine.closed

/-- A message on a topic goes once to every direct subscription that matches,
to one member of every group that matches and has members, and to no one
else. -/
structure Routed (topic : Bytes) (offers : List Subscription)
    (broker : Broker) : Prop where
  direct : ∀ sub, broker.Live sub → sub.group = [] →
    Matches sub.topic topic → offers.count sub = 1
  groups : ∀ pattern name, name ≠ [] → Matches pattern topic →
    broker.current (memberOf pattern name) ≠ [] →
    ∃ chosen, broker.Live chosen ∧
      offers.filter (memberOf pattern name) = [chosen]
  only : ∀ sub, sub ∈ offers → broker.Live sub ∧ Matches sub.topic topic

/-- No member of a group has a pattern that matches a topic other than
itself. -/
def Clear (topic : Bytes) (broker : Broker) : Prop :=
  ∀ sub, broker.Live sub → sub.group ≠ [] → Matches sub.topic topic →
    sub.topic = topic

theorem matches_self (topic : Bytes) : Matches topic topic := by
  rw [Matches]
  split
  · rw [matchTopic, if_pos (.inl rfl)]
  · rfl

section Targets

variable {broker : Broker} {topic : Bytes} {order : Shuffle ConsumerGroup}

theorem deliver_mem {group : ConsumerGroup} {sub : Subscription}
    (chosen : group.deliver.1 = some sub) : sub ∈ group.subscribers := by
  rw [ConsumerGroup.deliver] at chosen
  split at chosen
  · cases chosen
  · exact List.mem_of_getElem? chosen

theorem deliver_some {group : ConsumerGroup} (members : group.subscribers ≠ []) :
    ∃ sub, group.deliver.1 = some sub := by
  rw [ConsumerGroup.deliver, if_neg members]
  have inside : (group.roundRobin + 1).toNat % group.subscribers.length <
      group.subscribers.length :=
    Nat.mod_lt _ (List.length_pos_iff.mpr members)
  exact ⟨_, List.getElem?_eq_getElem inside⟩

def chosen (order : Shuffle ConsumerGroup) (topic : Bytes) (broker : Broker) :
    List Subscription :=
  (order.arrange (broker.engine.groupSubs topic)).filterMap fun group =>
    group.deliver.1

theorem Tabled.targets_eq (tabled : Tabled broker) :
    broker.engine.targets order topic =
      broker.current (directOn topic) ++ broker.chosen order topic ++
        (broker.current wildcard).filter fun sub =>
          matchTopic sub.topic topic := by
  rw [Engine.targets, tabled.exactly, tabled.patterns]
  rfl

theorem Tabled.mem_chosen (tabled : Tabled broker) {sub : Subscription}
    (member : sub ∈ broker.chosen order topic) :
    broker.Live sub ∧ sub.topic = topic ∧ sub.group ≠ [] := by
  obtain ⟨group, listed, turn⟩ := List.mem_filterMap.mp member
  have among := (order.perm _).mem_iff.mp listed
  have holds := deliver_mem turn
  rw [(tabled.groups topic).hold group among] at holds
  obtain ⟨handed, kind, isOpen⟩ := mem_current.mp holds
  simp only [memberOf, decide_eq_true_eq] at kind
  refine ⟨⟨handed, isOpen⟩, kind.1, ?_⟩
  rw [kind.2]
  exact (tabled.groups topic).named group among

theorem Tabled.mem_targets (tabled : Tabled broker) {sub : Subscription}
    (member : sub ∈ broker.engine.targets order topic) :
    broker.Live sub ∧ Matches sub.topic topic ∧
      (sub.group ≠ [] → sub.topic = topic) := by
  rw [tabled.targets_eq] at member
  rcases List.mem_append.mp member with both | wild
  · rcases List.mem_append.mp both with direct | grouped
    · obtain ⟨handed, kind, isOpen⟩ := mem_current.mp direct
      simp only [directOn, decide_eq_true_eq] at kind
      refine ⟨⟨handed, isOpen⟩, ?_, fun _ => kind.2.2⟩
      rw [kind.2.2]
      exact matches_self topic
    · obtain ⟨live, here, _⟩ := tabled.mem_chosen grouped
      refine ⟨live, ?_, fun _ => here⟩
      rw [here]
      exact matches_self topic
  · obtain ⟨listed, found⟩ := List.mem_filter.mp wild
    obtain ⟨handed, kind, isOpen⟩ := mem_current.mp listed
    simp only [wildcard, decide_eq_true_eq] at kind
    refine ⟨⟨handed, isOpen⟩, ?_, fun named => absurd kind.1 named⟩
    rw [Matches, if_pos kind.2]
    exact found

theorem Tabled.offered_eq (tabled : Tabled broker) :
    broker.engine.offered order topic = broker.engine.targets order topic := by
  apply List.filter_eq_self.mpr
  intro sub member
  rw [decide_eq_true_eq]
  exact (tabled.mem_targets member).1.2

theorem Tabled.nodup_current (tabled : Tabled broker)
    (kind : Subscription → Bool) : (broker.current kind).Nodup :=
  (List.Nodup.of_map _ tabled.numbered).filter _

theorem Tabled.count_direct (tabled : Tabled broker) {sub : Subscription}
    (live : broker.Live sub) (direct : sub.group = [])
    (found : Matches sub.topic topic) :
    (broker.engine.targets order topic).count sub = 1 := by
  have ungrouped : (broker.chosen order topic).count sub = 0 := by
    rw [List.count_eq_zero]
    intro member
    exact (tabled.mem_chosen member).2.2 direct
  rw [tabled.targets_eq, List.count_append, List.count_append, ungrouped]
  rw [Matches] at found
  cases wild : isPattern sub.topic with
  | true =>
      rw [wild, if_pos rfl] at found
      have none : (broker.current (directOn topic)).count sub = 0 := by
        rw [List.count_eq_zero]
        intro member
        have kind := (mem_current.mp member).2.1
        simp [directOn, wild] at kind
      have once : ((broker.current wildcard).filter fun sub =>
          matchTopic sub.topic topic).count sub = 1 := by
        apply List.count_eq_one_of_mem ((tabled.nodup_current _).filter _)
        apply List.mem_filter.mpr ⟨mem_current.mpr ⟨live.1, ?_, live.2⟩, found⟩
        simp [wildcard, wild, direct]
      omega
  | false =>
      rw [wild, if_neg (by decide)] at found
      have once : (broker.current (directOn topic)).count sub = 1 := by
        apply List.count_eq_one_of_mem (tabled.nodup_current _)
        apply mem_current.mpr ⟨live.1, ?_, live.2⟩
        rw [← found]
        simp [directOn, wild, direct]
      have none : ((broker.current wildcard).filter fun sub =>
          matchTopic sub.topic topic).count sub = 0 := by
        rw [List.count_eq_zero]
        intro member
        have kind := (mem_current.mp (List.mem_filter.mp member).1).2.1
        simp [wildcard, wild] at kind
      omega

theorem Tabled.chosen_filter (tabled : Tabled broker) {group : ConsumerGroup}
    (among : group ∈ broker.engine.groupSubs topic) :
    (broker.chosen order topic).filter (memberOf topic group.name) =
      group.deliver.1.toList := by
  have grouped := tabled.groups topic
  have listed := (order.perm _).mem_iff.mpr among
  obtain ⟨front, back, shape⟩ := List.append_of_mem listed
  have names := ((order.perm _).map ConsumerGroup.name).nodup_iff.mpr
    grouped.names
  rw [shape, List.map_append, List.map_cons] at names
  have mine : ∀ other, other ∈ broker.engine.groupSubs topic →
      ∀ sub, other.deliver.1 = some sub →
        memberOf topic group.name sub = decide (other.name = group.name) := by
    intro other held sub turn
    have member := deliver_mem turn
    rw [grouped.hold other held] at member
    have kind := (mem_current.mp member).2.1
    simp only [memberOf, decide_eq_true_eq] at kind
    simp [memberOf, kind.1, kind.2]
  have others : ∀ groups : List ConsumerGroup,
      (∀ other, other ∈ groups → other ∈ broker.engine.groupSubs topic ∧
        other.name ≠ group.name) →
      (groups.filterMap fun other => other.deliver.1).filter
        (memberOf topic group.name) = [] := by
    intro groups apart
    apply List.filter_eq_nil_iff.mpr
    intro sub member
    obtain ⟨other, inside, turn⟩ := List.mem_filterMap.mp member
    rw [mine other (apart other inside).1 sub turn]
    simpa using (apart other inside).2
  have inside : ∀ other, other ∈ front ++ group :: back →
      other ∈ broker.engine.groupSubs topic := by
    intro other member
    rw [← shape] at member
    exact (order.perm _).mem_iff.mp member
  have before : ∀ other, other ∈ front →
      other ∈ broker.engine.groupSubs topic ∧ other.name ≠ group.name := by
    intro other member
    refine ⟨inside other (List.mem_append_left _ member), fun same => ?_⟩
    exact (List.nodup_append.mp names).2.2 _ (List.mem_map_of_mem member) _
      List.mem_cons_self same
  have behind : ∀ other, other ∈ back →
      other ∈ broker.engine.groupSubs topic ∧ other.name ≠ group.name := by
    intro other member
    refine ⟨inside other (List.mem_append_right _
      (List.mem_cons_of_mem _ member)), fun same => ?_⟩
    apply (List.nodup_cons.mp (List.nodup_append.mp names).2.1).1
    exact same ▸ List.mem_map_of_mem member
  rw [chosen, shape, List.filterMap_append, List.filter_append,
    others front before, List.nil_append]
  cases turn : group.deliver.1 with
  | none =>
      simp only [List.filterMap_cons, turn, others back behind,
        Option.toList_none]
  | some sub =>
      simp only [List.filterMap_cons, turn]
      rw [List.filter_cons_of_pos, others back behind]
      · rfl
      · rw [mine group among sub turn]
        simp

theorem Tabled.targets_group (tabled : Tabled broker) {group : ConsumerGroup}
    (among : group ∈ broker.engine.groupSubs topic) :
    (broker.engine.targets order topic).filter (memberOf topic group.name) =
      group.deliver.1.toList := by
  have named := (tabled.groups topic).named group among
  have outside : ∀ others : List Subscription,
      (∀ other, other ∈ others → other.group = []) →
      others.filter (memberOf topic group.name) = [] := by
    intro others direct
    apply List.filter_eq_nil_iff.mpr
    intro other member
    simp [memberOf, direct other member, Ne.symm named]
  rw [tabled.targets_eq, List.filter_append, List.filter_append,
    tabled.chosen_filter among, outside, outside, List.nil_append,
    List.append_nil]
  · intro other member
    have kind := (mem_current.mp (List.mem_filter.mp member).1).2.1
    simp only [wildcard, decide_eq_true_eq] at kind
    exact kind.1
  · intro other member
    have kind := (mem_current.mp member).2.1
    simp only [directOn, decide_eq_true_eq] at kind
    exact kind.1

theorem Tabled.group_of_members (tabled : Tabled broker) {name : Bytes}
    (named : name ≠ []) (members : broker.current (memberOf topic name) ≠ []) :
    ∃ group, group ∈ broker.engine.groupSubs topic ∧ group.name = name := by
  obtain ⟨sub, listed⟩ := List.exists_mem_of_ne_nil _ members
  obtain ⟨handed, kind, _⟩ := mem_current.mp listed
  simp only [memberOf, decide_eq_true_eq] at kind
  obtain ⟨group, among, found⟩ := (tabled.groups topic).present sub handed
    kind.1 (by rw [kind.2]; exact named)
  exact ⟨group, among, found.trans kind.2⟩

theorem Tabled.targets_filter (tabled : Tabled broker) {name : Bytes}
    (named : name ≠ [])
    (members : broker.current (memberOf topic name) ≠ []) :
    ∃ chosen, broker.Live chosen ∧ (broker.engine.targets order topic).filter
      (memberOf topic name) = [chosen] := by
  obtain ⟨group, among, rfl⟩ := tabled.group_of_members named members
  have filled := (tabled.groups topic).hold group among
  obtain ⟨chosen, turn⟩ := deliver_some (filled ▸ members)
  have inside := deliver_mem turn
  rw [filled] at inside
  have live := mem_current.mp inside
  refine ⟨chosen, ⟨live.1, live.2.2⟩, ?_⟩
  rw [tabled.targets_group among, turn]
  rfl

theorem Tabled.routed_iff (tabled : Tabled broker) :
    Routed topic (broker.engine.offered order topic) broker ↔
      Clear topic broker := by
  rw [tabled.offered_eq]
  constructor
  · intro routed sub live named found
    have members : broker.current (memberOf sub.topic sub.group) ≠ [] := by
      apply List.ne_nil_of_mem
      apply mem_current.mpr ⟨live.1, ?_, live.2⟩
      simp [memberOf]
    obtain ⟨chosen, _, offer⟩ :=
      routed.groups sub.topic sub.group named found members
    have listed : chosen ∈ (broker.engine.targets order topic).filter
        (memberOf sub.topic sub.group) := by
      rw [offer]
      exact List.mem_cons_self
    obtain ⟨among, kind⟩ := List.mem_filter.mp listed
    simp only [memberOf, decide_eq_true_eq] at kind
    rw [← kind.1]
    apply (tabled.mem_targets among).2.2
    rw [kind.2]
    exact named
  · intro clear
    constructor
    · intro sub live direct found
      exact tabled.count_direct live direct found
    · intro pattern name named found members
      obtain ⟨sub, listed⟩ := List.exists_mem_of_ne_nil _ members
      obtain ⟨handed, kind, isOpen⟩ := mem_current.mp listed
      simp only [memberOf, decide_eq_true_eq] at kind
      have here : pattern = topic := by
        rw [← kind.1]
        apply clear sub ⟨handed, isOpen⟩
        · rw [kind.2]
          exact named
        · rw [kind.1]
          exact found
      subst here
      exact tabled.targets_filter named members
    · intro sub member
      have target := tabled.mem_targets member
      exact ⟨target.1, target.2.1⟩

end Targets

/-! ## Turns -/

instance (topicPattern topic : Bytes) :
    Decidable (Matches topicPattern topic) :=
  inferInstanceAs (Decidable (if isPattern topicPattern then
    matchTopic topicPattern topic = true else topicPattern = topic))

def matched (pattern : Bytes) (log : List Delivery) : Nat :=
  log.countP fun delivery => Matches pattern delivery.topic

def share (pattern : Bytes) (sub : Subscription) (log : List Delivery) : Nat :=
  log.countP fun delivery =>
    Matches pattern delivery.topic ∧ sub ∈ delivery.offers

/-- A message is not published on a topic that the pattern of a group
matches. -/
def Resolved (call : Call) (broker : Broker) : Prop :=
  match call with
  | .publish _ topic _ _ _ => Clear topic broker
  | _ => True

def Steady (pattern name : Bytes) (call : Call) (broker : Broker) : Prop :=
  (broker.perform call).current (memberOf pattern name) =
    broker.current (memberOf pattern name)

def Settled (pattern name : Bytes) (call : Call) (broker : Broker) : Prop :=
  NoWrap call broker ∧ Resolved call broker ∧ Steady pattern name call broker

def Turn (pattern name : Bytes) (turn : Nat) (broker : Broker) : Prop :=
  ∃ group, group ∈ broker.engine.groupSubs pattern ∧ group.name = name ∧
    group.roundRobin.toNat = turn

section Turns

variable {pattern name : Bytes} {turn : Nat} {broker : Broker}

theorem turn_joinGroup {groups : List ConsumerGroup} (joined : Bytes)
    (sub : Subscription) {group : ConsumerGroup} (among : group ∈ groups) :
    ∃ other, other ∈ Engine.joinGroup joined sub groups ∧
      other.name = group.name ∧ other.roundRobin = group.roundRobin := by
  induction groups with
  | nil => cases among
  | cons first rest inductionHypothesis =>
      rw [Engine.joinGroup]
      split
      · rcases List.mem_cons.mp among with rfl | later
        · exact ⟨_, List.mem_cons_self, rfl, rfl⟩
        · exact ⟨group, List.mem_cons_of_mem _ later, rfl, rfl⟩
      · rcases List.mem_cons.mp among with rfl | later
        · exact ⟨group, List.mem_cons_self, rfl, rfl⟩
        · obtain ⟨other, member, same⟩ := inductionHypothesis later
          exact ⟨other, List.mem_cons_of_mem _ member, same⟩

theorem Turn.subscribe (has : Turn pattern name turn broker)
    (topicPattern : Bytes) (cfg : Options) :
    Turn pattern name turn (broker.perform (.subscribe topicPattern cfg)) := by
  simp only [Turn, perform, Options.subscribe]
  split
  · simp only [Engine.subscribeGroup]
    by_cases here : pattern = topicPattern
    · subst here
      rw [Function.update_self]
      obtain ⟨group, among, named, counter⟩ := has
      obtain ⟨other, member, same, kept⟩ := turn_joinGroup cfg.consumerGroup
        (broker.engine.newSubscription pattern cfg.consumerGroup
          cfg.bufferSize cfg.strategy) among
      exact ⟨other, member, same.trans named, by rw [kept, counter]⟩
    · rw [Function.update_of_ne here]
      exact has
  · simp only [Engine.subscribe]
    split
    · exact has
    · exact has

theorem Turn.unsubscribe (has : Turn pattern name turn broker)
    (sub : Subscription) :
    Turn pattern name turn (broker.perform (.unsubscribe sub)) := by
  simp only [Turn, perform, Engine.unsubscribe]
  split
  · exact has
  simp only [Engine.unsubFn]
  split
  · by_cases here : pattern = sub.topic
    · subst here
      simp only [Function.update_self]
      obtain ⟨group, among, named, counter⟩ := has
      refine ⟨_, List.mem_map_of_mem among, ?_, ?_⟩
      · split
        · exact named
        · exact named
      · split
        · exact counter
        · exact counter
    · simp only [Function.update_of_ne here]
      exact has
  · split
    · exact has
    · exact has

/-- Where the turns of a group stand: the counter has moved by the messages of
the group, and a member has got those at its place. -/
structure Turning (pattern name : Bytes) (members : List Subscription)
    (turn : Nat) (before : List Delivery) (broker : Broker) : Prop where
  tabled : Tabled broker
  same : broker.current (memberOf pattern name) = members
  served : ∃ recent, broker.log = recent ++ before ∧
    Turn pattern name (turn + matched pattern recent) broker ∧
    ∀ (index : Nat) (sub : Subscription), members[index]? = some sub →
      share pattern sub recent =
        Nat.count (fun round => (turn + round + 1) % members.length = index)
          (matched pattern recent)

variable {members : List Subscription} {before : List Delivery}

theorem Tabled.offered_turn (tabled : Tabled broker)
    {group : ConsumerGroup} (among : group ∈ broker.engine.groupSubs pattern)
    (room : group.roundRobin.toNat + 1 < 2 ^ 64)
    (order : Shuffle ConsumerGroup) {index : Nat} {sub : Subscription}
    (place : group.subscribers[index]? = some sub) :
    sub ∈ broker.engine.offered order pattern ↔
      (group.roundRobin.toNat + 1) % group.subscribers.length = index := by
  have held := (tabled.groups pattern).hold group among
  have member := List.mem_of_getElem? place
  have some : group.subscribers ≠ [] := List.ne_nil_of_mem member
  have inside : (group.roundRobin.toNat + 1) % group.subscribers.length <
      group.subscribers.length :=
    Nat.mod_lt _ (List.length_pos_iff.mpr some)
  have kind : memberOf pattern group.name sub = true := by
    rw [held] at member
    exact (mem_current.mp member).2.1
  have turn : group.deliver.1 = group.subscribers[
      (group.roundRobin.toNat + 1) % group.subscribers.length]? := by
    rw [ConsumerGroup.deliver, if_neg some, ← toNat_succ64 room]
  have offer : sub ∈ broker.engine.offered order pattern ↔
      group.deliver.1 = .some sub := by
    rw [tabled.offered_eq, ← Option.mem_toList,
      ← @Tabled.targets_group _ _ order tabled _ among, List.mem_filter, kind]
    exact (and_iff_left rfl).symm
  rw [offer, turn]
  constructor
  · intro found
    have distinct : group.subscribers.Nodup := by
      rw [held]
      exact tabled.nodup_current _
    apply (List.getElem?_inj inside distinct).mp
    rw [found, place]
  · intro found
    rw [found, place]

theorem perform_publish (broker : Broker) (order : Shuffle ConsumerGroup)
    (topic payload : Bytes) (now : Int64) (cfg : Options) :
    let after := broker.perform (.publish order topic payload now cfg)
    (after.log = broker.log ∧
      after.engine.groupSubs = broker.engine.groupSubs) ∨
    (after.log = ⟨topic, broker.engine.offered order topic⟩ :: broker.log ∧
      after.engine.groupSubs = Function.update broker.engine.groupSubs topic
        ((broker.engine.groupSubs topic).map fun group =>
          group.deliver.2)) := by
  simp only [perform, Options.publish, Engine.publish]
  cases (broker.engine.dedup.checkOrSet cfg.dedupID cfg.dedupWindow now).1 with
  | false => exact .inl ⟨rfl, rfl⟩
  | true => exact .inr ⟨rfl, rfl⟩

theorem Turning.serve {after : Broker}
    (turning : Turning pattern name members turn before broker)
    (tabled : Tabled after)
    (steady : after.current (memberOf pattern name) = members)
    (filled : members ≠ []) (order : Shuffle ConsumerGroup)
    (room : ∀ group, group ∈ broker.engine.groupSubs pattern →
      group.roundRobin.toNat + 1 < 2 ^ 64)
    (log : after.log =
      ⟨pattern, broker.engine.offered order pattern⟩ :: broker.log)
    (groups : after.engine.groupSubs pattern =
      (broker.engine.groupSubs pattern).map fun group => group.deliver.2) :
    Turning pattern name members turn before after := by
  obtain ⟨recent, shape, ⟨group, among, rfl, counter⟩, shares⟩ :=
    turning.served
  have held : group.subscribers = members := by
    rw [(turning.tabled.groups pattern).hold group among, turning.same]
  have more : matched pattern
      (⟨pattern, broker.engine.offered order pattern⟩ :: recent) =
        matched pattern recent + 1 := by
    rw [matched, List.countP_cons_of_pos (by simpa using matches_self pattern)]
    rfl
  refine ⟨tabled, steady,
    ⟨pattern, broker.engine.offered order pattern⟩ :: recent, ?_, ?_, ?_⟩
  · rw [log, shape, List.cons_append]
  · refine ⟨group.deliver.2, ?_, deliver_name group, ?_⟩
    · rw [groups]
      exact List.mem_map_of_mem among
    · rw [ConsumerGroup.deliver, if_neg (held ▸ filled),
        toNat_succ64 (room group among), counter, more]
      rfl
  · intro index sub place
    have turns := turning.tabled.offered_turn among (room group among) order
      (held ▸ place)
    rw [held, counter] at turns
    rw [more, Nat.count_succ, ← shares index sub place, share,
      List.countP_cons]
    congr 1
    simp only [decide_eq_true_eq, matches_self, true_and, turns]

theorem Turning.pass {after : Broker} {delivery : Delivery}
    (turning : Turning pattern name members turn before broker)
    (tabled : Tabled after)
    (steady : after.current (memberOf pattern name) = members)
    (log : after.log = delivery :: broker.log)
    (other : ¬ Matches pattern delivery.topic)
    (groups : after.engine.groupSubs pattern =
      broker.engine.groupSubs pattern) :
    Turning pattern name members turn before after := by
  obtain ⟨recent, shape, ⟨group, among, named, counter⟩, shares⟩ :=
    turning.served
  have same : matched pattern (delivery :: recent) =
      matched pattern recent := by
    rw [matched, List.countP_cons_of_neg (by simpa using other)]
    rfl
  refine ⟨tabled, steady, delivery :: recent, ?_, ?_, ?_⟩
  · rw [log, shape, List.cons_append]
  · exact ⟨group, groups ▸ among, named, by rw [counter, same]⟩
  · intro index sub place
    rw [same, ← shares index sub place, share,
      List.countP_cons_of_neg (by simp [other])]
    rfl

theorem Turning.idle {after : Broker}
    (turning : Turning pattern name members turn before broker)
    (tabled : Tabled after)
    (steady : after.current (memberOf pattern name) = members)
    (log : after.log = broker.log)
    (kept : ∀ round, Turn pattern name round broker →
      Turn pattern name round after) :
    Turning pattern name members turn before after := by
  obtain ⟨recent, shape, has, shares⟩ := turning.served
  exact ⟨tabled, steady, recent, log.trans shape, kept _ has, shares⟩

theorem Turning.performs {call : Call} {after : Broker} (named : name ≠ [])
    (filled : members ≠ [])
    (turning : Turning pattern name members turn before broker)
    (taken : Guarded (Settled pattern name) Performs call broker after) :
    Turning pattern name members turn before after := by
  obtain ⟨⟨room, resolved, steady⟩, allowed, rfl⟩ := taken
  have tabled := turning.tabled.performs ⟨room, allowed, rfl⟩
  rw [Steady, turning.same] at steady
  cases call with
  | subscribe topicPattern cfg =>
      exact turning.idle tabled steady rfl fun _ has =>
        has.subscribe topicPattern cfg
  | unsubscribe sub =>
      exact turning.idle tabled steady rfl fun _ has => has.unsubscribe sub
  | publish order topic payload now cfg =>
      rcases perform_publish broker order topic payload now cfg with
        ⟨log, groups⟩ | ⟨log, groups⟩
      · exact turning.idle tabled steady log fun _ has => by
          rw [Turn, groups]
          exact has
      · by_cases here : topic = pattern
        · subst here
          exact turning.serve tabled steady filled order room log
            (by rw [groups, Function.update_self])
        · refine turning.pass tabled steady log ?_
            (by rw [groups, Function.update_of_ne (Ne.symm here)])
          intro found
          -- a member of the group would be on a pattern
          obtain ⟨sub, listed⟩ := List.exists_mem_of_ne_nil _ filled
          rw [← turning.same] at listed
          obtain ⟨handed, kind, isOpen⟩ := mem_current.mp listed
          simp only [memberOf, decide_eq_true_eq] at kind
          apply here
          rw [← kind.1]
          apply Eq.symm
          apply resolved sub ⟨handed, isOpen⟩
          · rw [kind.2]
            exact named
          · rw [kind.1]
            exact found

theorem count_rounds {period index : Nat} (inside : index < period)
    (start rounds : Nat) :
    let times := Nat.count
      (fun round => (start + round + 1) % period = index) rounds
    times = rounds / period ∨ times = (rounds + period - 1) / period := by
  have positive : 0 < period := Nat.zero_lt_of_lt inside
  -- the distance to the first round at which the residue is met
  let away := index + (period - (start + 1) % period)
  have back : away + (start + 1) ≡ index [MOD period] := by
    have small := Nat.mod_lt (start + 1) positive
    have parts := Nat.mod_add_div (start + 1) period
    have whole : away + (start + 1) =
        index + period * ((start + 1) / period + 1) := by
      rw [Nat.mul_succ]
      omega
    rw [whole, Nat.ModEq, Nat.add_mul_mod_self_left]
  have shifted : ∀ round, (start + round + 1) % period = index ↔
      round ≡ away [MOD period] := by
    intro round
    have rounded : start + round + 1 = round + (start + 1) := by omega
    rw [rounded]
    constructor
    · intro found
      apply Nat.ModEq.add_right_cancel' (start + 1)
      apply Nat.ModEq.trans _ back.symm
      rw [Nat.ModEq, found, Nat.mod_eq_of_lt inside]
    · intro found
      have met := (found.add_right (start + 1)).trans back
      rw [Nat.ModEq, Nat.mod_eq_of_lt inside] at met
      exact met
  simp only [shifted]
  rw [Nat.count_modEq_card _ positive]
  split
  · right
    have parts := Nat.div_add_mod' rounds period
    apply Eq.symm
    apply Nat.div_eq_of_lt_le
    · rw [Nat.succ_mul]
      omega
    · rw [Nat.succ_mul, Nat.succ_mul]
      have small := Nat.mod_lt rounds positive
      omega
  · left
    rfl

theorem Tabled.turning (tabled : Tabled broker) (named : name ≠ [])
    (filled : broker.current (memberOf pattern name) ≠ []) :
    ∃ turn, Turning pattern name (broker.current (memberOf pattern name)) turn
      broker.log broker := by
  obtain ⟨group, among, found⟩ := tabled.group_of_members named filled
  refine ⟨group.roundRobin.toNat, tabled, rfl, [], rfl, ?_, ?_⟩
  · exact ⟨group, among, found, rfl⟩
  · intro index sub _
    exact (Nat.count_zero _).symm

end Turns

/-- Of a number of messages for a group every member has got its part, rounded
down or up. -/
def Shared (pattern : Bytes) (members : List Subscription)
    (log : List Delivery) : Prop :=
  ∀ sub, sub ∈ members →
    share pattern sub log = matched pattern log / members.length ∨
    share pattern sub log =
      (matched pattern log + members.length - 1) / members.length

theorem Tabled.even {pattern name : Bytes} {broker final : Broker}
    {later : List Call} (tabled : Tabled broker) (named : name ≠ [])
    (filled : broker.current (memberOf pattern name) ≠ [])
    (execution : Execution (Guarded (Settled pattern name) Performs) broker
      later final) :
    ∃ recent, final.log = recent ++ broker.log ∧
      Shared pattern (broker.current (memberOf pattern name)) recent := by
  obtain ⟨turn, turning⟩ := tabled.turning named filled
  obtain ⟨recent, log, _, shares⟩ := (execution.invariant
    (fun holds taken => Turning.performs named filled holds taken)
    turning).served
  refine ⟨recent, log, fun sub member => ?_⟩
  obtain ⟨index, place⟩ := List.mem_iff_getElem?.mp member
  obtain ⟨inside, _⟩ := List.getElem?_eq_some_iff.mp place
  rw [shares index sub place]
  exact count_rounds inside turn _

/-! ## Messages after a run -/

/-- The message is accepted, goes to whom it should, and the result says to how
many. -/
structure Exact (topic : Bytes) (published : Engine.Published)
    (broker : Broker) : Prop where
  counted : published.outcome = .ok published.offers.length
  routed : Routed topic published.offers broker

def Accepted (now : Int64) (cfg : Options) (broker : Broker) : Prop :=
  (broker.engine.dedup.checkOrSet cfg.dedupID cfg.dedupWindow now).1 = true

theorem Tabled.exact_iff {broker : Broker} (tabled : Tabled broker)
    (order : Shuffle ConsumerGroup) (topic payload : Bytes) (now : Int64)
    (cfg : Options) :
    Exact topic (cfg.publish order topic payload now broker.engine) broker ↔
      Accepted now cfg broker ∧ Clear topic broker := by
  rw [Accepted, ← @Tabled.routed_iff _ _ order tabled]
  cases new : (broker.engine.dedup.checkOrSet cfg.dedupID cfg.dedupWindow
      now).1 with
  | false =>
      constructor
      · intro sent
        have counted := sent.counted
        simp [Options.publish, Engine.publish, new] at counted
      · intro accepted
        cases accepted.1
  | true =>
      have offers : (cfg.publish order topic payload now
          broker.engine).offers = broker.engine.offered order topic := by
        simp [Options.publish, Engine.publish, new]
      constructor
      · intro sent
        refine ⟨rfl, ?_⟩
        rw [← offers]
        exact sent.routed
      · intro accepted
        refine ⟨?_, ?_⟩
        · rw [offers, tabled.offered_eq]
          simp [Options.publish, Engine.publish, new]
        · rw [offers]
          exact accepted.2

/-- After every run a message is routed as it should be unless it is a duplicate
or matches the pattern of a consumer group, and where no message does the
members of a group that stays as it is take turns. -/
theorem publish_exact_iff {defaultBufSize : Int} {calls : List Call}
    {broker : Broker}
    (execution : Execution (Guarded NoWrap Performs)
      (newBroker defaultBufSize) calls broker) :
    (∀ (order : Shuffle ConsumerGroup) (topic payload : Bytes) (now : Int64)
      (cfg : Options),
      Exact topic (cfg.publish order topic payload now broker.engine) broker ↔
        Accepted now cfg broker ∧ Clear topic broker) ∧
    (∀ (pattern name : Bytes) (later : List Call) (final : Broker),
      name ≠ [] → broker.current (memberOf pattern name) ≠ [] →
      Execution (Guarded (Settled pattern name) Performs) broker later final →
      ∃ recent, final.log = recent ++ broker.log ∧
        Shared pattern (broker.current (memberOf pattern name)) recent) := by
  have tabled : Tabled broker := execution.invariant
    (fun holds taken => Tabled.performs holds taken)
    (tabled_newBroker defaultBufSize)
  constructor
  · intro order topic payload now cfg
    exact tabled.exact_iff order topic payload now cfg
  · intro pattern name later final named filled run
    exact tabled.even named filled run

/-! A group of two on a topic, and a group on a pattern. -/

/-- Options for a member of the group `g`. -/
def groupOptions : Options :=
  { defaultOptions with consumerGroup := [0x67] }

def joinTopic : Call := .subscribe [0x61] groupOptions

def twoMembers : Broker :=
  ((newBroker 0).perform joinTopic).perform joinTopic

def tell : Call := .publish (.listed _) [0x61] [] 0 defaultOptions

theorem twoMembers_reached : Execution (Guarded NoWrap Performs) (newBroker 0)
    [joinTopic, joinTopic] twoMembers :=
  .cons ⟨by decide, trivial, rfl⟩ (.cons ⟨by decide, trivial, rfl⟩ (.nil _))

theorem clear_of_issued {topic : Bytes} {broker : Broker}
    (all : ∀ sub, sub ∈ broker.issued → sub.topic = topic) :
    Clear topic broker :=
  fun sub live _ _ => all sub live.1

theorem twoMembers_told :
    Execution (Guarded (Settled [0x61] [0x67]) Performs) twoMembers
      [tell, tell, tell] (((twoMembers.perform tell).perform tell).perform
        tell) := by
  refine .cons ⟨⟨by decide, ?_, rfl⟩, trivial, rfl⟩
    (.cons ⟨⟨by decide, ?_, rfl⟩, trivial, rfl⟩
      (.cons ⟨⟨by decide, ?_, rfl⟩, trivial, rfl⟩ (.nil _)))
  · apply clear_of_issued
    decide
  · apply clear_of_issued
    decide
  · apply clear_of_issued
    decide

theorem publish_exact_twoMembers :
    Exact [0x61] (defaultOptions.publish (.listed _) [0x61] [] 0
      twoMembers.engine) twoMembers ∧
    ∃ recent, (((twoMembers.perform tell).perform tell).perform tell).log =
        recent ++ twoMembers.log ∧
      Shared [0x61] (twoMembers.current (memberOf [0x61] [0x67])) recent := by
  have after := publish_exact_iff twoMembers_reached
  refine ⟨?_, ?_⟩
  · apply (after.1 (.listed _) [0x61] [] 0 defaultOptions).mpr
    refine ⟨rfl, ?_⟩
    apply clear_of_issued
    decide
  · exact after.2 [0x61] [0x67] _ _ (by decide) (by decide) twoMembers_told

def joinPattern : Call := .subscribe [0x61, 0x2E, 0x2A] groupOptions

def patternGroup : Broker := (newBroker 0).perform joinPattern

/-- The group `g` on `a.*` is not handed a message on `a.b`. -/
theorem patternGroup_passed_over :
    Execution (Guarded NoWrap Performs) (newBroker 0) [joinPattern]
      patternGroup ∧
    Accepted 0 defaultOptions patternGroup ∧
    (defaultOptions.publish (.listed _) [0x61, 0x2E, 0x62] [] 0
      patternGroup.engine).offers = [] ∧
    ¬ Exact [0x61, 0x2E, 0x62] (defaultOptions.publish (.listed _)
      [0x61, 0x2E, 0x62] [] 0 patternGroup.engine) patternGroup := by
  refine ⟨.cons ⟨by decide, trivial, rfl⟩ (.nil _), rfl, rfl, fun sent => ?_⟩
  obtain ⟨chosen, _, offer⟩ := sent.routed.groups [0x61, 0x2E, 0x2A] [0x67]
    (by decide) (by decide) (by decide)
  exact nomatch offer

end Broker

end CocoDB.PubSub
