import CocoDB.PubSub.Leaving

/-!
# What a group is offered while members leave

Every message goes to one member of each group, one whose flag is not set, in
exactly the runs in which no call chooses a member whose flag is set and no flag
is set between the choice of a member and the offer.
-/

namespace CocoDB.PubSub

open Lib

namespace Publication

variable {call : Publication} {closed wider : List Nat} {turn : Turn}

def Placed (turn : Turn) (groups : List Group) : Prop :=
  ∃ group ∈ groups, group.name = turn.group ∧
    turn.target ∈ group.subscribers

/-- A member is held whose flag was set at the choice only if it is set, the
group it is held for is neither waited for nor counted. -/
structure Holds (closed : List Nat) (call : Publication) (turn : Turn) :
    Prop where
  placed : Placed turn call.groups
  left : turn.group ∉ call.waiting
  fresh : turn.group ∉ call.counted
  stale : turn.fresh = false → turn.target.ref ∈ closed

/-- Every group with members is waited for, is the one the call is in, or has
been counted, and what was offered was offered once to a group, to a member
whose flag was not set. -/
structure Attends (closed : List Nat) (call : Publication) : Prop where
  names : (call.groups.map Group.name).Nodup
  waiting : call.waiting.Nodup
  holding : ∀ turn, call.holding = some turn → call.Holds closed turn
  counted : ∀ name ∈ call.counted, name ∉ call.waiting
  offers : ∀ turn ∈ call.offers,
    Placed turn call.groups ∧ turn.group ∈ call.counted ∧ turn.fresh = true
  once : (call.offers.map Turn.group).Nodup
  visited : ∀ group ∈ call.groups, group.subscribers ≠ [] →
    group.name ∈ call.waiting ∨
      (∃ turn, call.holding = some turn ∧ turn.group = group.name) ∨
      group.name ∈ call.counted

theorem Attends.widen (attends : call.Attends closed)
    (included : closed ⊆ wider) : call.Attends wider := by
  have holding : ∀ turn, call.holding = some turn →
      call.Holds wider turn := by
    intro turn held
    have holds := attends.holding turn held
    exact { holds with stale := fun stale => included (holds.stale stale) }
  exact { attends with holding := holding }

/-- Every counted group was offered the message, and the member that is held
has its flag unset. -/
structure Spared (closed : List Nat) (call : Publication) : Prop where
  heard : ∀ name ∈ call.counted, ∃ turn ∈ call.offers, turn.group = name
  unset : ∀ turn, call.holding = some turn → turn.target.ref ∉ closed

theorem Attends.same (attends : call.Attends closed) {one other : Group}
    (first : one ∈ call.groups) (second : other ∈ call.groups)
    (names : one.name = other.name) : one = other :=
  List.inj_on_of_nodup_map attends.names first second names

theorem attends_begin {groups : List Group} (order : Shuffle Bytes)
    (names : (groups.map Group.name).Nodup) :
    Attends closed ⟨groups, order.arrange (groups.map Group.name), none, [],
      []⟩ where
  names := names
  waiting := (order.perm _).nodup_iff.mpr names
  holding := nofun
  counted := nofun
  offers := nofun
  once := List.nodup_nil
  visited := by
    intro group member _
    apply Or.inl
    apply (order.perm _).mem_iff.mpr
    exact List.mem_map_of_mem member

theorem spared_begin {groups : List Group} {waiting : List Bytes} :
    Spared closed ⟨groups, waiting, none, [], []⟩ where
  heard := nofun
  unset := nofun

section Choosing

variable {room : Room} {group : Group} {others : List Bytes}

theorem Attends.pick (attends : call.Attends room.closed)
    (free : call.holding = none)
    (waiting : call.waiting = group.name :: others)
    (present : group.card ∈ call.groups.map Group.card) :
    (room.pick group others call).Attends room.closed := by
  obtain ⟨known, inside, card⟩ := List.mem_map.mp present
  have name : known.name = group.name := congrArg Prod.fst card
  have members : known.subscribers = group.subscribers :=
    congrArg Prod.snd card
  have distinct : group.name ∉ others ∧ others.Nodup := by
    have nodup := attends.waiting
    rw [waiting] at nodup
    exact List.nodup_cons.mp nodup
  have fewer : ∀ name ∈ call.counted, name ∉ others := by
    intro name counted later
    apply attends.counted name counted
    rw [waiting]
    exact List.mem_cons_of_mem _ later
  have uncounted : group.name ∉ call.counted := by
    intro counted
    apply attends.counted _ counted
    rw [waiting]
    exact List.mem_cons_self ..
  -- a group with members other than this one is where it was
  have before : ∀ other ∈ call.groups, other.subscribers ≠ [] →
      other.name = group.name ∨ other.name ∈ others ∨
        other.name ∈ call.counted := by
    intro other member filled
    rcases attends.visited other member filled with later | held | counted
    · rw [waiting, List.mem_cons] at later
      exact later.imp_right .inl
    · simp [free] at held
    · exact .inr (.inr counted)
  rw [Room.pick]
  cases turn : group.next with
  | none =>
      have empty : known.subscribers = [] := by
        rw [members]
        exact Group.next_eq_none.mp turn
      have visited : ∀ other ∈ call.groups, other.subscribers ≠ [] →
          other.name ∈ others ∨
            (∃ turn, call.holding = some turn ∧ turn.group = other.name) ∨
            other.name ∈ call.counted := by
        intro other member filled
        rcases before other member filled with same | later | counted
        · have equal : other = known :=
            attends.same member inside (same.trans name.symm)
          rw [equal] at filled
          exact absurd empty filled
        · exact .inl later
        · exact .inr (.inr counted)
      have holding : ∀ turn, call.holding = some turn →
          Holds room.closed { call with waiting := others } turn := by
        intro turn held
        simp [free] at held
      exact { attends with
        waiting := distinct.2
        holding := holding
        counted := fewer
        visited := visited }
  | some target =>
      have placed : Placed ⟨group.name, target,
          decide (target.ref ∉ room.closed)⟩ call.groups := by
        refine ⟨known, inside, name, ?_⟩
        rw [members]
        exact Group.next_mem turn
      exact { attends with
        waiting := distinct.2
        holding := by
          rintro held ⟨⟩
          exact
            { placed := placed
              left := distinct.1
              fresh := uncounted
              stale := fun stale => by simpa using stale }
        counted := fewer
        visited := by
          intro other member filled
          rcases before other member filled with same | later | counted
          · exact .inr (.inl ⟨_, rfl, same.symm⟩)
          · exact .inl later
          · exact .inr (.inr counted) }

theorem spared_pick (free : call.holding = none) :
    (room.pick group others call).Spared room.closed ↔
      call.Spared room.closed ∧
        ∀ target, group.next = some target → target.ref ∉ room.closed := by
  rw [Room.pick]
  cases turn : group.next with
  | none =>
      constructor
      · intro spared
        exact ⟨⟨spared.heard, spared.unset⟩, nofun⟩
      · rintro ⟨spared, -⟩
        exact ⟨spared.heard, spared.unset⟩
  | some target =>
      constructor
      · intro spared
        refine ⟨⟨spared.heard, by simp [free]⟩, ?_⟩
        rintro chosen ⟨⟩
        exact spared.unset _ rfl
      · rintro ⟨spared, unset⟩
        refine ⟨spared.heard, ?_⟩
        rintro held ⟨⟩
        exact unset target rfl

theorem groups_pick : (room.pick group others call).groups = call.groups := by
  rw [Room.pick]
  split <;> rfl

end Choosing

section Offering

variable {room : Room}

theorem Attends.handOver (attends : call.Attends room.closed)
    (held : call.holding = some turn) :
    (room.handOver turn call).Attends room.closed := by
  have holds := attends.holding turn held
  have counted : ∀ name ∈ turn.group :: call.counted,
      name ∉ call.waiting := by
    intro name member
    rw [List.mem_cons] at member
    cases member with
    | inl same =>
        rw [same]
        exact holds.left
    | inr earlier => exact attends.counted name earlier
  have visited : ∀ group ∈ call.groups, group.subscribers ≠ [] →
      group.name ∈ call.waiting ∨
        (∃ next, (none : Option Turn) = some next ∧
          next.group = group.name) ∨
        group.name ∈ turn.group :: call.counted := by
    intro group member filled
    rcases attends.visited group member filled with later | here | earlier
    · exact .inl later
    · obtain ⟨current, same, name⟩ := here
      rw [held] at same
      cases same
      rw [← name]
      exact .inr (.inr (List.mem_cons_self ..))
    · exact .inr (.inr (List.mem_cons_of_mem _ earlier))
  have offers : ∀ offer ∈ call.offers, Placed offer call.groups ∧
      offer.group ∈ turn.group :: call.counted ∧ offer.fresh = true := by
    intro offer member
    obtain ⟨placed, earlier, fresh⟩ := attends.offers offer member
    exact ⟨placed, List.mem_cons_of_mem _ earlier, fresh⟩
  rw [Room.handOver]
  split
  · exact { attends with
      holding := nofun
      counted := counted
      offers := offers
      visited := visited }
  · next unset =>
    have fresh : turn.fresh = true := by
      cases stale : turn.fresh with
      | true => rfl
      | false => exact absurd (holds.stale stale) unset
    have once : ((turn :: call.offers).map Turn.group).Nodup := by
      rw [List.map_cons, List.nodup_cons]
      refine ⟨?_, attends.once⟩
      intro member
      obtain ⟨offer, offered, same⟩ := List.mem_map.mp member
      have earlier := (attends.offers offer offered).2.1
      rw [same] at earlier
      exact holds.fresh earlier
    exact { attends with
      holding := nofun
      counted := counted
      offers := by
        intro offer member
        rw [List.mem_cons] at member
        cases member with
        | inl same =>
            rw [same]
            exact ⟨holds.placed, List.mem_cons_self .., fresh⟩
        | inr earlier => exact offers offer earlier
      once := once
      visited := visited }

theorem Attends.spared_handOver (attends : call.Attends room.closed)
    (held : call.holding = some turn) :
    (room.handOver turn call).Spared room.closed ↔
      call.Spared room.closed := by
  have holds := attends.holding turn held
  rw [Room.handOver]
  split
  · next set =>
    constructor
    · intro spared
      obtain ⟨offer, offered, same⟩ :=
        spared.heard turn.group (List.mem_cons_self ..)
      have earlier := (attends.offers offer offered).2.1
      rw [same] at earlier
      exact absurd earlier holds.fresh
    · intro spared
      exact absurd set (spared.unset turn held)
  · next unset =>
    constructor
    · intro spared
      constructor
      · intro name earlier
        obtain ⟨offer, offered, same⟩ :=
          spared.heard name (List.mem_cons_of_mem _ earlier)
        rw [List.mem_cons] at offered
        cases offered with
        | inl this =>
            rw [← same, this] at earlier
            exact absurd earlier holds.fresh
        | inr offered => exact ⟨offer, offered, same⟩
      · intro current here
        rw [held] at here
        cases here
        exact unset
    · intro spared
      constructor
      · intro name counted
        rw [List.mem_cons] at counted
        cases counted with
        | inl same => exact ⟨turn, List.mem_cons_self .., same.symm⟩
        | inr earlier =>
            obtain ⟨offer, offered, same⟩ := spared.heard name earlier
            exact ⟨offer, List.mem_cons_of_mem _ offered, same⟩
      · exact nofun

end Offering

end Publication

namespace Finished

variable {ended : Finished}

def offersTo (name : Bytes) (ended : Finished) : List Turn :=
  ended.call.offers.filter fun turn => turn.group = name

/-- The message was offered to exactly one member of the group, and to one
whose flag was not set when it was chosen. -/
def OfferedOnce (name : Bytes) (ended : Finished) : Prop :=
  ∃ turn, ended.offersTo name = [turn] ∧ turn.fresh = true ∧
    ∃ group ∈ ended.call.groups, group.name = name ∧
      turn.target ∈ group.subscribers

/-- Every group with a member whose flag is not set until the end is offered
the message, and `deliveredCount` includes no group that is not. -/
structure Kept (ended : Finished) : Prop where
  offered : ∀ group ∈ ended.call.groups,
    (∃ member ∈ group.subscribers, member.ref ∉ ended.closed) →
      ended.OfferedOnce group.name
  counted : ∀ name ∈ ended.call.counted, ended.OfferedOnce name

structure Settled (ended : Finished) : Prop where
  attends : ended.call.Attends ended.closed
  free : ended.call.holding = none
  visited : ended.call.waiting = []

theorem Settled.offeredOnce_iff (settled : ended.Settled) {name : Bytes} :
    ended.OfferedOnce name ↔
      ∃ turn ∈ ended.call.offers, turn.group = name := by
  constructor
  · rintro ⟨turn, only, -⟩
    have member : turn ∈ ended.offersTo name := by
      rw [only]
      exact List.mem_singleton_self turn
    rw [offersTo, List.mem_filter] at member
    exact ⟨turn, member.1, by simpa using member.2⟩
  · rintro ⟨turn, offered, rfl⟩
    obtain ⟨placed, -, fresh⟩ := settled.attends.offers turn offered
    refine ⟨turn, ?_, fresh, placed⟩
    have nodup : ended.call.offers.Nodup :=
      List.Nodup.of_map _ settled.attends.once
    have single : ended.offersTo turn.group =
        ended.call.offers.filter (· = turn) := by
      apply List.filter_congr
      intro other member
      have same := List.inj_on_of_nodup_map settled.attends.once member offered
      rw [decide_eq_decide]
      exact ⟨same, congrArg Turn.group⟩
    rw [single, List.filter_eq, nodup.count, if_pos offered]
    rfl

theorem Settled.kept_iff (settled : ended.Settled) :
    ended.Kept ↔ ended.call.Spared ended.closed := by
  constructor
  · intro kept
    constructor
    · intro name counted
      exact settled.offeredOnce_iff.mp (kept.counted name counted)
    · intro turn held
      simp [settled.free] at held
  · intro spared
    constructor
    · rintro group member ⟨live, inside, -⟩
      apply settled.offeredOnce_iff.mpr
      apply spared.heard
      have filled : group.subscribers ≠ [] := List.ne_nil_of_mem inside
      rcases settled.attends.visited group member filled with
        later | held | counted
      · simp [settled.visited] at later
      · simp [settled.free] at held
      · exact counted
    · intro name counted
      exact settled.offeredOnce_iff.mpr (spared.heard name counted)

end Finished

/-! ## Runs -/

theorem names_enterGroup {name : Bytes} {member : Member}
    {groups : List Group} (nodup : (groups.map Group.name).Nodup) :
    ((enterGroup name member groups).map Group.name).Nodup ∧
      ∀ other, other ∈ (enterGroup name member groups).map Group.name →
        other = name ∨ other ∈ groups.map Group.name := by
  induction groups with
  | nil => simp [enterGroup]
  | cons group others ih =>
      rw [List.map_cons, List.nodup_cons] at nodup
      rw [enterGroup]
      split
      · next same =>
        have kept : (group.add member).name = group.name := rfl
        rw [List.map_cons, List.nodup_cons, kept]
        refine ⟨nodup, fun other inside => .inr ?_⟩
        rw [List.map_cons]
        exact inside
      · next differs =>
        obtain ⟨unique, known⟩ := ih nodup.2
        rw [List.map_cons, List.nodup_cons]
        constructor
        · refine ⟨fun inside => ?_, unique⟩
          exact (known _ inside).elim differs nodup.1
        · intro other inside
          rw [List.mem_cons] at inside
          rw [List.map_cons, List.mem_cons]
          cases inside with
          | inl here => exact .inr (.inl here)
          | inr later => exact (known other later).imp_right .inr

theorem names_quitGroup (name : Bytes) (subID : UInt64) (groups : List Group) :
    (quitGroup name subID groups).map Group.name = groups.map Group.name := by
  rw [quitGroup, List.map_map]
  apply List.map_congr_left
  intro group _
  simp only [Function.comp_apply]
  split <;> rfl

section Places

variable {α : Type} {P : α → Prop} {items : List α} {place : Nat} {item : α}

theorem forall_place (found : items[place]? = some item) :
    (∀ other ∈ items, P other) ↔
      P item ∧ ∀ other ∈ items.eraseIdx place, P other := by
  obtain ⟨inside, rfl⟩ := List.getElem?_eq_some_iff.mp found
  have perm := List.getElem_cons_eraseIdx_perm inside
  rw [← List.forall_mem_cons]
  constructor
  · exact fun all other member => all other (perm.mem_iff.mp member)
  · exact fun all other member => all other (perm.mem_iff.mpr member)

theorem forall_set (found : items[place]? = some item) (changed : α) :
    (∀ other ∈ items.set place changed, P other) ↔
      P changed ∧ ∀ other ∈ items.eraseIdx place, P other := by
  obtain ⟨inside, -⟩ := List.getElem?_eq_some_iff.mp found
  have perm := List.set_perm_cons_eraseIdx inside changed
  rw [← List.forall_mem_cons]
  constructor
  · exact fun all other member => all other (perm.mem_iff.mpr member)
  · exact fun all other member => all other (perm.mem_iff.mp member)

end Places

namespace Room

open Publication

variable {action : Action} {before after room : Room}

def Running (room : Room) (call : Publication) : Prop :=
  call.Attends room.closed ∧
    call.groups.map Group.card = room.groups.map Group.card

structure Orderly (room : Room) : Prop where
  names : (room.groups.map Group.name).Nodup
  running : ∀ call ∈ room.publishing, room.Running call
  ended : ∀ ended ∈ room.finished, ended.Settled

theorem orderly_newRoom (topic : Bytes) (defaultBufSize : Int) :
    (newRoom topic defaultBufSize).Orderly where
  names := List.nodup_nil
  running := nofun
  ended := nofun

theorem cards_choose (place : Nat) (group : Group) (others : List Bytes)
    (call : Publication) (room : Room) :
    (room.choose place group others call).groups.map Group.card =
      room.groups.map Group.card := by
  rw [choose, List.map_map]
  apply List.map_congr_left
  intro other _
  simp only [Function.comp_apply]
  split
  · exact Group.card_advance other
  · rfl

theorem map_name_of_cards {one other : List Group}
    (cards : one.map Group.card = other.map Group.card) :
    one.map Group.name = other.map Group.name := by
  have first := congrArg (List.map Prod.fst) cards
  rw [List.map_map, List.map_map] at first
  exact first

theorem Orderly.moves (orderly : before.Orderly)
    (taken : Moves action before after) : after.Orderly := by
  cases taken with
  | subscribeGroup groupName bufSize strategy quiet =>
      refine ⟨(names_enterGroup orderly.names).1, ?_, orderly.ended⟩
      intro call member
      simp [join, quiet] at member
  | close member unset =>
      refine ⟨orderly.names, ?_, orderly.ended⟩
      intro call inside
      obtain ⟨attends, cards⟩ := orderly.running call inside
      exact ⟨attends.widen (List.subset_cons_self _ _), cards⟩
  | remove member quiet =>
      refine ⟨?_, ?_, orderly.ended⟩
      · rw [remove, names_quitGroup]
        exact orderly.names
      · intro call inside
        simp [remove, quiet] at inside
  | publish order =>
      refine ⟨orderly.names, ?_, orderly.ended⟩
      intro call inside
      rw [publish, List.mem_append, List.mem_singleton] at inside
      cases inside with
      | inl earlier => exact orderly.running call earlier
      | inr new =>
          rw [new]
          exact ⟨attends_begin order orderly.names, rfl⟩
  | @choose _ place call others group running free waiting found =>
      have cards := cards_choose place group others call before
      have all := (forall_place running).mp orderly.running
      refine ⟨?_, ?_, orderly.ended⟩
      · rw [map_name_of_cards cards]
        exact orderly.names
      · have each := @forall_set _
          (before.choose place group others call).Running _ _ _ running
          (before.pick group others call)
        apply each.mpr
        constructor
        · obtain ⟨attends, same⟩ := all.1
          have present : group.card ∈ call.groups.map Group.card := by
            rw [same]
            exact List.mem_map_of_mem (List.mem_of_find?_eq_some found)
          refine ⟨attends.pick free waiting present, ?_⟩
          rw [groups_pick, cards]
          exact same
        · intro other member
          obtain ⟨attends, same⟩ := all.2 other member
          exact ⟨attends, same.trans cards.symm⟩
  | @offer _ place call turn running held =>
      have all := (forall_place running).mp orderly.running
      refine ⟨orderly.names, ?_, orderly.ended⟩
      have each := @forall_set _ (before.offer place turn call).Running _ _ _
        running (before.handOver turn call)
      apply each.mpr
      exact ⟨⟨all.1.1.handOver held, all.1.2⟩, all.2⟩
  | @finish _ place call running free waiting =>
      have all := (forall_place running).mp orderly.running
      refine ⟨orderly.names, all.2, ?_⟩
      intro ended member
      rw [finish, List.mem_cons] at member
      cases member with
      | inl this =>
          rw [this]
          exact ⟨all.1.1, free, waiting⟩
      | inr earlier => exact orderly.ended ended earlier

def turnOf (place : Nat) (room : Room) : Option Member := do
  let call ← room.publishing[place]?
  let name ← call.waiting.head?
  let group ← room.find name
  group.next

/-- The member whose turn it is has its flag unset, and no flag is set of a
member that is about to be handed a message. -/
def Timely : Action → Room → Prop
  | .choose place, room =>
      ∀ target, room.turnOf place = some target → target.ref ∉ room.closed
  | .close member, room =>
      ∀ call ∈ room.publishing, ∀ turn, call.holding = some turn →
        turn.target.ref ≠ member.ref
  | _, _ => True

/-- No call has counted a group that it did not offer the message to, or is
about to. -/
structure Clean (room : Room) : Prop where
  running : ∀ call ∈ room.publishing, call.Spared room.closed
  ended : ∀ ended ∈ room.finished, ended.call.Spared ended.closed

theorem clean_newRoom (topic : Bytes) (defaultBufSize : Int) :
    (newRoom topic defaultBufSize).Clean where
  running := nofun
  ended := nofun

theorem spared_close {call : Publication} {closed : List Nat} {ref : Nat} :
    call.Spared (ref :: closed) ↔ call.Spared closed ∧
      ∀ turn, call.holding = some turn → turn.target.ref ≠ ref := by
  constructor
  · intro spared
    constructor
    · refine ⟨spared.heard, fun turn held set => ?_⟩
      exact spared.unset turn held (List.mem_cons_of_mem _ set)
    · intro turn held same
      apply spared.unset turn held
      rw [same]
      exact List.mem_cons_self ..
  · rintro ⟨spared, others⟩
    refine ⟨spared.heard, fun turn held set => ?_⟩
    rw [List.mem_cons] at set
    exact set.elim (others turn held) (spared.unset turn held)

theorem Orderly.clean_iff (orderly : before.Orderly)
    (taken : Moves action before after) :
    after.Clean ↔ before.Clean ∧ Timely action before := by
  cases taken with
  | subscribeGroup groupName bufSize strategy quiet =>
      constructor
      · exact fun clean => ⟨⟨clean.running, clean.ended⟩, trivial⟩
      · exact fun clean => ⟨clean.1.running, clean.1.ended⟩
  | close member unset =>
      constructor
      · intro clean
        refine ⟨⟨fun call inside => ?_, clean.ended⟩, fun call inside => ?_⟩
        · exact (spared_close.mp (clean.running call inside)).1
        · exact (spared_close.mp (clean.running call inside)).2
      · rintro ⟨clean, others⟩
        refine ⟨fun call inside => ?_, clean.ended⟩
        exact spared_close.mpr ⟨clean.running call inside,
          others call inside⟩
  | remove member quiet =>
      constructor
      · exact fun clean => ⟨⟨clean.running, clean.ended⟩, trivial⟩
      · exact fun clean => ⟨clean.1.running, clean.1.ended⟩
  | publish order =>
      constructor
      · intro clean
        refine ⟨⟨fun call inside => ?_, clean.ended⟩, trivial⟩
        exact clean.running call (List.mem_append_left _ inside)
      · rintro ⟨clean, -⟩
        refine ⟨fun call inside => ?_, clean.ended⟩
        rw [publish, List.mem_append, List.mem_singleton] at inside
        cases inside with
        | inl earlier => exact clean.running call earlier
        | inr new =>
            rw [new]
            exact spared_begin
  | @choose _ place call others group running free waiting found =>
      have turn : before.turnOf place = group.next := by
        simp [turnOf, running, waiting, found]
      have rest := @spared_pick call before group others free
      rw [Timely, turn]
      constructor
      · intro clean
        have all := (forall_set running _).mp clean.running
        obtain ⟨spared, unset⟩ := rest.mp all.1
        exact ⟨⟨(forall_place running).mpr ⟨spared, all.2⟩, clean.ended⟩,
          unset⟩
      · rintro ⟨clean, unset⟩
        have all := (forall_place running).mp clean.running
        refine ⟨(forall_set running _).mpr ⟨?_, all.2⟩, clean.ended⟩
        exact rest.mpr ⟨all.1, unset⟩
  | @offer _ place call turn running held =>
      have attends := ((forall_place running).mp orderly.running).1.1
      have rest := attends.spared_handOver held
      constructor
      · intro clean
        have all := (forall_set running _).mp clean.running
        exact ⟨⟨(forall_place running).mpr ⟨rest.mp all.1, all.2⟩,
          clean.ended⟩, trivial⟩
      · rintro ⟨clean, -⟩
        have all := (forall_place running).mp clean.running
        exact ⟨(forall_set running _).mpr ⟨rest.mpr all.1, all.2⟩,
          clean.ended⟩
  | @finish _ place call running free waiting =>
      constructor
      · intro clean
        have spared := clean.ended _ (List.mem_cons_self ..)
        refine ⟨⟨(forall_place running).mpr ⟨spared, clean.running⟩, ?_⟩,
          trivial⟩
        exact fun ended member =>
          clean.ended ended (List.mem_cons_of_mem _ member)
      · rintro ⟨clean, -⟩
        have all := (forall_place running).mp clean.running
        refine ⟨all.2, ?_⟩
        intro ended member
        rw [finish, List.mem_cons] at member
        cases member with
        | inl this =>
            rw [this]
            exact all.1
        | inr earlier => exact clean.ended ended earlier

theorem clean_run {start final : Room} {actions : List Action}
    (execution : Execution Performs start actions final)
    (orderly : start.Orderly) :
    final.Orderly ∧
      (final.Clean ↔ start.Clean ∧
        Execution (Guarded Timely Performs) start actions final) := by
  induction execution with
  | nil state => exact ⟨orderly, fun clean => ⟨clean, .nil state⟩, And.left⟩
  | @cons action others start next final first _ ih =>
      have moves := Performs.moves first
      have one := orderly.clean_iff moves
      obtain ⟨kept, later⟩ := ih (orderly.moves moves)
      refine ⟨kept, ?_⟩
      rw [later, one]
      constructor
      · rintro ⟨⟨clean, timely⟩, run⟩
        exact ⟨clean, .cons ⟨timely, first⟩ run⟩
      · rintro ⟨clean, run⟩
        cases run with
        | cons guarded rest =>
            have same := Option.some.inj (guarded.2.symm.trans first)
            rw [same] at rest
            exact ⟨⟨clean, guarded.1⟩, rest⟩

/-- In a run of timely steps every message is offered as it should be, and a
run at whose end no message is on its way and of which that holds has taken
timely steps only. -/
theorem kept_timely {topic : Bytes} {defaultBufSize : Int}
    {actions : List Action} {room : Room}
    (execution : Execution Performs (newRoom topic defaultBufSize) actions
      room) :
    (Execution (Guarded Timely Performs) (newRoom topic defaultBufSize) actions
        room → ∀ ended ∈ room.finished, ended.Kept) ∧
    (room.publishing = [] → (∀ ended ∈ room.finished, ended.Kept) →
      Execution (Guarded Timely Performs) (newRoom topic defaultBufSize)
        actions room) := by
  obtain ⟨orderly, cleanly⟩ :=
    clean_run execution (orderly_newRoom topic defaultBufSize)
  constructor
  · intro timely ended member
    have clean := cleanly.mpr ⟨clean_newRoom topic defaultBufSize, timely⟩
    apply (orderly.ended ended member).kept_iff.mpr
    exact clean.ended ended member
  · intro quiet kept
    have clean : room.Clean := by
      constructor
      · intro call inside
        rw [quiet] at inside
        cases inside
      · intro ended member
        exact (orderly.ended ended member).kept_iff.mp (kept ended member)
    exact (cleanly.mp clean).2

/-! A group of two, in which one member leaves. -/

def joinPair : List Action :=
  [.subscribeGroup [0x67] 0 .blockOnFull, .subscribeGroup [0x67] 0 .blockOnFull]

def pairMember (ref : Nat) : Member :=
  ⟨ref, ⟨UInt64.ofNat (ref + 1), [0x74], [0x67], 256, .blockOnFull⟩⟩

def tellAll : List Action :=
  [.publish (.listed _), .choose 0, .offer 0, .finish 0]

def played (actions : List Action) (room : Room) : Room :=
  actions.foldl (fun room action => (room.perform action).getD room) room

def orderlyLeave : List Action :=
  joinPair ++ [.close (pairMember 1), .remove (pairMember 1)] ++ tellAll

/-- The second member is about to leave when the message is published. -/
def openLeave : List Action :=
  joinPair ++ [.close (pairMember 1)] ++ tellAll

theorem orderlyLeave_timely :
    Execution (Guarded Timely Performs) (newRoom [0x74] 256) orderlyLeave
      (played orderlyLeave (newRoom [0x74] 256)) := by
  refine .cons ⟨trivial, rfl⟩ (.cons ⟨trivial, rfl⟩ (.cons ⟨nofun, rfl⟩
    (.cons ⟨trivial, rfl⟩ (.cons ⟨trivial, rfl⟩ (.cons ⟨?_, rfl⟩
      (.cons ⟨trivial, rfl⟩ (.cons ⟨trivial, rfl⟩ (.nil _))))))))
  rintro target ⟨⟩
  decide

theorem kept_orderlyLeave :
    (played orderlyLeave (newRoom [0x74] 256)).finished ≠ [] ∧
    ∀ ended ∈ (played orderlyLeave (newRoom [0x74] 256)).finished,
      ended.Kept := by
  have steps := orderlyLeave_timely
  exact ⟨by decide, (kept_timely (steps.mono And.right)).1 steps⟩

/-- The first member is in the group throughout, and the message is counted and
offered to nobody. -/
theorem openLeave_lost :
    Execution Performs (newRoom [0x74] 256) openLeave
      (played openLeave (newRoom [0x74] 256)) ∧
    ∃ ended ∈ (played openLeave (newRoom [0x74] 256)).finished,
      (∃ group ∈ ended.call.groups, ∃ member ∈ group.subscribers,
        member.ref ∉ ended.closed) ∧
      ended.call.offers = [] ∧ ended.call.counted = [[0x67]] ∧
      ¬ ended.Kept := by
  have steps : Execution Performs (newRoom [0x74] 256) openLeave
      (played openLeave (newRoom [0x74] 256)) :=
    .cons rfl (.cons rfl (.cons rfl (.cons rfl (.cons rfl (.cons rfl
      (.cons rfl (.nil _)))))))
  refine ⟨steps, ⟨⟨[⟨[0x67], [pairMember 0, pairMember 1], 0⟩], [], none, [],
    [[0x67]]⟩, [1]⟩, by decide, by decide, rfl, rfl, ?_⟩
  intro kept
  obtain ⟨turn, only, -⟩ := kept.counted [0x67] (List.mem_cons_self ..)
  cases only

end Room

end CocoDB.PubSub
