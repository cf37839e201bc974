import CocoDB.Cluster.Ring
import CocoDB.Lib.Circle
import CocoDB.Lib.Run

/-!
# The owners on the ring

What `AddNode` and `RemoveNode` do to the tokens and their owners, and when
every key is routed to a member.
-/

namespace CocoDB.Cluster

open Lib

/-- Tokens in the order of `sort.Slice`. -/
abbrev tokenOrder : LinearOrder UInt32 where
  le_refl := UInt32.le_refl
  le_trans _ _ _ := UInt32.le_trans
  lt_iff_le_not_ge _ _ := Std.LawfulOrderLT.lt_iff _ _
  le_antisymm _ _ := UInt32.le_antisymm
  le_total := UInt32.le_total
  toDecidableLE := inferInstance
  toDecidableEq := inferInstance
  toDecidableLT := inferInstance

attribute [local instance] tokenOrder

namespace HashRing

variable {hash : Bytes → UInt32} {hr next : HashRing} {node key : Bytes}
variable {token : UInt32}

/-! ## One call -/

def Sorted (hr : HashRing) : Prop :=
  hr.ring.Pairwise (· ≤ ·)

theorem getNodeBy_nil (empty : hr.ring = []) :
    hr.getNodeBy hash key = none := by
  simp only [getNodeBy, empty, if_true]

theorem getNodeBy_follows (sorted : hr.Sorted)
    (follows : Follows (hash key) hr.ring token) :
    hr.getNodeBy hash key = some (hr.owner token) := by
  have nonempty := List.ne_nil_of_mem follows.mem
  have found := @follows_searchAround _ _ (hash key) _ sorted nonempty 0
  rw [follows.unique found]
  simp only [getNodeBy, nonempty, if_false]
  rfl

theorem exists_follows (sorted : hr.Sorted) (nonempty : hr.ring ≠ [])
    (start : UInt32) : ∃ token, Follows start hr.ring token :=
  ⟨_, follows_searchAround sorted nonempty 0⟩

theorem addNodeBy_member (member : node ∈ hr.members) :
    hr.addNodeBy hash node = hr := by
  simp only [addNodeBy, member, if_true]

theorem addNodeBy_vNodes : (hr.addNodeBy hash node).vNodes = hr.vNodes := by
  unfold addNodeBy
  split <;> rfl

theorem mem_members_addNodeBy {other : Bytes} :
    other ∈ (hr.addNodeBy hash node).members ↔
      other = node ∨ other ∈ hr.members := by
  by_cases member : node ∈ hr.members
  · rw [addNodeBy_member member]
    exact ⟨Or.inr, fun either => either.elim (fun same => same ▸ member) id⟩
  · simp only [addNodeBy, member, if_false, List.mem_cons]

theorem addNodeBy_ring_perm (absent : node ∉ hr.members) :
    (hr.addNodeBy hash node).ring.Perm
      (hr.ring ++ tokensBy hash hr.vNodes node) := by
  simp only [addNodeBy, absent, if_false]
  exact List.perm_insertionSort _ _

theorem mem_ring_addNodeBy (absent : node ∉ hr.members) :
    token ∈ (hr.addNodeBy hash node).ring ↔
      token ∈ hr.ring ∨ token ∈ tokensBy hash hr.vNodes node := by
  rw [(addNodeBy_ring_perm absent).mem_iff, List.mem_append]

theorem Sorted.addNodeBy (sorted : hr.Sorted) :
    (hr.addNodeBy hash node).Sorted := by
  by_cases member : node ∈ hr.members
  · rwa [addNodeBy_member member]
  · simp only [Sorted, HashRing.addNodeBy, member, if_false]
    exact List.pairwise_insertionSort (· ≤ ·) _

theorem lookup_assign (tokens : List UInt32)
    (nodes : AList fun _ : UInt32 => Bytes) :
    (tokens.foldl (fun nodes token => nodes.insert token node) nodes).lookup
      token = if token ∈ tokens then some node else nodes.lookup token := by
  induction tokens generalizing nodes with
  | nil => simp only [List.foldl_nil, List.not_mem_nil, if_false]
  | cons head tail inductionHypothesis =>
      rw [List.foldl_cons, inductionHypothesis]
      by_cases inTail : token ∈ tail
      · simp only [inTail, if_true, List.mem_cons_of_mem]
      · by_cases same : token = head
        · subst same
          simp only [inTail, if_false, AList.lookup_insert,
            List.mem_cons_self, if_true]
        · simp only [inTail, if_false, AList.lookup_insert_ne same,
            List.mem_cons, same, or_self]

theorem lookup_addNodeBy (absent : node ∉ hr.members) :
    (hr.addNodeBy hash node).ringNodeMap.lookup token =
      if token ∈ tokensBy hash hr.vNodes node then some node
      else hr.ringNodeMap.lookup token := by
  simp only [addNodeBy, absent, if_false]
  exact lookup_assign _ _

theorem owner_addNodeBy (absent : node ∉ hr.members) :
    (hr.addNodeBy hash node).owner token =
      if token ∈ tokensBy hash hr.vNodes node then node
      else hr.owner token := by
  simp only [owner, lookup_addNodeBy absent]
  split <;> rfl

theorem sweep_sublist (node : Bytes) (items : List UInt32)
    (nodes : AList fun _ : UInt32 => Bytes) :
    (sweep node items nodes).1.Sublist items := by
  induction items generalizing nodes with
  | nil => exact List.Sublist.refl _
  | cons head tail inductionHypothesis =>
      simp only [sweep]
      split
      · exact (inductionHypothesis _).cons head
      · exact (inductionHypothesis _).cons_cons head

theorem lookup_sweep (node : Bytes) (items : List UInt32)
    (nodes : AList fun _ : UInt32 => Bytes) (token : UInt32) :
    (sweep node items nodes).2.lookup token =
      if token ∈ items ∧ (nodes.lookup token).getD [] = node then none
      else nodes.lookup token := by
  induction items generalizing nodes with
  | nil => simp only [sweep, List.not_mem_nil, false_and, if_false]
  | cons head tail inductionHypothesis =>
      simp only [sweep]
      split
      case isTrue owned =>
          rw [inductionHypothesis]
          by_cases same : token = head
          · subst same
            simp only [AList.lookup_erase, ite_self, List.mem_cons_self, owned,
              and_self, if_true]
          · simp only [AList.lookup_erase_ne same, List.mem_cons, same,
              false_or]
      case isFalse foreign =>
          rw [inductionHypothesis]
          by_cases same : token = head
          · subst same
            simp only [foreign, and_false, if_false]
          · simp only [List.mem_cons, same, false_or]

/-- Of the tokens that the node owns only the first occurrence goes, unless the
node has the empty name. -/
theorem count_sweep (node : Bytes) (items : List UInt32)
    (nodes : AList fun _ : UInt32 => Bytes) (token : UInt32) :
    (sweep node items nodes).1.count token =
      if (nodes.lookup token).getD [] = node then
        if node = [] then 0 else items.count token - 1
      else items.count token := by
  induction items generalizing nodes with
  | nil => simp only [sweep, List.count_nil, Nat.zero_sub, ite_self]
  | cons head tail inductionHypothesis =>
      simp only [sweep]
      split
      case isTrue owned =>
          rw [inductionHypothesis]
          by_cases same : token = head
          · subst same
            simp only [AList.lookup_erase, Option.getD_none, owned, if_true,
              List.count_cons_self, Nat.add_sub_cancel]
            by_cases empty : node = []
            · simp only [empty, if_true]
            · simp only [empty, if_false, Ne.symm empty]
          · simp only [AList.lookup_erase_ne same,
              List.count_cons_of_ne (Ne.symm same)]
      case isFalse foreign =>
          by_cases same : token = head
          · subst same
            simp only [List.count_cons_self, inductionHypothesis, foreign,
              if_false]
          · simp only [List.count_cons_of_ne (Ne.symm same),
              inductionHypothesis]

theorem mem_sweep (node : Bytes) (items : List UInt32)
    (nodes : AList fun _ : UInt32 => Bytes) (token : UInt32) :
    token ∈ (sweep node items nodes).1 ↔
      token ∈ items ∧ ((nodes.lookup token).getD [] ≠ node ∨
        node ≠ [] ∧ 1 < items.count token) := by
  rw [← List.count_pos_iff, count_sweep]
  by_cases owned : (nodes.lookup token).getD [] = node
  · by_cases empty : node = []
    · simp only [owned, empty, if_true, ne_eq, not_true, false_and, or_self,
        and_false, Nat.lt_irrefl]
    · simp only [owned, if_true, empty, if_false, ne_eq, not_true, not_false_eq_true,
        true_and, false_or, ← List.count_pos_iff]
      omega
  · simp only [owned, if_false, ne_eq, not_false_eq_true, true_or, and_true,
      List.count_pos_iff]

/-- The ring that `RemoveNode` leaves when it returns -/
def without (node : Bytes) (hr : HashRing) : HashRing :=
  { hr with
    ring := (sweep node hr.ring hr.ringNodeMap).1
    ringNodeMap := (sweep node hr.ring hr.ringNodeMap).2
    members := hr.members.filter fun member => member ≠ node }

theorem removeNode_absent (absent : node ∉ hr.members) :
    hr.removeNode node = some hr := by
  simp only [removeNode, absent, not_false_eq_true, if_true]

theorem removeNode_member (member : node ∈ hr.members) :
    hr.removeNode node =
      if hr.vNodes ≤ hr.ring.length then some (hr.without node) else none := by
  simp only [removeNode, member, not_true, if_false]
  by_cases room : hr.vNodes ≤ hr.ring.length
  · simp only [room, if_true, not_lt.mpr room, if_false]
    rfl
  · simp only [room, if_false, not_le.mp room, if_true]

theorem removeNode_cases (removed : hr.removeNode node = some next) :
    (node ∉ hr.members ∧ next = hr) ∨
      (node ∈ hr.members ∧ next = hr.without node) := by
  by_cases member : node ∈ hr.members
  · rw [removeNode_member member] at removed
    split at removed
    · exact Or.inr ⟨member, (Option.some.inj removed).symm⟩
    · cases removed
  · rw [removeNode_absent member] at removed
    exact Or.inl ⟨member, (Option.some.inj removed).symm⟩

theorem Sorted.without (sorted : hr.Sorted) : (hr.without node).Sorted :=
  List.Pairwise.sublist (sweep_sublist _ _ _) sorted

theorem mem_ring_without :
    token ∈ (hr.without node).ring ↔
      token ∈ hr.ring ∧
        (hr.owner token ≠ node ∨ node ≠ [] ∧ 1 < hr.ring.count token) :=
  mem_sweep node hr.ring hr.ringNodeMap token

theorem mem_members_without {other : Bytes} :
    other ∈ (hr.without node).members ↔ other ∈ hr.members ∧ other ≠ node := by
  simp only [without, List.mem_filter, decide_eq_true_eq]

theorem owner_without (mem : token ∈ hr.ring) :
    (hr.without node).owner token =
      if hr.owner token = node then [] else hr.owner token := by
  by_cases owned : hr.owner token = node
  · simp only [owned, if_true]
    simp only [owner] at owned
    simp only [owner, without, lookup_sweep, mem, owned, and_self, if_true,
      Option.getD_none]
  · simp only [owned, if_false]
    simp only [owner] at owned
    simp only [owner, without, lookup_sweep, owned, and_false, if_false]

/-! ## Runs -/

inductive RingCall where
  | addNode (node : Bytes)
  | removeNode (node : Bytes)
  deriving DecidableEq

def perform : RingCall → HashRing → Except Unit Unit × HashRing
  | .addNode node, hr => (.ok (), hr.addNode node)
  | .removeNode node, hr =>
      match hr.removeNode node with
      | some next => (.ok (), next)
      | none => (.error (), hr)

/-- Every key is routed to a member, and to nobody while there is none. -/
def Routed (hr : HashRing) : Prop :=
  ∀ key,
    (hr.members ≠ [] → ∃ node ∈ hr.members, hr.getNode key = some node) ∧
      (hr.members = [] → hr.getNode key = none)

structure Removable (node : Bytes) (hr : HashRing) : Prop where
  room : hr.vNodes ≤ hr.ring.length
  single : node = [] ∨ [] ∈ hr.members ∨
    ∀ token ∈ hr.ring, hr.owner token = node → hr.ring.count token = 1
  remains : (∀ member ∈ hr.members, member = node) ∨
    ∃ token ∈ hr.ring,
      hr.owner token ≠ node ∨ node ≠ [] ∧ 1 < hr.ring.count token

def Orderly : RingCall → HashRing → Prop
  | .addNode _, _ => True
  | .removeNode node, hr => node ∈ hr.members → Removable node hr

structure Formed (hr : HashRing) : Prop where
  vNodes : 0 < hr.vNodes
  sorted : hr.Sorted
  hashed : ∀ token ∈ hr.ring, ∃ key, hashKey key = token

structure Owned (hr : HashRing) : Prop where
  owner : ∀ token ∈ hr.ring, hr.owner token ∈ hr.members
  held : hr.members ≠ [] → hr.ring ≠ []

theorem tokensBy_ne_nil (positive : 0 < hr.vNodes) :
    tokensBy hash hr.vNodes node ≠ [] := by
  simp only [tokensBy, ne_eq, List.map_eq_nil_iff, List.range_eq_nil]
  exact positive.ne'

theorem Owned.nil (owned : Owned hr) (empty : hr.members = []) :
    hr.ring = [] := by
  rw [List.eq_nil_iff_forall_not_mem]
  intro token mem
  have member := owned.owner token mem
  rw [empty] at member
  exact absurd member List.not_mem_nil

theorem routed_iff_owned (formed : Formed hr) : Routed hr ↔ Owned hr := by
  constructor
  · intro routed
    have held : hr.members ≠ [] → hr.ring ≠ [] := by
      intro nonempty empty
      obtain ⟨node, _, routes⟩ := (routed []).1 nonempty
      rw [getNode_eq_by, getNodeBy_nil empty] at routes
      cases routes
    refine ⟨fun token mem => ?_, held⟩
    obtain ⟨key, rfl⟩ := formed.hashed token mem
    have follows : Follows (hashKey key) hr.ring (hashKey key) := by
      refine ⟨mem, fun other _ => ?_⟩
      rcases le_or_gt (hashKey key) other with after | before
      · exact Or.inr ⟨iff_of_true le_rfl after, after⟩
      · exact Or.inl ⟨le_rfl, before⟩
    have routes := getNodeBy_follows formed.sorted follows
    by_cases empty : hr.members = []
    · have nowhere := (routed key).2 empty
      rw [getNode_eq_by, routes] at nowhere
      cases nowhere
    · obtain ⟨node, member, found⟩ := (routed key).1 empty
      rw [getNode_eq_by, routes] at found
      exact Option.some.inj found ▸ member
  · intro owned key
    refine ⟨fun nonempty => ?_, fun empty => ?_⟩
    · obtain ⟨token, follows⟩ := exists_follows formed.sorted
        (owned.held nonempty) (hashKey key)
      exact ⟨hr.owner token, owned.owner token follows.mem,
        getNodeBy_follows formed.sorted follows⟩
    · exact getNodeBy_nil (owned.nil empty)

theorem Owned.addNode (formed : Formed hr) (owned : Owned hr) :
    Owned (hr.addNode node) := by
  rw [addNode_eq_by]
  by_cases member : node ∈ hr.members
  · rwa [addNodeBy_member member]
  · refine ⟨fun token mem => ?_, fun _ empty => ?_⟩
    · rw [owner_addNodeBy member, mem_members_addNodeBy]
      by_cases own : token ∈ tokensBy hashKey hr.vNodes node
      · simp only [own, if_true, true_or]
      · simp only [own, if_false]
        rw [mem_ring_addNodeBy member] at mem
        exact Or.inr (owned.owner token (mem.resolve_right own))
    · have perm : (hr.addNodeBy hashKey node).ring.Perm
          (hr.ring ++ tokensBy hashKey hr.vNodes node) :=
        addNodeBy_ring_perm member
      rw [empty, List.nil_perm, List.append_eq_nil_iff] at perm
      exact tokensBy_ne_nil formed.vNodes perm.2

theorem without_owned_iff (owned : Owned hr) :
    Owned (hr.without node) ↔
      (node = [] ∨ [] ∈ hr.members ∨
        ∀ token ∈ hr.ring, hr.owner token = node →
          hr.ring.count token = 1) ∧
      ((∀ member ∈ hr.members, member = node) ∨
        ∃ token ∈ hr.ring,
          hr.owner token ≠ node ∨ node ≠ [] ∧ 1 < hr.ring.count token) := by
  have owners : (∀ token ∈ (hr.without node).ring,
      (hr.without node).owner token ∈ (hr.without node).members) ↔
      (node = [] ∨ [] ∈ hr.members ∨
        ∀ token ∈ hr.ring, hr.owner token = node →
          hr.ring.count token = 1) := by
    constructor
    · intro kept
      by_cases empty : node = []
      · exact Or.inl empty
      by_cases anonymous : [] ∈ hr.members
      · exact Or.inr (Or.inl anonymous)
      refine Or.inr (Or.inr fun token mem same => ?_)
      by_contra several
      have positive := List.count_pos_iff.mpr mem
      -- a second occurrence stays in the ring and has no owner
      have stays : token ∈ (hr.without node).ring :=
        mem_ring_without.mpr ⟨mem, Or.inr ⟨empty, by omega⟩⟩
      have named := kept token stays
      rw [owner_without mem, if_pos same, mem_members_without] at named
      exact anonymous named.1
    · intro single token stays
      obtain ⟨mem, reason⟩ := mem_ring_without.mp stays
      rw [owner_without mem, mem_members_without]
      by_cases same : hr.owner token = node
      · obtain ⟨named, several⟩ := reason.resolve_left (not_not.mpr same)
        simp only [same, if_true]
        rcases single with empty | anonymous | once
        · exact absurd empty named
        · exact ⟨anonymous, Ne.symm named⟩
        · exact absurd (once token mem same) several.ne'
      · simp only [same, if_false]
        exact ⟨owned.owner token mem, same⟩
  have holds : ((hr.without node).members ≠ [] → (hr.without node).ring ≠ []) ↔
      ((∀ member ∈ hr.members, member = node) ∨
        ∃ token ∈ hr.ring,
          hr.owner token ≠ node ∨ node ≠ [] ∧ 1 < hr.ring.count token) := by
    have alone : (hr.without node).members = [] ↔
        ∀ member ∈ hr.members, member = node := by
      simp only [without, List.filter_eq_nil_iff, decide_eq_true_eq, ne_eq,
        not_not]
    have nonempty : (hr.without node).ring ≠ [] ↔
        ∃ token ∈ hr.ring,
          hr.owner token ≠ node ∨ node ≠ [] ∧ 1 < hr.ring.count token := by
      simp only [ne_eq, List.eq_nil_iff_forall_not_mem, not_forall, not_not,
        mem_ring_without]
    rw [ne_eq, alone, nonempty, imp_iff_not_or, not_not]
  rw [← owners, ← holds]
  exact ⟨fun kept => ⟨kept.owner, kept.held⟩, fun both => ⟨both.1, both.2⟩⟩

theorem orderly_iff {call : RingCall} (formed : Formed hr) (owned : Owned hr) :
    Orderly call hr ↔
      (perform call hr).1 = .ok () ∧ Owned (perform call hr).2 := by
  cases call with
  | addNode node =>
      exact iff_of_true trivial ⟨rfl, owned.addNode formed⟩
  | removeNode node =>
      by_cases member : node ∈ hr.members
      · simp only [Orderly, member, true_imp_iff, perform,
          removeNode_member member]
        by_cases room : hr.vNodes ≤ hr.ring.length
        · simp only [room, if_true, true_and, without_owned_iff owned]
          exact ⟨fun removable => ⟨removable.single, removable.remains⟩,
            fun both => ⟨room, both.1, both.2⟩⟩
        · simp only [room, if_false]
          exact iff_of_false (fun removable => room removable.room)
            (fun both => nomatch both.1)
      · simp only [Orderly, member, false_imp_iff, perform,
          removeNode_absent member, true_and, true_iff]
        exact owned

theorem Formed.perform {call : RingCall} (formed : Formed hr)
    (done : (HashRing.perform call hr).1 = .ok ()) :
    Formed (HashRing.perform call hr).2 := by
  cases call with
  | addNode node =>
      simp only [HashRing.perform, addNode_eq_by]
      refine ⟨?_, formed.sorted.addNodeBy, fun token mem => ?_⟩
      · rw [addNodeBy_vNodes]
        exact formed.vNodes
      · by_cases member : node ∈ hr.members
        · rw [addNodeBy_member member] at mem
          exact formed.hashed token mem
        · rcases (mem_ring_addNodeBy member).mp mem with before | new
          · exact formed.hashed token before
          · obtain ⟨number, _, same⟩ := List.mem_map.mp new
            exact ⟨_, same⟩
  | removeNode node =>
      simp only [HashRing.perform] at done ⊢
      cases removed : hr.removeNode node with
      | none =>
          rw [removed] at done
          cases done
      | some next =>
          rcases removeNode_cases removed with ⟨_, rfl⟩ | ⟨_, rfl⟩
          · exact formed
          · exact ⟨formed.vNodes, formed.sorted.without, fun token mem =>
              formed.hashed token (mem_ring_without.mp mem).1⟩

theorem formed_new (vNodes : Nat) : Formed (newHashRing vNodes) where
  vNodes := by
    simp only [newHashRing]
    split <;> omega
  sorted := List.Pairwise.nil
  hashed _ mem := absurd mem List.not_mem_nil

theorem owned_new (vNodes : Nat) : Owned (newHashRing vNodes) where
  owner _ mem := absurd mem List.not_mem_nil
  held nonempty := absurd rfl nonempty

/-- Every key is routed to a member after each call of a run, and no call
panics, just when every call of the run is orderly. -/
theorem routed_run_iff (vNodes : Nat) (calls : List RingCall) :
    Along perform Orderly calls (newHashRing vNodes) ↔
      ∀ front, front <+: calls →
        (run perform front (newHashRing vNodes)).1 = .ok () ∧
          Routed (run perform front (newHashRing vNodes)).2 := by
  have decided : ∀ {call state}, Formed state → Routed state →
      (Orderly call state ↔
        (perform call state).1 = .ok () ∧ Routed (perform call state).2) := by
    intro call state formed routed
    rw [orderly_iff formed ((routed_iff_owned formed).mp routed)]
    exact and_congr_right fun done =>
      (routed_iff_owned (formed.perform done)).symm
  exact along_iff decided Formed.perform (formed_new vNodes)
    ((routed_iff_owned (formed_new vNodes)).mpr (owned_new vNodes))

/-! ## Two nodes -/

def costarring : Bytes :=
  [0x63, 0x6F, 0x73, 0x74, 0x61, 0x72, 0x72, 0x69, 0x6E, 0x67]

def liquid : Bytes := [0x6C, 0x69, 0x71, 0x75, 0x69, 0x64]

def removal : List RingCall :=
  [.addNode costarring, .addNode liquid, .removeNode liquid]

/-- After the removal of the second node the first is a member, and a key is
routed to the empty name. -/
theorem removal_orphans_token :
    (run perform removal (newHashRing 1)).1 = .ok () ∧
      (run perform removal (newHashRing 1)).2.members = [costarring] ∧
      (run perform removal (newHashRing 1)).2.getNode [] = some [] ∧
      ¬ Routed (run perform removal (newHashRing 1)).2 := by
  have members : (run perform removal (newHashRing 1)).2.members =
      [costarring] := by decide
  have routes : (run perform removal (newHashRing 1)).2.getNode [] =
      some [] := by decide
  refine ⟨by decide, members, routes, fun routed => ?_⟩
  obtain ⟨node, member, found⟩ := (routed []).1
    (members ▸ List.cons_ne_nil _ _)
  rw [members, List.mem_singleton] at member
  rw [routes, member] at found
  exact absurd (Option.some.inj found) (by decide)

end HashRing

end CocoDB.Cluster
