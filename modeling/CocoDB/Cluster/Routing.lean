import CocoDB.Cluster.Ownership

/-!
# Consistent routing

While no two virtual nodes have the same hash, the ring depends on nothing but
its members, and a node that joins or leaves changes no other node's keys.
-/

namespace CocoDB.Cluster

open Lib

attribute [local instance] tokenOrder

namespace HashRing

variable {hash : Bytes → UInt32} {hr fewer more : HashRing}
variable {node key : Bytes} {token : UInt32} {nodes : List Bytes}

def RingCall.target : RingCall → Bytes
  | .addNode node => node
  | .removeNode node => node

/-- A call on a ring with another hash in place of `hashKey` -/
def performBy (hash : Bytes → UInt32) :
    RingCall → HashRing → Except Unit Unit × HashRing
  | .addNode node, hr => (.ok (), hr.addNodeBy hash node)
  | .removeNode node, hr =>
      match hr.removeNode node with
      | some next => (.ok (), next)
      | none => (.error (), hr)

def Distinct (hash : Bytes → UInt32) (vNodes : Nat) (nodes : List Bytes) :
    Prop :=
  ∀ left ∈ nodes, ∀ right ∈ nodes, ∀ first < vNodes, ∀ second < vNodes,
    hash (vKey left first) = hash (vKey right second) →
      left = right ∧ first = second

theorem mem_tokensBy {vNodes : Nat} :
    token ∈ tokensBy hash vNodes node ↔
      ∃ number < vNodes, hash (vKey node number) = token := by
  simp only [tokensBy, List.mem_map, List.mem_range]

theorem Distinct.same_node {vNodes : Nat} {other : Bytes}
    (distinct : Distinct hash vNodes nodes) (mem : node ∈ nodes)
    (otherMem : other ∈ nodes) (own : token ∈ tokensBy hash vNodes node)
    (also : token ∈ tokensBy hash vNodes other) : node = other := by
  obtain ⟨first, firstLt, rfl⟩ := mem_tokensBy.mp own
  obtain ⟨second, secondLt, same⟩ := mem_tokensBy.mp also
  exact (distinct node mem other otherMem first firstLt second secondLt
    same.symm).1

theorem Distinct.nodup {vNodes : Nat} (distinct : Distinct hash vNodes nodes)
    (mem : node ∈ nodes) : (tokensBy hash vNodes node).Nodup := by
  refine List.Nodup.map_on ?_ List.nodup_range
  intro first firstMem second secondMem same
  exact (distinct node mem node mem first (List.mem_range.mp firstMem) second
    (List.mem_range.mp secondMem) same).2

/-- The ring holds each virtual node of its members once, under its owner. -/
structure Regular (hash : Bytes → UInt32) (hr : HashRing) : Prop where
  sorted : hr.ring.Pairwise (· < ·)
  mem_iff : ∀ {token}, token ∈ hr.ring ↔
    ∃ member ∈ hr.members, token ∈ tokensBy hash hr.vNodes member
  owner : ∀ {token}, ∀ member ∈ hr.members,
    token ∈ tokensBy hash hr.vNodes member → hr.owner token = member

namespace Regular

theorem nodup (regular : Regular hash hr) : hr.ring.Nodup :=
  regular.sorted.imp ne_of_lt

theorem sortedLE (regular : Regular hash hr) : hr.Sorted :=
  regular.sorted.imp le_of_lt

theorem count_le (regular : Regular hash hr) :
    ¬ 1 < hr.ring.count token :=
  not_lt.mpr (List.nodup_iff_count_le_one.mp regular.nodup token)

theorem room (regular : Regular hash hr)
    (distinct : Distinct hash hr.vNodes nodes) (mem : node ∈ nodes)
    (member : node ∈ hr.members) : hr.vNodes ≤ hr.ring.length := by
  have subset : tokensBy hash hr.vNodes node ⊆ hr.ring :=
    fun _ own => regular.mem_iff.mpr ⟨node, member, own⟩
  have le := ((distinct.nodup mem).subperm subset).length_le
  rwa [tokensBy, List.length_map, List.length_range] at le

theorem addNodeBy (regular : Regular hash hr)
    (distinct : Distinct hash hr.vNodes nodes) (mem : node ∈ nodes)
    (known : ∀ member ∈ hr.members, member ∈ nodes) :
    Regular hash (hr.addNodeBy hash node) := by
  by_cases present : node ∈ hr.members
  · rwa [addNodeBy_member present]
  have apart : ∀ {token}, token ∈ tokensBy hash hr.vNodes node →
      ∀ member ∈ hr.members, token ∉ tokensBy hash hr.vNodes member := by
    intro token own member isMember also
    have same := distinct.same_node mem (known member isMember) own also
    exact present (same ▸ isMember)
  refine ⟨?_, ?_, ?_⟩
  · have nodup : (hr.addNodeBy hash node).ring.Nodup := by
      rw [(addNodeBy_ring_perm present).nodup_iff]
      refine regular.nodup.append (distinct.nodup mem) ?_
      intro token old own
      obtain ⟨member, isMember, also⟩ := regular.mem_iff.mp old
      exact apart own member isMember also
    exact (regular.sortedLE.addNodeBy.and nodup).imp
      fun both => lt_of_le_of_ne both.1 both.2
  · intro token
    rw [mem_ring_addNodeBy present, regular.mem_iff, addNodeBy_vNodes]
    simp only [mem_members_addNodeBy, or_and_right, exists_or,
      exists_eq_left]
    exact or_comm
  · intro token member isMember own
    rw [addNodeBy_vNodes] at own
    rw [owner_addNodeBy present]
    rcases mem_members_addNodeBy.mp isMember with rfl | before
    · simp only [own, if_true]
    · have foreign : token ∉ tokensBy hash hr.vNodes node :=
        fun also => apart also member before own
      simp only [foreign, if_false]
      exact regular.owner member before own

theorem mem_ring_without (regular : Regular hash hr) :
    token ∈ (hr.without node).ring ↔
      token ∈ hr.ring ∧ hr.owner token ≠ node := by
  simp only [HashRing.mem_ring_without, regular.count_le, and_false, or_false]

theorem without (regular : Regular hash hr) :
    Regular hash (hr.without node) := by
  have stays : ∀ {token}, ∀ member ∈ (hr.without node).members,
      token ∈ tokensBy hash hr.vNodes member →
      token ∈ hr.ring ∧ hr.owner token = member ∧ member ≠ node := by
    intro token member isMember own
    obtain ⟨before, other⟩ := mem_members_without.mp isMember
    exact ⟨regular.mem_iff.mpr ⟨member, before, own⟩,
      regular.owner member before own, other⟩
  refine ⟨List.Pairwise.sublist (sweep_sublist _ _ _) regular.sorted, ?_, ?_⟩
  · intro token
    rw [regular.mem_ring_without]
    constructor
    · rintro ⟨mem, foreign⟩
      obtain ⟨member, isMember, own⟩ := regular.mem_iff.mp mem
      rw [regular.owner member isMember own] at foreign
      exact ⟨member, mem_members_without.mpr ⟨isMember, foreign⟩, own⟩
    · rintro ⟨member, isMember, own⟩
      obtain ⟨mem, owned, other⟩ := stays member isMember own
      exact ⟨mem, owned.symm ▸ other⟩
  · intro token member isMember own
    obtain ⟨mem, owned, other⟩ := stays member isMember own
    simp only [owner_without mem, owned, other, if_false]

end Regular

theorem regular_new (vNodes : Nat) : Regular hash (newHashRing vNodes) where
  sorted := List.Pairwise.nil
  mem_iff := by
    intro token
    simp only [newHashRing, List.not_mem_nil, false_and, exists_false]
  owner _ mem := absurd mem List.not_mem_nil

/-! ## Two rings -/

theorem Regular.agree (left : Regular hash fewer) (right : Regular hash more)
    (vNodes : fewer.vNodes = more.vNodes)
    (members : ∀ member, member ∈ fewer.members ↔ member ∈ more.members) :
    fewer.getNodeBy hash key = more.getNodeBy hash key := by
  have ring : fewer.ring = more.ring := by
    refine left.sorted.eq_of_mem_iff right.sorted fun token => ?_
    rw [left.mem_iff, right.mem_iff, vNodes]
    exact exists_congr fun member => and_congr_left' (members member)
  by_cases empty : fewer.ring = []
  · rw [getNodeBy_nil empty, getNodeBy_nil (ring ▸ empty)]
  · obtain ⟨token, follows⟩ := exists_follows left.sortedLE empty (hash key)
    obtain ⟨member, isMember, own⟩ := left.mem_iff.mp follows.mem
    rw [getNodeBy_follows left.sortedLE follows,
      getNodeBy_follows right.sortedLE (ring ▸ follows),
      left.owner member isMember own,
      right.owner member ((members member).mp isMember) (vNodes ▸ own)]

theorem Regular.grow (small : Regular hash fewer) (large : Regular hash more)
    (vNodes : fewer.vNodes = more.vNodes)
    (members : ∀ member, member ∈ more.members ↔
      member = node ∨ member ∈ fewer.members) :
    more.getNodeBy hash key = fewer.getNodeBy hash key ∨
      more.getNodeBy hash key = some node := by
  have subset : fewer.ring ⊆ more.ring := by
    intro token mem
    obtain ⟨member, isMember, own⟩ := small.mem_iff.mp mem
    exact large.mem_iff.mpr
      ⟨member, (members member).mpr (Or.inr isMember), vNodes ▸ own⟩
  by_cases empty : more.ring = []
  · have none : fewer.ring = [] := List.subset_nil.mp (empty ▸ subset)
    rw [getNodeBy_nil empty, getNodeBy_nil none]
    exact Or.inl rfl
  · obtain ⟨token, follows⟩ := exists_follows large.sortedLE empty (hash key)
    obtain ⟨member, isMember, own⟩ := large.mem_iff.mp follows.mem
    rw [getNodeBy_follows large.sortedLE follows,
      large.owner member isMember own]
    rcases (members member).mp isMember with rfl | before
    · exact Or.inr rfl
    · -- the first token met is one of the smaller ring
      have own' : token ∈ tokensBy hash fewer.vNodes member := vNodes ▸ own
      have mem := small.mem_iff.mpr ⟨member, before, own'⟩
      rw [getNodeBy_follows small.sortedLE (follows.of_subset subset mem),
        small.owner member before own']
      exact Or.inl rfl

/-! ## Histories -/

structure Among (hash : Bytes → UInt32) (vNodes : Nat) (nodes : List Bytes)
    (hr : HashRing) : Prop where
  vNodes : hr.vNodes = vNodes
  known : ∀ member ∈ hr.members, member ∈ nodes
  regular : Regular hash hr

theorem Among.performBy {vNodes : Nat} {call : RingCall}
    (among : Among hash vNodes nodes hr)
    (distinct : Distinct hash vNodes nodes) (mem : call.target ∈ nodes) :
    (HashRing.performBy hash call hr).1 = .ok () ∧
      Among hash vNodes nodes (HashRing.performBy hash call hr).2 := by
  obtain ⟨rfl, known, regular⟩ := among
  cases call with
  | addNode node =>
      refine ⟨rfl, addNodeBy_vNodes, fun member isMember => ?_,
        regular.addNodeBy distinct mem known⟩
      rcases mem_members_addNodeBy.mp isMember with rfl | before
      · exact mem
      · exact known member before
  | removeNode node =>
      simp only [HashRing.performBy]
      by_cases present : node ∈ hr.members
      · simp only [removeNode_member present,
          regular.room distinct mem present, if_true, true_and]
        exact ⟨rfl, fun member isMember =>
          known member (mem_members_without.mp isMember).1, regular.without⟩
      · simp only [removeNode_absent present, true_and]
        exact ⟨rfl, known, regular⟩

def after (hash : Bytes → UInt32) (vNodes : Nat) (calls : List RingCall) :
    HashRing :=
  (run (performBy hash) calls (newHashRing vNodes)).2

theorem Among.run {vNodes : Nat} {calls : List RingCall}
    (among : Among hash vNodes nodes hr)
    (distinct : Distinct hash vNodes nodes)
    (involved : ∀ call ∈ calls, call.target ∈ nodes) :
    (Lib.run (HashRing.performBy hash) calls hr).1 = .ok () ∧
      Among hash vNodes nodes
        (Lib.run (HashRing.performBy hash) calls hr).2 := by
  induction calls generalizing hr with
  | nil => exact ⟨rfl, among⟩
  | cons call rest inductionHypothesis =>
      obtain ⟨done, next⟩ :=
        among.performBy distinct (involved call List.mem_cons_self)
      rw [run_cons done]
      exact inductionHypothesis next fun later mem =>
        involved later (List.mem_cons_of_mem call mem)

theorem among_run (vNodes : Nat) (calls : List RingCall)
    (distinct : Distinct hash (newHashRing vNodes).vNodes nodes)
    (involved : ∀ call ∈ calls, call.target ∈ nodes) :
    (run (performBy hash) calls (newHashRing vNodes)).1 = .ok () ∧
      Among hash (newHashRing vNodes).vNodes nodes
        (after hash vNodes calls) := by
  have start : Among hash (newHashRing vNodes).vNodes nodes
      (newHashRing vNodes) :=
    ⟨rfl, fun _ mem => absurd mem List.not_mem_nil, regular_new vNodes⟩
  exact start.run distinct involved

theorem after_append {vNodes : Nat} {calls : List RingCall} {call : RingCall}
    (done : (run (performBy hash) calls (newHashRing vNodes)).1 = .ok ())
    (next : (performBy hash call (after hash vNodes calls)).1 = .ok ()) :
    after hash vNodes (calls ++ [call]) =
      (performBy hash call (after hash vNodes calls)).2 := by
  simp only [after] at next ⊢
  rw [run_append done, run_cons next, run_nil]

/-- Histories with the same members route every key alike, a node that joins
takes keys only for itself, and a node that leaves gives away only its own. -/
theorem routing_consistent (vNodes : Nat)
    (distinct : Distinct hash (newHashRing vNodes).vNodes nodes) :
    (∀ calls : List RingCall, (∀ call ∈ calls, call.target ∈ nodes) →
      (run (performBy hash) calls (newHashRing vNodes)).1 = .ok ()) ∧
    (∀ left right : List RingCall, (∀ call ∈ left, call.target ∈ nodes) →
      (∀ call ∈ right, call.target ∈ nodes) →
      (∀ member, member ∈ (after hash vNodes left).members ↔
        member ∈ (after hash vNodes right).members) →
      ∀ key, (after hash vNodes left).getNodeBy hash key =
        (after hash vNodes right).getNodeBy hash key) ∧
    (∀ calls : List RingCall, (∀ call ∈ calls, call.target ∈ nodes) →
      ∀ node ∈ nodes, node ∉ (after hash vNodes calls).members →
      ∀ key,
        (after hash vNodes (calls ++ [.addNode node])).getNodeBy hash key =
          (after hash vNodes calls).getNodeBy hash key ∨
        (after hash vNodes (calls ++ [.addNode node])).getNodeBy hash key =
          some node) ∧
    (∀ calls : List RingCall, (∀ call ∈ calls, call.target ∈ nodes) →
      ∀ node ∈ nodes, ∀ key,
        (after hash vNodes calls).getNodeBy hash key ≠ some node →
        (after hash vNodes (calls ++ [.removeNode node])).getNodeBy hash key =
          (after hash vNodes calls).getNodeBy hash key) := by
  refine ⟨?_, ?_, ?_, ?_⟩
  · intro calls involved
    exact (among_run vNodes calls distinct involved).1
  · intro left right leftInvolved rightInvolved members key
    have first := (among_run vNodes left distinct leftInvolved).2
    have second := (among_run vNodes right distinct rightInvolved).2
    exact first.regular.agree second.regular
      (first.vNodes.trans second.vNodes.symm) members
  · intro calls involved node mem _ key
    obtain ⟨done, among⟩ := among_run vNodes calls distinct involved
    have joined := among.performBy distinct
      (show (RingCall.addNode node).target ∈ nodes from mem)
    rw [after_append done joined.1]
    exact among.regular.grow joined.2.regular
      (among.vNodes.trans joined.2.vNodes.symm)
      fun member => mem_members_addNodeBy
  · intro calls involved node mem key foreign
    obtain ⟨done, among⟩ := among_run vNodes calls distinct involved
    have left := among.performBy distinct
      (show (RingCall.removeNode node).target ∈ nodes from mem)
    rw [after_append done left.1]
    by_cases present : node ∈ (after hash vNodes calls).members
    · have smaller := left.2
      simp only [performBy, removeNode_member present,
        among.regular.room (among.vNodes ▸ distinct) mem present, if_true]
        at smaller ⊢
      refine ((smaller.regular.grow among.regular rfl ?_).resolve_right
        foreign).symm
      intro member
      rw [mem_members_without]
      by_cases same : member = node
      · simp only [same, present, true_or]
      · simp only [same, false_or, ne_eq, not_false_eq_true, and_true]
    · simp only [performBy, removeNode_absent present]

/-- Two nodes with one virtual node each -/
theorem routing_consistent_sample :
    (after hashKey 1 [.addNode [0x61], .addNode [0x62]]).members =
        [[0x62], [0x61]] ∧
      ∀ key,
        (after hashKey 1 [.addNode [0x61], .addNode [0x62]]).getNodeBy
            hashKey key =
          (after hashKey 1 [.addNode [0x62], .addNode [0x61]]).getNodeBy
            hashKey key := by
  have distinct : Distinct hashKey (newHashRing 1).vNodes
      [[0x61], [0x62]] := by
    unfold Distinct
    decide
  refine ⟨by decide, (routing_consistent 1 distinct).2.1 _ _ (by decide)
    (by decide) fun member => ?_⟩
  have first : (after hashKey 1 [.addNode [0x61], .addNode [0x62]]).members =
      [[0x62], [0x61]] := by decide
  have second : (after hashKey 1 [.addNode [0x62], .addNode [0x61]]).members =
      [[0x61], [0x62]] := by decide
  rw [first, second]
  simp only [List.mem_cons, List.not_mem_nil, or_false]
  exact or_comm

end HashRing

end CocoDB.Cluster
