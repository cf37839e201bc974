import CocoDB.Vector.Graph

/-!
# Searching the graph

On a set of nodes that the lists of a level do not lead out of, the searches of
that level meet no fault and come to an end: `zoom` gets nearer in every round,
and `searchLayer` marks a node before it looks at it.
-/

namespace CocoDB.Vector.HNSW

open Lib

variable {Component Dist : Type} [LinearOrder Dist]
  {kernels : Kernels Component Dist} {query : List Component}
  {h : HNSW Component} {id : UInt64} {node : Node Component}

/-! ## The map of the nodes -/

theorem node_id (found : h.node id = some node) : node.id = id := by
  simpa using List.find?_some found

theorem node_mem (found : h.node id = some node) : node ∈ h.nodes :=
  List.mem_of_find?_eq_some found

theorem node_putNode (h : HNSW Component) (node : Node Component)
    (id : UInt64) :
    (h.putNode node).node id =
      if id = node.id then some node else h.node id := by
  unfold HNSW.node putNode
  rw [List.find?_cons]
  by_cases same : id = node.id
  · simp [same]
  · have different : ¬ node.id = id := fun equal => same equal.symm
    simp only [different, decide_false, same, if_false]
    rw [List.find?_filter]
    congr 1
    funext other
    by_cases here : other.id = id
    · simp [here, same]
    · simp [here]

/-! ## Nodes that a level does not lead out of -/

/-- The nodes of the set exist, and the lists of the level lead to such nodes
only. -/
structure Closed (h : HNSW Component) (level : Nat) (P : UInt64 → Prop) :
    Prop where
  known : ∀ {id}, P id → ∃ node, h.node id = some node
  onward : ∀ {id node}, P id → h.node id = some node →
    ∀ nID ∈ (node.neighbors[level]?).getD [], P nID

def Stands (kernels : Kernels Component Dist) (query : List Component)
    (h : HNSW Component) (P : UInt64 → Prop) (found : Match Dist) : Prop :=
  P found.id ∧ ∃ node, h.node found.id = some node ∧
    found.distance = h.distanceTo kernels query node

variable {level : Nat} {P : UInt64 → Prop} {curr : Match Dist}

/-! ## Getting nearer -/

def nearer (kernels : Kernels Component Dist) (query : List Component)
    (h : HNSW Component) (curr : Match Dist) : Nat :=
  h.nodes.countP fun node => h.distanceTo kernels query node < curr.distance

theorem nearer_lt {next : Match Dist}
    (stands : Stands kernels query h P next)
    (below : next.distance < curr.distance) :
    nearer kernels query h next < nearer kernels query h curr := by
  obtain ⟨_, node, found, same⟩ := stands
  apply countP_lt_countP (node_mem found)
  · simp only [decide_eq_true_eq]
    rw [← same]
    exact below
  · simp only [decide_eq_true_eq]
    rw [← same]
    exact lt_irrefl _
  · intro other _ inside
    simp only [decide_eq_true_eq] at inside ⊢
    exact inside.trans below

theorem tryNeighbor_spec {state : Match Dist × Bool} {nID : UInt64}
    (known : ∀ {id}, P id → ∃ node, h.node id = some node)
    (inside : P nID) (stands : Stands kernels query h P state.1)
    (changed : state.2 = true → state.1.distance < curr.distance)
    (within : state.1.distance ≤ curr.distance) :
    ∃ after, tryNeighbor kernels query h state nID = .ok after ∧
      Stands kernels query h P after.1 ∧
      (after.2 = true → after.1.distance < curr.distance) ∧
      after.1.distance ≤ curr.distance := by
  obtain ⟨node, found⟩ := known inside
  rw [tryNeighbor, found]
  simp only
  split
  · next below =>
      exact ⟨_, rfl, ⟨inside, node, found, rfl⟩,
        fun _ => below.trans_le within, (below.trans_le within).le⟩
  · exact ⟨_, rfl, stands, changed, within⟩

theorem zoom_spec {lists : Node Component → Except Fault (List UInt64)}
    (known : ∀ {id}, P id → ∃ node, h.node id = some node)
    (listed : ∀ {id node}, P id → h.node id = some node →
      ∃ ids, lists node = .ok ids ∧ ∀ nID ∈ ids, P nID) :
    ∀ {fuel : Nat} {curr : Match Dist}, Stands kernels query h P curr →
      nearer kernels query h curr < fuel →
      ∃ next, zoom kernels query h lists fuel curr = .ok next ∧
        Stands kernels query h P next
  | fuel + 1, curr, stands, enough => by
      obtain ⟨inside, node, found, same⟩ := stands
      obtain ⟨ids, read, leads⟩ := listed inside found
      obtain ⟨⟨next, changed⟩, walked, stands, nearer, _⟩ := foldlM_ok
        (fun state : Match Dist × Bool => Stands kernels query h P state.1 ∧
          (state.2 = true → state.1.distance < curr.distance) ∧
          state.1.distance ≤ curr.distance)
        (fun state nID member holds => tryNeighbor_spec known
          (leads nID member) holds.1 holds.2.1 holds.2.2)
        (show Stands kernels query h P (curr, false).1 ∧ _ from
          ⟨⟨inside, node, found, same⟩, fun no => (nomatch no), le_refl _⟩)
      rw [zoom, found]
      simp only [read, walked]
      cases changed with
      | false => exact ⟨next, rfl, stands⟩
      | true =>
          have fewer : HNSW.nearer kernels query h next <
              HNSW.nearer kernels query h curr := nearer_lt stands (nearer rfl)
          exact zoom_spec known listed stands (by omega)

theorem nearer_le (curr : Match Dist) :
    nearer kernels query h curr < h.nodes.length + 1 :=
  Nat.lt_succ_of_le List.countP_le_length

/-! ## Looking at each node once -/

/-- The candidates and the best ones are nodes of the set; the best ones are
marked and form a heap of at most `ef`. -/
structure Sees (kernels : Kernels Component Dist) (query : List Component)
    (h : HNSW Component) (gen : UInt32) (ef : Int) (P : UInt64 → Prop)
    (frontier : Frontier Dist) : Prop where
  marks : frontier.visited.length = h.visitedGen.length
  candidates : ∀ found ∈ frontier.cHeap, Stands kernels query h P found
  best : ∀ found ∈ frontier.wHeap, Stands kernels query h P found ∧
    frontier.visited[found.id.toNat]? = some gen
  distinct : (frontier.wHeap.map Match.id).Nodup
  nonempty : frontier.wHeap ≠ []
  bounded : (frontier.wHeap.length : Int) ≤ ef
  heaped : Heaped farther frontier.wHeap.length frontier.wHeap

def remaining (h : HNSW Component) (gen : UInt32)
    (frontier : Frontier Dist) : Nat :=
  (h.nodes.countP fun node =>
      decide (frontier.visited[node.id.toNat]? ≠ some gen)) +
    frontier.cHeap.length

variable {gen : UInt32} {ef : Int} {frontier : Frontier Dist}

theorem push_eq (found : Match Dist) (heap : List (Match Dist)) :
    push found heap = heapPush (.ofLess farther) found heap := by
  rw [push, maxHeap_eq]

theorem pop_eq (heap : List (Match Dist)) :
    pop heap = heapPop (.ofLess farther) heap := by
  rw [pop, maxHeap_eq]

theorem push_trim {heap : List (Match Dist)} (found : Match Dist)
    (heaped : Heaped farther heap.length heap)
    (bounded : (heap.length : Int) ≤ ef) (positive : 1 ≤ ef) :
    let trimmed := if ((push found heap).length : Int) > ef then
      (pop (push found heap)).2 else push found heap
    Heaped farther trimmed.length trimmed ∧ (trimmed.length : Int) ≤ ef ∧
      trimmed ≠ [] ∧ ∃ dropped, (dropped ++ trimmed).Perm (found :: heap) := by
  intro trimmed
  have pushed : (push found heap).Perm (found :: heap) := by
    rw [push_eq]
    exact heapPush_perm found heap
  have rising : Heaped farther (push found heap).length (push found heap) := by
    rw [push_eq]
    exact heapPush_heaped farther_weak heaped found
  have size := pushed.length_eq
  rw [List.length_cons] at size
  by_cases many : ((push found heap).length : Int) > ef
  · have shape : trimmed = (pop (push found heap)).2 := if_pos many
    rw [shape]
    generalize push found heap = whole at pushed rising size many
    cases whole with
    | nil => cases size
    | cons top others =>
        obtain ⟨_, popped⟩ := @heapPop_cons _ (.ofLess farther) top others
        have sinking := heapPop_heaped farther_weak rising
        rw [← pop_eq] at popped sinking
        have less := popped.length_eq
        rw [List.length_cons] at size many
        refine ⟨sinking, by omega, ?_, [top], ?_⟩
        · intro none
          rw [none] at less
          simp only [List.length_nil] at less
          omega
        · exact (popped.cons top).trans pushed
  · have shape : trimmed = push found heap := if_neg many
    rw [shape]
    refine ⟨rising, by omega, ?_, [], pushed⟩
    intro none
    rw [none] at size
    cases size

theorem toNat_ne {other : UInt64} (different : other ≠ id) :
    other.toNat ≠ id.toNat :=
  fun same => different (UInt64.toNat_inj.mp same)

theorem remaining_mark (found : h.node id = some node)
    {visited : List UInt32} (inside : id.toNat < visited.length)
    (fresh : visited[id.toNat]? ≠ some gen) :
    (h.nodes.countP fun node =>
        decide ((visited.set id.toNat gen)[node.id.toNat]? ≠ some gen)) <
      h.nodes.countP fun node =>
        decide (visited[node.id.toNat]? ≠ some gen) := by
  have here := node_id found
  apply countP_lt_countP (node_mem found)
  · rw [here]
    exact decide_eq_true fresh
  · rw [here, List.getElem?_set_self inside]
    simp
  · intro other _ unmarked
    simp only [decide_eq_true_eq] at unmarked ⊢
    by_cases same : other.id = id
    · rw [same]
      exact fresh
    · rwa [List.getElem?_set_ne (toNat_ne same).symm] at unmarked

theorem Sees.visitNeighbor (sees : Sees kernels query h gen ef P frontier)
    (positive : 1 ≤ ef) {nID : UInt64}
    (known : ∃ node, h.node nID = some node)
    (marked : nID.toNat < h.visitedGen.length) (inside : P nID) :
    ∃ after, visitNeighbor kernels query h gen ef frontier nID = .ok after ∧
      Sees kernels query h gen ef P after ∧
      remaining h gen after ≤ remaining h gen frontier := by
  have small : nID.toNat < frontier.visited.length := by
    rw [sees.marks]
    exact marked
  obtain ⟨node, found⟩ := known
  rw [HNSW.visitNeighbor, List.getElem?_eq_getElem small]
  simp only
  split
  · exact ⟨frontier, rfl, sees, le_refl _⟩
  · next unmarked =>
      have fresh : frontier.visited[nID.toNat]? ≠ some gen := by
        rw [List.getElem?_eq_getElem small]
        exact fun same => unmarked (Option.some.inj same)
      have fewer := remaining_mark found small fresh
      have apart : ∀ other ∈ frontier.wHeap, other.id ≠ nID := by
        intro other member same
        have mark := (sees.best other member).2
        rw [same] at mark
        exact fresh mark
      have marks : ∀ other ∈ frontier.wHeap,
          (frontier.visited.set nID.toNat gen)[other.id.toNat]? =
            some gen := by
        intro other member
        rw [List.getElem?_set_ne (toNat_ne (apart other member)).symm]
        exact (sees.best other member).2
      obtain ⟨farthest, rest, shape⟩ :=
        List.exists_cons_of_ne_nil sees.nonempty
      have stands : Stands kernels query h P
          ⟨nID, h.distanceTo kernels query node⟩ := ⟨inside, node, found, rfl⟩
      have size : (frontier.visited.set nID.toNat gen).length =
          h.visitedGen.length := by
        rw [List.length_set, sees.marks]
      have head : frontier.wHeap.head? = some farthest := by
        rw [shape]
        rfl
      simp only [found, head]
      split
      · obtain ⟨heaped, bounded, nonempty, dropped, perm⟩ := push_trim
          (⟨nID, h.distanceTo kernels query node⟩ : Match Dist) sees.heaped
          sees.bounded positive
        have among : ∀ other ∈ (if ((push (⟨nID, h.distanceTo kernels query
            node⟩ : Match Dist) frontier.wHeap).length : Int) > ef then
            (pop (push ⟨nID, h.distanceTo kernels query node⟩
              frontier.wHeap)).2
            else push ⟨nID, h.distanceTo kernels query node⟩ frontier.wHeap),
            other = ⟨nID, h.distanceTo kernels query node⟩ ∨
              other ∈ frontier.wHeap := fun other member =>
          List.mem_cons.mp
            (perm.mem_iff.mp (List.mem_append_right dropped member))
        have pushed := @heapPush_perm _ minHeap
          (⟨nID, h.distanceTo kernels query node⟩ : Match Dist)
          frontier.cHeap
        refine ⟨_, rfl, ⟨size, ?_, ?_, ?_, nonempty, bounded, heaped⟩, ?_⟩
        · intro other member
          rcases List.mem_cons.mp (pushed.mem_iff.mp member) with rfl | old
          · exact stands
          · exact sees.candidates other old
        · intro other member
          rcases among other member with rfl | old
          · exact ⟨stands, List.getElem?_set_self small⟩
          · exact ⟨(sees.best other old).1, marks other old⟩
        · have distinct : ((⟨nID, h.distanceTo kernels query node⟩ ::
              frontier.wHeap).map Match.id).Nodup := by
            rw [List.map_cons, List.nodup_cons]
            refine ⟨fun member => ?_, sees.distinct⟩
            obtain ⟨other, old, same⟩ := List.mem_map.mp member
            exact apart other old same
          have whole := (perm.map Match.id).nodup_iff.mpr distinct
          rw [List.map_append] at whole
          exact (List.nodup_append.mp whole).2.1
        · have longer := pushed.length_eq
          rw [List.length_cons] at longer
          simp only [remaining, longer]
          omega
      · refine ⟨_, rfl, ⟨size, sees.candidates, fun other member =>
          ⟨(sees.best other member).1, marks other member⟩, sees.distinct,
          sees.nonempty, sees.bounded, sees.heaped⟩, ?_⟩
        simp only [remaining]
        omega

theorem Sees.searchLoop (closed : Closed h level P)
    (marked : ∀ {id}, P id → id.toNat < h.visitedGen.length)
    (positive : 1 ≤ ef) :
    ∀ {fuel : Nat} {frontier : Frontier Dist},
      Sees kernels query h gen ef P frontier →
      remaining h gen frontier < fuel →
      ∃ after, searchLoop kernels query h gen ef level fuel frontier =
          .ok after ∧ Sees kernels query h gen ef P after
  | fuel + 1, frontier, sees, enough => by
      obtain ⟨farthest, rest, shape⟩ :=
        List.exists_cons_of_ne_nil sees.nonempty
      have head : frontier.wHeap.head? = some farthest := by
        rw [shape]
        rfl
      rw [HNSW.searchLoop]
      cases heap : frontier.cHeap with
      | nil => exact ⟨frontier, rfl, sees⟩
      | cons curr others =>
          obtain ⟨first, popped⟩ := @heapPop_cons _ minHeap curr others
          rcases pair : heapPop minHeap (curr :: others) with ⟨top, left⟩
          rw [pair] at first popped
          simp only at first popped
          rw [first]
          have fewer : Sees kernels query h gen ef P
              { frontier with cHeap := left } :=
            ⟨sees.marks, fun found member => sees.candidates found (by
              rw [heap]
              exact List.mem_cons_of_mem curr (popped.mem_iff.mp member)),
              sees.best, sees.distinct, sees.nonempty, sees.bounded,
              sees.heaped⟩
          have size : remaining h gen { frontier with cHeap := left } + 1 =
              remaining h gen frontier := by
            have length := popped.length_eq
            simp only [remaining, heap, length, List.length_cons]
            omega
          obtain ⟨inside, node, found, _⟩ := sees.candidates curr (by
            rw [heap]
            exact List.mem_cons_self)
          obtain ⟨after, walked, seen, bound⟩ := foldlM_ok
            (fun state => Sees kernels query h gen ef P state ∧
              remaining h gen state ≤
                remaining h gen { frontier with cHeap := left })
            (fun state nID member holds => by
              have onward := closed.onward inside found nID member
              obtain ⟨after, done, seen, bound⟩ := holds.1.visitNeighbor
                positive (closed.known onward) (marked onward) onward
              exact ⟨after, done, seen, bound.trans holds.2⟩)
            ⟨fewer, le_refl _⟩
          simp only [head, found]
          split
          · exact ⟨_, rfl, fewer⟩
          · simp only [walked]
            exact seen.searchLoop closed marked positive (by omega)

/-- What `searchLayer` finds: between one and `ef` nodes of the set, each once,
at their distances and the nearest first. -/
structure Finds (kernels : Kernels Component Dist) (query : List Component)
    (h : HNSW Component) (ef : Int) (P : UInt64 → Prop)
    (candidates : List (Match Dist)) : Prop where
  stands : ∀ found ∈ candidates, Stands kernels query h P found
  distinct : (candidates.map Match.id).Nodup
  nonempty : candidates ≠ []
  bounded : (candidates.length : Int) ≤ ef
  sorted : candidates.Pairwise fun left right =>
    left.distance ≤ right.distance

theorem searchLayer_spec (kernels : Kernels Component Dist)
    (query : List Component) (closed : Closed h level P)
    (marked : ∀ {id}, P id → id.toNat < h.visitedGen.length)
    (positive : 1 ≤ ef) {ep : UInt64} (start : P ep) :
    ∃ candidates visited, searchLayer kernels query ep ef level h =
        .ok (candidates,
          { h with generation := h.generation + 1, visitedGen := visited }) ∧
      visited.length = h.visitedGen.length ∧
      Finds kernels query h ef P candidates := by
  obtain ⟨node, found⟩ := closed.known start
  have small := marked start
  have stands : Stands kernels query h P
      ⟨ep, h.distanceTo kernels query node⟩ := ⟨start, node, found, rfl⟩
  have sees : Sees kernels query h (h.generation + 1) ef P
      { visited := h.visitedGen.set ep.toNat (h.generation + 1)
        cHeap := [⟨ep, h.distanceTo kernels query node⟩]
        wHeap := [⟨ep, h.distanceTo kernels query node⟩] } := by
    refine ⟨List.length_set, ?_, ?_, List.nodup_singleton _,
      List.cons_ne_nil _ _, positive, ?_⟩
    · intro other member
      rw [List.mem_singleton.mp member]
      exact stands
    · intro other member
      rw [List.mem_singleton.mp member]
      exact ⟨stands, List.getElem?_set_self small⟩
    · intro i low high
      rw [List.length_singleton] at high
      omega
  have few : remaining h (h.generation + 1)
      ({ visited := h.visitedGen.set ep.toNat (h.generation + 1)
         cHeap := [⟨ep, h.distanceTo kernels query node⟩]
         wHeap := [⟨ep, h.distanceTo kernels query node⟩] } :
        Frontier Dist) < h.nodes.length + 2 := by
    have below := @List.countP_le_length _ (fun node : Node Component =>
      decide ((h.visitedGen.set ep.toNat (h.generation + 1))[node.id.toNat]? ≠
        some (h.generation + 1))) h.nodes
    simp only [remaining, List.length_singleton]
    omega
  obtain ⟨after, searched, seen⟩ := sees.searchLoop closed marked positive few
  obtain ⟨perm, sorted⟩ := heapDrain_sorted farther_weak rfl seen.heaped
  rw [← drain_eq] at perm sorted
  refine ⟨drain after.wHeap.length after.wHeap, after.visited, ?_,
    seen.marks, ?_⟩
  · rw [searchLayer, if_neg (by omega), found]
    simp only [searched]
  · refine ⟨fun other member =>
      (seen.best other (perm.mem_iff.mp member)).1, ?_, ?_, ?_, ?_⟩
    · exact (perm.map Match.id).nodup_iff.mpr seen.distinct
    · intro none
      rw [none] at perm
      exact seen.nonempty perm.nil_eq.symm
    · rw [perm.length_eq]
      exact seen.bounded
    · apply sorted.imp
      intro left right order
      exact not_lt.mp (of_decide_eq_false order)

end CocoDB.Vector.HNSW
