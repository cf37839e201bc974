import CocoDB.Lib.Buffer
import CocoDB.Vector.GraphSearch

/-!
# Runs of the graph

A new node is entered level by level, from its neighbours on the levels above.
The graph stays well formed as long as nothing refers to the node that an
insertion replaces.
-/

namespace CocoDB.Vector.HNSW

open Lib

variable {Component Dist : Type}

/-! ## Well-formed graphs -/

/-- Every neighbour on a level is another node that has the level, and no list
is longer than its limit.  Every node has its lists and can be marked. -/
structure WellLinked (h : HNSW Component) : Prop where
  sized : ∀ {id node}, h.node id = some node → 0 ≤ node.level ∧
    node.neighbors.length = (node.level + 1).toNat
  linked : ∀ {id node level ids}, h.node id = some node →
    node.neighbors[level]? = some ids →
    (ids.length : Int) ≤ h.listLimit level ∧ ∀ nID ∈ ids, nID ≠ id ∧
      ∃ other, h.node nID = some other ∧ (level : Int) ≤ other.level
  marked : ∀ {id node}, h.node id = some node →
    id.toNat < h.visitedGen.length
  limits : ∀ level, 1 ≤ h.listLimit level
  efforts : 1 ≤ h.cfg.efConstruction ∧ 1 ≤ h.cfg.efSearch

/-- The entry point is a node, and has the highest level. -/
structure WellFormed (h : HNSW Component) : Prop extends WellLinked h where
  entry : h.nodes ≠ [] →
    ∃ node, h.node h.entryPoint = some node ∧ node.level = h.maxLevel
  empty : h.nodes = [] → h.maxLevel = -1

def Unreferenced (h : HNSW Component) (id : UInt64) : Prop :=
  h.entryPoint ≠ id ∧ ∀ other ∈ h.nodes, ∀ ids ∈ other.neighbors, id ∉ ids

def Unlisted (h : HNSW Component) (id : UInt64) (bound : Nat) : Prop :=
  ∀ {other node level} {ids : List UInt64}, h.node other = some node →
    level < bound → node.neighbors[level]? = some ids → id ∉ ids

def Above (h : HNSW Component) (avoid : UInt64 → Prop) (level : Nat)
    (id : UInt64) : Prop :=
  ¬ avoid id ∧ ∃ node, h.node id = some node ∧ (level : Int) ≤ node.level

def outline (h : HNSW Component) (id : UInt64) :
    Option (Int × List Component) :=
  (h.node id).map fun node => (node.level, node.vector)

section Linked

variable {h after : HNSW Component} {id other : UInt64}
  {node : Node Component} {level : Nat} {avoid : UInt64 → Prop}

theorem outline_level (same : after.outline other = h.outline other)
    (found : h.node other = some node) :
    ∃ kept, after.node other = some kept ∧ kept.level = node.level := by
  rw [outline, outline, found] at same
  obtain ⟨kept, foundKept, equal⟩ := Option.map_eq_some_iff.mp same
  exact ⟨kept, foundKept, congrArg Prod.fst equal⟩

theorem Above.mono {lower : Nat} (above : Above h avoid level id)
    (less : lower ≤ level) : Above h avoid lower id := by
  obtain ⟨free, node, found, high⟩ := above
  exact ⟨free, node, found, by omega⟩

theorem Above.outline (above : Above h avoid level id)
    (same : ∀ other, after.outline other = h.outline other) :
    Above after avoid level id := by
  obtain ⟨free, node, found, high⟩ := above
  obtain ⟨kept, foundKept, equal⟩ := outline_level (same id) found
  exact ⟨free, kept, foundKept, by omega⟩

theorem WellLinked.has_level (linked : WellLinked h)
    (found : h.node id = some node) (high : (level : Int) ≤ node.level) :
    level < node.neighbors.length := by
  obtain ⟨_, size⟩ := linked.sized found
  omega

theorem WellLinked.closed (linked : WellLinked h)
    (free : ∀ {other node ids}, h.node other = some node →
      node.neighbors[level]? = some ids → ∀ nID ∈ ids, ¬ avoid nID) :
    Closed h level (Above h avoid level) where
  known above := ⟨above.2.choose, above.2.choose_spec.1⟩
  onward := by
    intro id node _ found nID member
    cases list : node.neighbors[level]? with
    | none =>
        rw [list] at member
        cases member
    | some ids =>
        rw [list] at member
        exact ⟨free found list nID member,
          ((linked.linked found list).2 nID member).2⟩

theorem WellLinked.closed_of_unlisted (linked : WellLinked h)
    (unlisted : Unlisted h id (level + 1)) :
    Closed h level (Above h (· = id) level) :=
  linked.closed fun found list nID member same => by
    rw [same] at member
    exact unlisted found (Nat.lt_succ_self level) list member

theorem outline_putNode (found : h.node id = some node)
    (lists : List (List UInt64)) (other : UInt64) :
    (h.putNode { node with neighbors := lists }).outline other =
      h.outline other := by
  rw [outline, outline, node_putNode]
  split
  · next same =>
      rw [same]
      simp only [node_id found, found, Option.map_some]
  · rfl

theorem WellLinked.putNode (linked : WellLinked h)
    (found : h.node id = some node) {lists : List (List UInt64)}
    (size : lists.length = node.neighbors.length)
    (each : ∀ {level ids}, lists[level]? = some ids →
      (ids.length : Int) ≤ h.listLimit level ∧ ∀ nID ∈ ids, nID ≠ id ∧
        ∃ other, h.node nID = some other ∧ (level : Int) ≤ other.level) :
    WellLinked (h.putNode { node with neighbors := lists }) := by
  have same := outline_putNode found lists
  have here := node_id found
  have levels : ∀ {nID level}, (∃ other, h.node nID = some other ∧
      (level : Int) ≤ other.level) → ∃ other,
        (h.putNode { node with neighbors := lists }).node nID = some other ∧
          (level : Int) ≤ other.level := by
    rintro nID level ⟨other, foundOther, high⟩
    obtain ⟨kept, foundKept, equal⟩ := outline_level (same nID) foundOther
    exact ⟨kept, foundKept, by omega⟩
  refine ⟨?_, ?_, ?_, linked.limits, linked.efforts⟩
  · intro other kept foundKept
    rw [node_putNode] at foundKept
    split at foundKept
    · cases foundKept
      rw [size]
      exact linked.sized found
    · exact linked.sized foundKept
  · intro other kept level ids foundKept list
    rw [node_putNode] at foundKept
    split at foundKept
    · next equal =>
        cases foundKept
        obtain ⟨short, names⟩ := each list
        refine ⟨short, fun nID member => ⟨?_, levels (names nID member).2⟩⟩
        rw [equal, here]
        exact (names nID member).1
    · obtain ⟨short, names⟩ := linked.linked foundKept list
      exact ⟨short, fun nID member =>
        ⟨(names nID member).1, levels (names nID member).2⟩⟩
  · intro other kept foundKept
    rw [node_putNode] at foundKept
    split at foundKept
    · next equal =>
        rw [equal, here]
        exact linked.marked found
    · exact linked.marked foundKept

end Linked

section Levels

variable [LinearOrder Dist] {kernels : Kernels Component Dist}
  {query vec : List Component} {h after base : HNSW Component}
  {id : UInt64} {level bottom : Nat} {avoid : UInt64 → Prop}

theorem zoomDown_spec (kernels : Kernels Component Dist)
    (query : List Component)
    (lists : Nat → Node Component → Except Fault (List UInt64))
    (listed : ∀ {level id node}, bottom < level → Above h avoid level id →
      h.node id = some node →
      ∃ ids, lists level node = .ok ids ∧
        ∀ nID ∈ ids, Above h avoid level nID) :
    ∀ {count : Nat} {curr : Match Dist},
      Stands kernels query h (Above h avoid (bottom + count)) curr →
      ∃ next, zoomDown kernels query h lists bottom count curr = .ok next ∧
        Stands kernels query h (Above h avoid bottom) next
  | 0, curr, stands => ⟨curr, rfl, stands⟩
  | count + 1, curr, stands => by
      have level : ((bottom : Int) + count + 1).toNat =
          bottom + (count + 1) := by omega
      obtain ⟨next, zoomed, above, found⟩ := zoom_spec
        (fun above => ⟨above.2.choose, above.2.choose_spec.1⟩)
        (fun above found => listed (show bottom < bottom + (count + 1) by omega)
          above found) stands (nearer_le curr)
      obtain ⟨final, done, reached⟩ := zoomDown_spec kernels query lists listed
        (⟨above.mono (by omega), found⟩ :
          Stands kernels query h (Above h avoid (bottom + count)) next)
      refine ⟨final, ?_, reached⟩
      rw [zoomDown, level, zoomed]
      exact done

/-! ## Entering a node -/

structure Entering (base : HNSW Component) (id : UInt64) (level : Nat)
    (h : HNSW Component) : Prop where
  linked : WellLinked h
  unlisted : Unlisted h id level
  outline : ∀ other, h.outline other = base.outline other
  cfg : h.cfg = base.cfg
  entryPoint : h.entryPoint = base.entryPoint
  maxLevel : h.maxLevel = base.maxLevel

theorem Entering.lower (entering : Entering base id (level + 1) h) :
    Entering base id level h :=
  ⟨entering.linked, fun found low => entering.unlisted found (by omega),
    entering.outline, entering.cfg, entering.entryPoint, entering.maxLevel⟩

theorem Entering.putNode (entering : Entering base id level h)
    {other : UInt64} {node : Node Component}
    (found : h.node other = some node) {ids : List UInt64}
    (short : (ids.length : Int) ≤ h.listLimit level)
    (names : ∀ nID ∈ ids, nID ≠ other ∧
      ∃ near, h.node nID = some near ∧ (level : Int) ≤ near.level) :
    Entering base id level (h.putNode { node with
      neighbors := node.neighbors.set level ids }) := by
  have linked := entering.linked
  refine ⟨linked.putNode found List.length_set ?_, ?_, ?_, entering.cfg,
    entering.entryPoint, entering.maxLevel⟩
  · intro place list stored
    by_cases same : level = place
    · subst same
      have small := (List.getElem?_eq_some_iff.mp stored).1
      rw [List.length_set] at small
      rw [List.getElem?_set_self small] at stored
      cases stored
      exact ⟨short, names⟩
    · rw [List.getElem?_set_ne same] at stored
      exact linked.linked found stored
  · intro near kept place list foundKept low stored
    rw [node_putNode] at foundKept
    split at foundKept
    · cases foundKept
      rw [List.getElem?_set_ne (by omega)] at stored
      exact entering.unlisted found low stored
    · exact entering.unlisted foundKept low stored
  · intro near
    exact (outline_putNode found _ near).trans (entering.outline near)

theorem exchange_perm (i : Nat) (pairs : List (Match Dist)) (j : Nat) :
    (exchange i pairs j).Perm pairs := by
  rw [exchange]
  split
  · split
    · exact swap_perm _ _ _
    · exact .refl _
  · exact .refl _

theorem foldl_perm {α β : Type} {turn : List α → β → List α}
    (each : ∀ items item, (turn items item).Perm items) (turns : List β)
    (items : List α) : (turns.foldl turn items).Perm items := by
  induction turns generalizing items with
  | nil => exact .refl _
  | cons item rest inductionHypothesis =>
      exact (inductionHypothesis _).trans (each items item)

theorem sortPairs_perm (pairs : List (Match Dist)) :
    (sortPairs pairs).Perm pairs :=
  foldl_perm (fun sorted i => foldl_perm (exchange_perm i) _ sorted) _ _

theorem mem_pruneNeighbors {ids : List UInt64} {m : Int} {nID : UInt64}
    (member : nID ∈ h.pruneNeighbors kernels ids vec m) : nID ∈ ids := by
  rw [pruneNeighbors, List.mem_map] at member
  obtain ⟨pair, member, rfl⟩ := member
  have listed : pair ∈ sortPairs (ids.filterMap fun nID =>
      (h.node nID).map fun nNode =>
        (⟨nID, h.distanceTo kernels vec nNode⟩ : Match Dist)) := by
    split at member
    · exact List.mem_of_mem_take member
    · exact member
  rw [(sortPairs_perm _).mem_iff, List.mem_filterMap] at listed
  obtain ⟨nID, inside, shape⟩ := listed
  obtain ⟨node, _, rfl⟩ := Option.map_eq_some_iff.mp shape
  exact inside

theorem pruneNeighbors_length {ids : List UInt64} {m : Int}
    (positive : 1 ≤ m) :
    ((h.pruneNeighbors kernels ids vec m).length : Int) ≤ m := by
  rw [pruneNeighbors, List.length_map]
  split
  · rw [List.length_take]
    omega
  · omega

theorem Entering.linkNeighbor (entering : Entering base id level h)
    (kernels : Kernels Component Dist) {new : Node Component}
    (placed : h.node id = some new)
    (reaches : (level : Int) ≤ new.level) {nID : UInt64}
    (above : Above h (· = id) level nID) :
    ∃ after, linkNeighbor kernels id level (h.listLimit level) h nID =
        .ok after ∧ Entering base id level after := by
  obtain ⟨different, node, found, high⟩ := above
  have small := entering.linked.has_level found high
  have list := List.getElem?_eq_getElem small
  obtain ⟨short, names⟩ := entering.linked.linked found list
  rw [HNSW.linkNeighbor, found]
  simp only [list]
  refine ⟨_, rfl, entering.putNode found ?_ ?_⟩
  · split
    · exact pruneNeighbors_length (entering.linked.limits level)
    · omega
  · intro near member
    have listed : near ∈ node.neighbors[level] ++ [id] := by
      split at member
      · exact mem_pruneNeighbors member
      · exact member
    rcases List.mem_append.mp listed with old | last
    · exact names near old
    · rw [List.mem_singleton.mp last]
      exact ⟨fun same => different same.symm, new, placed, reaches⟩

omit [LinearOrder Dist] in
theorem mem_selectNeighbors {candidates : List (Match Dist)} {m : Int}
    {nID : UInt64} (member : nID ∈ selectNeighbors candidates m) :
    ∃ found, found ∈ candidates ∧ found.id = nID := by
  rw [selectNeighbors] at member
  obtain ⟨found, member, same⟩ := List.mem_map.mp member
  split at member
  · exact ⟨found, List.mem_of_mem_take member, same⟩
  · exact ⟨found, member, same⟩

omit [LinearOrder Dist] in
theorem selectNeighbors_length (candidates : List (Match Dist)) {m : Int}
    (positive : 1 ≤ m) :
    ((selectNeighbors candidates m).length : Int) ≤ m := by
  rw [selectNeighbors, List.length_map]
  split
  · rw [List.length_take]
    omega
  · omega

theorem Entering.connectLevel (entering : Entering base id (level + 1) h)
    (kernels : Kernels Component Dist) (vec : List Component)
    {new : Node Component} (placed : h.node id = some new)
    (reaches : (level : Int) ≤ new.level) {currObj : UInt64}
    (start : Above h (· = id) level currObj) :
    ∃ next after, connectLevel kernels id vec level currObj h =
        .ok (next, after) ∧ Entering base id level after ∧
      Above after (· = id) level next := by
  have linked := entering.linked
  have limit := linked.limits level
  have closed := linked.closed_of_unlisted entering.unlisted
  obtain ⟨candidates, visited, searched, size, finds⟩ := searchLayer_spec
    kernels vec closed
    (fun above => linked.marked above.2.choose_spec.1) linked.efforts.1 start
  have marked : Entering base id level { h with
      generation := h.generation + 1, visitedGen := visited } :=
    ⟨⟨linked.sized, linked.linked, fun found => by
        rw [size]
        exact linked.marked found, linked.limits, linked.efforts⟩,
      entering.lower.unlisted, entering.outline, entering.cfg,
      entering.entryPoint, entering.maxLevel⟩
  have among : ∀ nID ∈ selectNeighbors candidates (h.listLimit level),
      Above h (· = id) level nID := by
    intro nID member
    obtain ⟨found, listed, rfl⟩ := mem_selectNeighbors member
    exact (finds.stands found listed).1
  have here : HNSW.node { h with
      generation := h.generation + 1
      visitedGen := visited } id = some new := placed
  have entered : Entering base id level (HNSW.putNode
      { h with generation := h.generation + 1, visitedGen := visited }
      { new with
        neighbors := new.neighbors.set level
          (selectNeighbors candidates (h.listLimit level)) }) :=
    marked.putNode here (selectNeighbors_length candidates limit)
      fun nID member => ⟨(among nID member).1, (among nID member).2⟩
  have turns : ∀ state nID,
      nID ∈ selectNeighbors candidates (h.listLimit level) →
      (Entering base id level state ∧
        ∀ other, state.outline other = h.outline other) →
      ∃ after, HNSW.linkNeighbor kernels id level (h.listLimit level) state
          nID = .ok after ∧ Entering base id level after ∧
        ∀ other, after.outline other = h.outline other := by
    intro state nID member holds
    obtain ⟨entering, same⟩ := holds
    obtain ⟨kept, found, equal⟩ := outline_level (same id) placed
    have limits : state.listLimit level = h.listLimit level := by
      rw [listLimit, listLimit, entering.cfg, marked.cfg.symm]
    obtain ⟨after, done, entered⟩ := entering.linkNeighbor kernels found
      (by omega) ((among nID member).outline same)
    rw [limits] at done
    exact ⟨after, done, entered, fun other =>
      ((entered.outline other).trans (entering.outline other).symm).trans
        (same other)⟩
  obtain ⟨after, walked, entered, outlined⟩ := foldlM_ok
    (fun state => Entering base id level state ∧
      ∀ other, state.outline other = h.outline other) turns
    ⟨entered, fun other => outline_putNode here _ other⟩
  obtain ⟨nearest, rest, shape⟩ := List.exists_cons_of_ne_nil finds.nonempty
  refine ⟨nearest.id, after, ?_, entered, ?_⟩
  · have room := linked.has_level placed reaches
    rw [HNSW.connectLevel, searched]
    simp only [here, if_neg (not_le.mpr room)]
    rw [walked, shape]
    rfl
  · have above := (finds.stands nearest (by
      rw [shape]
      exact List.mem_cons_self)).1
    exact above.outline outlined

theorem Entering.connectDown (kernels : Kernels Component Dist)
    (vec : List Component) {new : Int × List Component}
    (placed : base.outline id = some new) :
    ∀ {count : Nat} {h : HNSW Component} {currObj : UInt64},
      Entering base id count h → (count : Int) ≤ new.1 + 1 →
      (0 < count → Above h (· = id) (count - 1) currObj) →
      ∃ after, connectDown kernels id vec count currObj h = .ok after ∧
        Entering base id 0 after
  | 0, h, _, entering, _, _ => ⟨h, rfl, entering⟩
  | level + 1, h, currObj, entering, reaches, start => by
      obtain ⟨node, found, same⟩ : ∃ node, h.node id = some node ∧
          node.level = new.1 := by
        have here := (entering.outline id).trans placed
        obtain ⟨node, found, rfl⟩ := Option.map_eq_some_iff.mp here
        exact ⟨node, found, rfl⟩
      obtain ⟨next, middle, connected, entered, above⟩ :=
        entering.connectLevel kernels vec found (by omega)
          (start (Nat.succ_pos level))
      obtain ⟨after, done, final⟩ := Entering.connectDown kernels vec placed
        entered
        (by omega) fun _ => above.mono (by omega)
      refine ⟨after, ?_, final⟩
      rw [HNSW.connectDown, connected]
      exact done

end Levels

section Insertion

variable {h after : HNSW Component} {id : UInt64} {nodeLevel : Int}
  {vec : List Component}

theorem growVisited_length (visitedGen : List UInt32)
    (small : id.toNat + 1 < 2 ^ 64) :
    id.toNat < (growVisited id visitedGen).length ∧
      visitedGen.length ≤ (growVisited id visitedGen).length := by
  have next : (id + 1).toNat = id.toNat + 1 := toNat_succ64 small
  rw [growVisited, next]
  split
  · simp only [List.length_append, List.length_take, List.length_replicate]
    split <;> omega
  · omega

theorem WellFormed.unreferenced (formed : WellFormed h)
    (missing : h.node id = none ∨ Unreferenced h id) :
    (h.nodes ≠ [] → h.entryPoint ≠ id) ∧ ∀ bound, Unlisted h id bound := by
  rcases missing with missing | ⟨entry, lists⟩
  · refine ⟨fun some same => ?_, fun _ _ _ _ _ found _ list member => ?_⟩
    · obtain ⟨node, found, _⟩ := formed.entry some
      rw [same, missing] at found
      cases found
    · obtain ⟨_, other, found, _⟩ := (formed.linked found list).2 id member
      rw [missing] at found
      cases found
  · exact ⟨fun _ => entry, fun _ _ _ _ _ found _ list =>
      lists _ (node_mem found) _ (List.mem_of_getElem? list)⟩

theorem WellFormed.entering (formed : WellFormed h) (vec : List Component)
    (small : id.toNat + 1 < 2 ^ 64) (drawn : 0 ≤ nodeLevel)
    (free : ∀ bound, Unlisted h id bound) (count : Nat) :
    Entering (h.addNode nodeLevel id vec) id count
      (h.addNode nodeLevel id vec) := by
  obtain ⟨here, longer⟩ := growVisited_length h.visitedGen small
  have nodes : ∀ other, (h.addNode nodeLevel id vec).node other =
      if other = id then some
        { id := id, vector := vec, level := nodeLevel
          neighbors := List.replicate (nodeLevel + 1).toNat [] }
      else h.node other := fun other => node_putNode h _ other
  have blank : ∀ {level : Nat} {ids : List UInt64},
      (List.replicate (nodeLevel + 1).toNat ([] : List UInt64))[level]? =
        some ids → ids = [] := by
    intro level ids stored
    exact List.eq_of_mem_replicate (List.mem_of_getElem? stored)
  refine ⟨⟨?_, ?_, ?_, formed.limits, formed.efforts⟩, ?_, fun _ => rfl, rfl,
    rfl, rfl⟩
  · intro other node found
    rw [nodes] at found
    split at found
    · cases found
      exact ⟨drawn, List.length_replicate⟩
    · exact formed.sized found
  · intro other node level ids found list
    rw [nodes] at found
    split at found
    · cases found
      rw [blank list]
      have limit := formed.limits level
      exact ⟨le_trans (by decide) limit, fun nID member => (nomatch member)⟩
    · obtain ⟨short, names⟩ := formed.linked found list
      refine ⟨short, fun nID member => ?_⟩
      have away : nID ≠ id := fun same =>
        free _ found (Nat.lt_succ_self level) list (same ▸ member)
      rw [nodes, if_neg away]
      exact names nID member
  · intro other node found
    rw [nodes] at found
    split at found
    · next same =>
        rw [same]
        exact here
    · exact (formed.marked found).trans_le longer
  · intro other node level ids found _ list
    rw [nodes] at found
    split at found
    · cases found
      rw [blank list]
      exact List.not_mem_nil
    · exact free _ found (Nat.lt_succ_self level) list

theorem Entering.wellFormed {base : HNSW Component}
    (entering : Entering base id 0 h)
    (entry : ∃ node, base.node base.entryPoint = some node ∧
      node.level = base.maxLevel) : WellFormed h := by
  obtain ⟨node, found, high⟩ := entry
  obtain ⟨kept, foundKept, same⟩ := outline_level (entering.outline _) found
  refine ⟨entering.linked, fun _ => ⟨kept, ?_, ?_⟩, fun none => ?_⟩
  · rw [entering.entryPoint]
    exact foundKept
  · rw [entering.maxLevel, same, high]
  · have member := node_mem foundKept
    rw [none] at member
    cases member

variable [LinearOrder Dist] {kernels : Kernels Component Dist}

/-- Phase 1 ends at a node that is not to be avoided and has the level, or that
of the entry point if that is lower. -/
theorem WellLinked.descend (linked : WellLinked h)
    (kernels : Kernels Component Dist) (query : List Component) {bottom : Int}
    (free : ∀ bound, Unlisted h id bound)
    {entry : UInt64} {node : Node Component}
    (found : h.node entry = some node) (away : entry ≠ id)
    (low : 0 ≤ bottom) :
    ∃ next, zoomDown kernels query h indexed bottom
        (node.level - bottom).toNat
        ⟨entry, h.distanceTo kernels query node⟩ = .ok next ∧
      Above h (· = id) (min node.level bottom).toNat next.id := by
  obtain ⟨floor, rfl⟩ := Int.eq_ofNat_of_zero_le low
  have tall := (linked.sized found).1
  by_cases high : (floor : Int) ≤ node.level
  · have start : Stands kernels query h (Above h (· = id)
        (floor + (node.level - floor).toNat))
        ⟨entry, h.distanceTo kernels query node⟩ :=
      ⟨⟨away, node, found, by omega⟩, node, found, rfl⟩
    obtain ⟨next, zoomed, stands⟩ := zoomDown_spec kernels query indexed
      (fun {level} _ _ _ above found => by
        have closed := linked.closed_of_unlisted (free (level + 1))
        have reaches := above.2
        simp only [found, Option.some.injEq, exists_eq_left'] at reaches
        have small := linked.has_level found reaches
        have list := List.getElem?_eq_getElem small
        refine ⟨_, by rw [indexed, list], fun nID member => ?_⟩
        apply closed.onward above found
        rw [list]
        exact member) start
    rw [min_eq_right high]
    exact ⟨next, zoomed, stands.1⟩
  · have none : (node.level - floor).toNat = 0 := by omega
    rw [none]
    exact ⟨_, rfl, away, node, found, by omega⟩

theorem WellFormed.insert (formed : WellFormed h)
    (kernels : Kernels Component Dist) (vec : List Component)
    (small : id.toNat + 1 < 2 ^ 64) (drawn : 0 ≤ nodeLevel)
    (missing : h.node id = none ∨ Unreferenced h id) :
    ∃ after, insert kernels nodeLevel id vec h = .ok after ∧
      WellFormed after ∧ after.cfg = h.cfg ∧
      ∀ other, after.outline other =
        if other = id then some (nodeLevel, vec) else h.outline other := by
  obtain ⟨entry, free⟩ := formed.unreferenced missing
  have nodes : ∀ other, (h.addNode nodeLevel id vec).outline other =
      if other = id then some (nodeLevel, vec) else h.outline other := by
    intro other
    rw [outline, outline, show (h.addNode nodeLevel id vec).node other = _ from
      node_putNode h _ other]
    split <;> rfl
  have placed : (h.addNode nodeLevel id vec).node id = some
      { id := id, vector := vec, level := nodeLevel
        neighbors := List.replicate (nodeLevel + 1).toNat [] } :=
    (node_putNode h _ id).trans (if_pos rfl)
  have started := fun count => formed.entering vec small drawn free count
  rw [HNSW.insert, if_neg (by omega)]
  by_cases first : h.maxLevel = -1
  · have entering := started 0
    refine ⟨_, if_pos first, ?_, rfl, nodes⟩
    exact @Entering.wellFormed _ _ id
      { h.addNode nodeLevel id vec with
        entryPoint := id, maxLevel := nodeLevel }
      ⟨⟨entering.linked.sized, entering.linked.linked,
        entering.linked.marked, entering.linked.limits,
        entering.linked.efforts⟩, fun found low => absurd low (by omega),
        fun _ => rfl, rfl, rfl, rfl⟩ ⟨_, placed, rfl⟩
  · have some : h.nodes ≠ [] := fun none => first (formed.empty none)
    obtain ⟨node, found, high⟩ := formed.entry some
    have entered : (h.addNode nodeLevel id vec).node h.entryPoint =
        Option.some node :=
      ((node_putNode h _ _).trans (if_neg (entry some))).trans found
    have base := (started 0).linked
    have tall := (formed.sized found).1
    obtain ⟨next, zoomed, above⟩ := base.descend kernels vec
      (fun bound => (started bound).unlisted) entered (entry some) drawn
    obtain ⟨linked, connected, final⟩ := (started (min node.level
      nodeLevel + 1).toNat).connectDown kernels vec
      ((nodes id).trans (if_pos rfl))
      (by
        show (((min node.level nodeLevel + 1).toNat : Nat) : Int) ≤
          nodeLevel + 1
        omega)
      fun _ => above.mono (by omega)
    have formed := final.wellFormed ⟨node, entered, high⟩
    have outlined := fun other => (final.outline other).trans (nodes other)
    have top : (if h.maxLevel < nodeLevel then h.maxLevel else nodeLevel) =
        min node.level nodeLevel := by
      rw [← high]
      split <;> omega
    rw [high] at zoomed
    simp only [if_neg first, entered, zoomed, top, connected]
    split
    · next higher =>
        have placed := (outlined id).trans (if_pos rfl)
        obtain ⟨new, foundNew, same⟩ := Option.map_eq_some_iff.mp placed
        refine ⟨_, rfl, ⟨⟨formed.sized, formed.linked, formed.marked,
          formed.limits, formed.efforts⟩, fun _ => ⟨new, foundNew,
          congrArg Prod.fst same⟩, fun none => ?_⟩, final.cfg, outlined⟩
        have member := node_mem foundNew
        rw [show linked.nodes = [] from none] at member
        cases member
    · exact ⟨linked, rfl, formed, final.cfg, outlined⟩

/-! ## Search -/

/-- At most `k` matches with different identifiers, each at the distance of the
vector stored under its identifier, the nearest first. -/
structure Answers (kernels : Kernels Component Dist) (metric : Metric)
    (query : List Component) (k : Int)
    (stored : UInt64 → Option (List Component))
    (matched : List (Match Dist)) : Prop where
  bounded : (matched.length : Int) ≤ k
  distinct : (matched.map Match.id).Nodup
  true_distance : ∀ found ∈ matched, ∃ vec, stored found.id = some vec ∧
    found.distance = distance kernels query vec metric
  sorted : matched.Pairwise fun left right => left.distance ≤ right.distance

theorem WellFormed.search (formed : WellFormed h)
    (kernels : Kernels Component Dist) {k : Int} (natural : 0 ≤ k)
    (query : List Component) :
    ∃ matched after, search kernels query k h = .ok (matched, after) ∧
      Answers kernels h.cfg.metric query k
        (fun id => (h.outline id).map Prod.snd) matched ∧
      WellFormed after ∧ after.cfg = h.cfg ∧
      ∀ other, after.outline other = h.outline other := by
  have linked := formed.toWellLinked
  rw [HNSW.search]
  by_cases none : h.nodes.length = 0
  · exact ⟨[], h, if_pos none, ⟨natural, List.nodup_nil,
      fun _ member => (nomatch member), List.Pairwise.nil⟩, formed, rfl,
      fun _ => rfl⟩
  · obtain ⟨node, found, high⟩ := formed.entry
      fun empty => none (List.length_eq_zero_iff.mpr empty)
    have tall := (formed.sized found).1
    have closed : ∀ level, Closed h level (Above h (fun _ => False) level) :=
      fun level => linked.closed fun _ _ _ _ no => no
    have start : Stands kernels query h
        (Above h (fun _ => False) (0 + h.maxLevel.toNat))
        ⟨h.entryPoint, h.distanceTo kernels query node⟩ :=
      ⟨⟨fun no => no, node, found, by omega⟩, node, found, rfl⟩
    obtain ⟨next, zoomed, above, _⟩ := zoomDown_spec kernels query guarded
      (fun {level} _ _ _ above found =>
        ⟨_, rfl, fun nID member => (closed level).onward above found nID
          member⟩) start
    rw [Nat.cast_zero] at zoomed
    have effort : 1 ≤ if h.cfg.efSearch < k then k else h.cfg.efSearch := by
      have positive := formed.efforts.2
      split <;> omega
    obtain ⟨candidates, visited, searched, size, finds⟩ := searchLayer_spec
      kernels query (closed 0)
      (fun above => linked.marked above.2.choose_spec.1) effort above
    have kept : WellFormed { h with
        generation := h.generation + 1, visitedGen := visited } :=
      ⟨⟨formed.sized, formed.linked, fun found => by
        rw [size]
        exact formed.marked found, formed.limits, formed.efforts⟩,
        formed.entry, formed.empty⟩
    have answers : ∀ {matched : List (Match Dist)},
        matched.Sublist candidates → (matched.length : Int) ≤ k →
        Answers kernels h.cfg.metric query k
          (fun id => (h.outline id).map Prod.snd) matched := by
      intro matched part short
      refine ⟨short, (part.map Match.id).nodup finds.distinct,
        fun found member => ?_, finds.sorted.sublist part⟩
      obtain ⟨_, near, foundNear, same⟩ := finds.stands found
        (part.subset member)
      refine ⟨near.vector, ?_, same⟩
      simp only [outline, foundNear, Option.map_some]
    simp only [if_neg none, found, zoomed, searched]
    split
    · have positive : ¬ k < 0 := not_lt.mpr natural
      rw [if_neg positive]
      refine ⟨_, _, rfl, answers (List.take_sublist _ _) ?_, kept, rfl,
        fun _ => rfl⟩
      rw [List.length_take]
      omega
    · refine ⟨_, _, rfl, answers (List.Sublist.refl _) (by omega), kept, rfl,
        fun _ => rfl⟩

end Insertion

/-! ## Runs -/

/-- The calls of a run, with the level that `randomLevel` draws. -/
inductive Action (Component : Type) where
  | insert (nodeLevel : Int) (id : UInt64) (vec : List Component)
  | search (query : List Component) (k : Int)

section Runs

variable [LinearOrder Dist] (kernels : Kernels Component Dist)

def perform (action : Action Component) (h : HNSW Component) :
    Except Fault Unit × HNSW Component :=
  match action with
  | .insert nodeLevel id vec =>
      match insert kernels nodeLevel id vec h with
      | .error fault => (.error fault, h)
      | .ok after => (.ok (), after)
  | .search query k =>
      match search kernels query k h with
      | .error fault => (.error fault, h)
      | .ok (_, after) => (.ok (), after)

def inserted (actions : List (Action Component)) :
    UInt64 → Option (List Component) :=
  actions.foldl (fun stored action =>
    match action with
    | .insert _ id vec => Function.update stored id (some vec)
    | .search _ _ => stored) fun _ => none

/-- An insertion replaces no node that a list or the entry point refers to, its
identifier is not the largest one, and its level is not negative; a search asks
for no negative number of matches. -/
def Sane : Action Component → HNSW Component → Prop
  | .insert nodeLevel id _, h =>
      0 ≤ nodeLevel ∧ id.toNat + 1 < 2 ^ 64 ∧
        (h.node id = none ∨ Unreferenced h id)
  | .search _ k, _ => 0 ≤ k

structure Kept (cfg : HNSWConfig) (past : List (Action Component))
    (h : HNSW Component) : Prop where
  formed : WellFormed h
  cfg_eq : h.cfg = (newHNSW Component cfg).cfg
  stored : ∀ id, (h.outline id).map Prod.snd = inserted past id

theorem newHNSW_kept (cfg : HNSWConfig) :
    Kept cfg [] (newHNSW Component cfg) := by
  have none : ∀ {id node}, (newHNSW Component cfg).node id = some node →
      False := fun found => nomatch found
  refine ⟨⟨⟨fun found => (none found).elim, fun found => (none found).elim,
    fun found => (none found).elim, fun level => ?_, ?_⟩,
    fun empty => absurd rfl empty, fun _ => rfl⟩, rfl, fun _ => rfl⟩
  · simp only [newHNSW, listLimit]
    split_ifs <;> omega
  · simp only [newHNSW]
    constructor <;> split_ifs <;> omega

variable {kernels}

theorem Kept.perform {cfg : HNSWConfig} {past : List (Action Component)}
    {action : Action Component} {h : HNSW Component} (kept : Kept cfg past h)
    (sane : Sane action h) :
    (perform kernels action h).1 = .ok () ∧
      Kept cfg (past ++ [action]) (perform kernels action h).2 := by
  cases action with
  | insert nodeLevel id vec =>
      obtain ⟨drawn, small, missing⟩ := sane
      obtain ⟨after, done, formed, same, outlined⟩ :=
        kept.formed.insert kernels vec small drawn missing
      rw [HNSW.perform]
      simp only [done]
      refine ⟨trivial, formed, same.trans kept.cfg_eq, fun other => ?_⟩
      rw [inserted, List.foldl_append, outlined]
      simp only [List.foldl_cons, List.foldl_nil, Function.update_apply]
      split
      · rfl
      · exact kept.stored other
  | search query k =>
      obtain ⟨matched, after, done, _, formed, same, outlined⟩ :=
        kept.formed.search kernels sane query
      rw [HNSW.perform]
      simp only [done]
      refine ⟨trivial, formed, same.trans kept.cfg_eq, fun other => ?_⟩
      rw [inserted, List.foldl_append, outlined]
      exact kept.stored other

end Runs

/-- `DefaultHNSWConfig` with the Euclidean distance -/
def euclidean : HNSWConfig where
  m := 16
  m0 := 32
  efConstruction := 100
  efSearch := 50
  metric := .l2

end CocoDB.Vector.HNSW
