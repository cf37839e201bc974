import CocoDB.Lib.Run
import CocoDB.Vector.Distance

/-!
# The graph of approximate nearest neighbours

`internal/vector/hnsw.go`.  Every node has a list of neighbours on each level up
to its own.  `Insert` goes down from the entry point, takes neighbours on each
level and enters the new node in their lists; `Search` goes down the same way.
What panics in the source is a fault here.  The level that `randomLevel` draws
is a parameter.
-/

namespace CocoDB.Vector

open Lib

/-- Why a call does not return: an index or a length out of range, the fields of
a missing node, or a loop that takes more rounds than it can. -/
inductive Fault where
  | indexOutOfRange
  | makeslice
  | nilNode
  | endless
  deriving DecidableEq, Repr

structure HNSWConfig where
  m : Int
  m0 : Int
  efConstruction : Int
  efSearch : Int
  metric : Metric
  deriving DecidableEq, Repr

structure Node (Component : Type) where
  id : UInt64
  vector : List Component
  level : Int
  neighbors : List (List UInt64)

/-- `HNSW`.  The nodes are those of the map, each identifier once. -/
structure HNSW (Component : Type) where
  cfg : HNSWConfig
  nodes : List (Node Component)
  entryPoint : UInt64
  maxLevel : Int
  visitedGen : List UInt32
  generation : UInt32

def newHNSW (Component : Type) (cfg : HNSWConfig) : HNSW Component :=
  let m := if cfg.m ≤ 0 then 16 else cfg.m
  { cfg :=
      { m := m
        m0 := if cfg.m0 ≤ 0 then m * 2 else cfg.m0
        efConstruction :=
          if cfg.efConstruction ≤ 0 then 100 else cfg.efConstruction
        efSearch := if cfg.efSearch ≤ 0 then 50 else cfg.efSearch
        metric := cfg.metric }
    nodes := []
    entryPoint := 0
    maxLevel := -1
    visitedGen := []
    generation := 0 }

namespace HNSW

variable {Component Dist : Type}

/-- `h.nodes[id]` -/
def node (h : HNSW Component) (id : UInt64) : Option (Node Component) :=
  h.nodes.find? fun node => node.id = id

/-- `h.nodes[id] = node`, and a change of the node the map points to -/
def putNode (h : HNSW Component) (node : Node Component) : HNSW Component :=
  { h with nodes := node :: h.nodes.filter fun other => other.id ≠ node.id }

def listLimit (h : HNSW Component) (level : Nat) : Int :=
  if level = 0 then h.cfg.m0 else h.cfg.m

/-! ## Searching one level -/

variable [LinearOrder Dist]

/-- The comparisons of `minCandidateHeap`. -/
def minHeap : HeapOrder (Match Dist) where
  before := fun right left => right.distance < left.distance
  stays := fun child parent => child.distance ≥ parent.distance

section Search

variable (kernels : Kernels Component Dist) (query : List Component)

def distanceTo (h : HNSW Component) (node : Node Component) : Dist :=
  distance kernels query node.vector h.cfg.metric

/-- The marks, the candidates and the best ones so far. -/
structure Frontier (Dist : Type) where
  visited : List UInt32
  cHeap : List (Match Dist)
  wHeap : List (Match Dist)

/-- A turn of the inner loop of `searchLayer`. -/
def visitNeighbor (h : HNSW Component) (gen : UInt32) (ef : Int)
    (frontier : Frontier Dist) (nID : UInt64) :
    Except Fault (Frontier Dist) :=
  match frontier.visited[nID.toNat]? with
  | none => .error .indexOutOfRange
  | some mark =>
      if mark = gen then .ok frontier
      else
        let visited := frontier.visited.set nID.toNat gen
        match h.node nID with
        | none => .error .nilNode
        | some nNode =>
            let found : Match Dist := ⟨nID, h.distanceTo kernels query nNode⟩
            match frontier.wHeap.head? with
            | none => .error .indexOutOfRange
            | some farthest =>
                if found.distance < farthest.distance ∨
                    (frontier.wHeap.length : Int) < ef then
                  let pushed := push found frontier.wHeap
                  .ok
                    { visited := visited
                      cHeap := heapPush minHeap found frontier.cHeap
                      wHeap :=
                        if (pushed.length : Int) > ef then (pop pushed).2
                        else pushed }
                else .ok { frontier with visited := visited }

/-- The outer loop of `searchLayer`. -/
def searchLoop (h : HNSW Component) (gen : UInt32) (ef : Int) (level : Nat) :
    Nat → Frontier Dist → Except Fault (Frontier Dist)
  | 0, _ => .error .endless
  | fuel + 1, frontier =>
      match heapPop minHeap frontier.cHeap with
      | (none, _) => .ok frontier
      | (some curr, rest) =>
          match frontier.wHeap.head? with
          | none => .error .indexOutOfRange
          | some farthest =>
              if curr.distance > farthest.distance ∧
                  (frontier.wHeap.length : Int) ≥ ef then
                .ok { frontier with cHeap := rest }
              else
                match h.node curr.id with
                | none => .error .nilNode
                | some node =>
                    -- a node without the level has no neighbours on it
                    match ((node.neighbors[level]?).getD []).foldlM
                        (visitNeighbor kernels query h gen ef)
                        { frontier with cHeap := rest } with
                    | .error fault => .error fault
                    | .ok after => searchLoop h gen ef level fuel after

def searchLayer (ep : UInt64) (ef : Int) (level : Nat)
    (h : HNSW Component) : Except Fault (List (Match Dist) × HNSW Component) :=
  let gen := h.generation + 1
  if h.visitedGen.length ≤ ep.toNat then .error .indexOutOfRange
  else
    match h.node ep with
    | none => .error .nilNode
    | some node =>
        let start : Match Dist := ⟨ep, h.distanceTo kernels query node⟩
        match searchLoop kernels query h gen ef level (h.nodes.length + 2)
            { visited := h.visitedGen.set ep.toNat gen
              cHeap := [start]
              wHeap := [start] } with
        | .error fault => .error fault
        | .ok frontier =>
            .ok (drain frontier.wHeap.length frontier.wHeap,
              { h with generation := gen, visitedGen := frontier.visited })

/-! ## Going down -/

def tryNeighbor (h : HNSW Component) (state : Match Dist × Bool)
    (neighborID : UInt64) : Except Fault (Match Dist × Bool) :=
  match h.node neighborID with
  | none => .error .nilNode
  | some nNode =>
      let d := h.distanceTo kernels query nNode
      if d < state.1.distance then .ok (⟨neighborID, d⟩, true) else .ok state

/-- `for changed`: go on to nearer neighbours on a level, while there are some.
The neighbours of a node are given by `lists`. -/
def zoom (h : HNSW Component)
    (lists : Node Component → Except Fault (List UInt64)) :
    Nat → Match Dist → Except Fault (Match Dist)
  | 0, _ => .error .endless
  | fuel + 1, curr =>
      match h.node curr.id with
      | none => .error .nilNode
      | some node =>
          match lists node with
          | .error fault => .error fault
          | .ok ids =>
              match ids.foldlM (tryNeighbor kernels query h) (curr, false) with
              | .error fault => .error fault
              | .ok (next, false) => .ok next
              | .ok (next, true) => zoom h lists fuel next

/-- The loop over the given number of levels above `bottom`, from the top one
down. -/
def zoomDown (h : HNSW Component)
    (lists : Nat → Node Component → Except Fault (List UInt64))
    (bottom : Int) : Nat → Match Dist → Except Fault (Match Dist)
  | 0, curr => .ok curr
  | count + 1, curr =>
      match zoom kernels query h (lists (bottom + count + 1).toNat)
          (h.nodes.length + 1) curr with
      | .error fault => .error fault
      | .ok next => zoomDown h lists bottom count next

/-- `h.nodes[currObj].Neighbors[l]` -/
def indexed (level : Nat) (node : Node Component) :
    Except Fault (List UInt64) :=
  match node.neighbors[level]? with
  | none => .error .indexOutOfRange
  | some ids => .ok ids

def guarded (level : Nat) (node : Node Component) :
    Except Fault (List UInt64) :=
  .ok ((node.neighbors[level]?).getD [])

def search (k : Int) (h : HNSW Component) :
    Except Fault (List (Match Dist) × HNSW Component) :=
  if h.nodes.length = 0 then .ok ([], h)
  else
    match h.node h.entryPoint with
    | none => .error .nilNode
    | some entry =>
        match zoomDown kernels query h guarded 0 h.maxLevel.toNat
            ⟨h.entryPoint, h.distanceTo kernels query entry⟩ with
        | .error fault => .error fault
        | .ok curr =>
            let ef := if h.cfg.efSearch < k then k else h.cfg.efSearch
            match searchLayer kernels query curr.id ef 0 h with
            | .error fault => .error fault
            | .ok (candidates, after) =>
                if (candidates.length : Int) > k then
                  if k < 0 then .error .indexOutOfRange
                  else .ok (candidates.take k.toNat, after)
                else .ok (candidates, after)

end Search

/-! ## Insertion -/

def selectNeighbors (candidates : List (Match Dist)) (m : Int) :
    List UInt64 :=
  (if (candidates.length : Int) > m then candidates.take m.toNat
    else candidates).map Match.id

/-- Exchange the members at `i` and `j` if the later one is nearer. -/
def exchange (i : Nat) (pairs : List (Match Dist)) (j : Nat) :
    List (Match Dist) :=
  match pairs[i]?, pairs[j]? with
  | some first, some second =>
      if second.distance < first.distance then swap pairs i j else pairs
  | _, _ => pairs

def sortPairs (pairs : List (Match Dist)) : List (Match Dist) :=
  (List.range (pairs.length - 1)).foldl (fun sorted i =>
    (List.range' (i + 1) (pairs.length - (i + 1))).foldl (exchange i) sorted)
    pairs

section Insert

variable (kernels : Kernels Component Dist)

def pruneNeighbors (neighborIDs : List UInt64) (baseVec : List Component)
    (m : Int) (h : HNSW Component) : List UInt64 :=
  let pairs := sortPairs (neighborIDs.filterMap fun nID =>
    (h.node nID).map fun nNode =>
      (⟨nID, h.distanceTo kernels baseVec nNode⟩ : Match Dist))
  (if (pairs.length : Int) > m then pairs.take m.toNat else pairs).map
    Match.id

/-- Enter the new node `id` in the list of a neighbour. -/
def linkNeighbor (id : UInt64) (level : Nat) (m : Int) (h : HNSW Component)
    (neighborID : UInt64) : Except Fault (HNSW Component) :=
  match h.node neighborID with
  | none => .error .nilNode
  | some nNode =>
      match nNode.neighbors[level]? with
      | none => .ok h
      | some ids =>
          let longer := ids ++ [id]
          let list :=
            if (longer.length : Int) > m then
              h.pruneNeighbors kernels longer nNode.vector m
            else longer
          .ok (h.putNode
            { nNode with neighbors := nNode.neighbors.set level list })

def connectLevel (id : UInt64) (vec : List Component) (level : Nat)
    (currObj : UInt64) (h : HNSW Component) :
    Except Fault (UInt64 × HNSW Component) :=
  match searchLayer kernels vec currObj h.cfg.efConstruction level h with
  | .error fault => .error fault
  | .ok (candidates, searched) =>
      let m := h.listLimit level
      let selected := selectNeighbors candidates m
      match searched.node id with
      | none => .error .nilNode
      | some node =>
          if node.neighbors.length ≤ level then .error .indexOutOfRange
          else
            match selected.foldlM (linkNeighbor kernels id level m)
                (searched.putNode
                  { node with
                    neighbors := node.neighbors.set level selected }) with
            | .error fault => .error fault
            | .ok linked =>
                .ok ((candidates.head?.map Match.id).getD currObj, linked)

/-- Phase 2 on the given number of levels, from the top one down to 0. -/
def connectDown (id : UInt64) (vec : List Component) :
    Nat → UInt64 → HNSW Component → Except Fault (HNSW Component)
  | 0, _, h => .ok h
  | level + 1, currObj, h =>
      match connectLevel kernels id vec level currObj h with
      | .error fault => .error fault
      | .ok (next, after) => connectDown id vec level next after

/-- `visitedGen` made long enough for an identifier.  The new length is computed
in 64 bits. -/
def growVisited (id : UInt64) (visitedGen : List UInt32) : List UInt32 :=
  if id.toNat ≥ visitedGen.length then
    let newLen :=
      if (id + 1).toNat < visitedGen.length * 2 then visitedGen.length * 2
      else (id + 1).toNat
    visitedGen.take newLen ++ List.replicate (newLen - visitedGen.length) 0
  else visitedGen

/-- A node without neighbours yet, in place of the one with its identifier. -/
def addNode (nodeLevel : Int) (id : UInt64) (vec : List Component)
    (h : HNSW Component) : HNSW Component :=
  let added := h.putNode
    { id := id
      vector := vec
      level := nodeLevel
      neighbors := List.replicate (nodeLevel + 1).toNat [] }
  { added with visitedGen := growVisited id h.visitedGen }

/-- `Insert`, when `randomLevel` draws `nodeLevel` -/
def insert (nodeLevel : Int) (id : UInt64) (vec : List Component)
    (h : HNSW Component) : Except Fault (HNSW Component) :=
  if nodeLevel + 1 < 0 then .error .makeslice
  else
    let added := h.addNode nodeLevel id vec
    if h.maxLevel = -1 then
      .ok { added with entryPoint := id, maxLevel := nodeLevel }
    else
      match added.node h.entryPoint with
      | none => .error .nilNode
      | some entry =>
          match zoomDown kernels vec added indexed nodeLevel
              (h.maxLevel - nodeLevel).toNat
              ⟨h.entryPoint, added.distanceTo kernels vec entry⟩ with
          | .error fault => .error fault
          | .ok curr =>
              let topLayer :=
                if h.maxLevel < nodeLevel then h.maxLevel else nodeLevel
              match connectDown kernels id vec (topLayer + 1).toNat curr.id
                  added with
              | .error fault => .error fault
              | .ok linked =>
                  if nodeLevel > h.maxLevel then
                    .ok { linked with maxLevel := nodeLevel, entryPoint := id }
                  else .ok linked

end Insert

end HNSW

end CocoDB.Vector
