import CocoDB.Queue.Engine
import Mathlib.Data.List.Sort

/-!
# The hash ring

`internal/cluster/ring.go`: keys are routed to the node whose token comes next
on a ring of 32-bit hashes.
-/

namespace CocoDB.Cluster

open Lib

/-- `hashKey`: 32-bit FNV-1a -/
def hashKey (key : Bytes) : UInt32 :=
  key.foldl (fun hash byte => (hash ^^^ byte.toUInt32) * 16777619) 2166136261

structure HashRing where
  vNodes : Nat
  ring : List UInt32
  ringNodeMap : AList fun _ : UInt32 => Bytes
  members : List Bytes

namespace HashRing

def newHashRing (vNodes : Nat) : HashRing where
  vNodes := if vNodes = 0 then 256 else vNodes
  ring := []
  ringNodeMap := ∅
  members := []

/-- `%s#vnode-%d` -/
def vKey (node : Bytes) (number : Nat) : Bytes :=
  node ++ [0x23, 0x76, 0x6E, 0x6F, 0x64, 0x65, 0x2D] ++ Queue.decimal number

def addNode (node : Bytes) (hr : HashRing) : HashRing :=
  if node ∈ hr.members then hr
  else
    let tokens := (List.range hr.vNodes).map fun number =>
      hashKey (vKey node number)
    { hr with
      ring := (hr.ring ++ tokens).insertionSort (· ≤ ·)
      ringNodeMap := tokens.foldl
        (fun nodes token => nodes.insert token node) hr.ringNodeMap
      members := node :: hr.members }

/-- `GetNode`: the node of the first token that is not below the hash, around the
ring -/
def getNode (key : Bytes) (hr : HashRing) : Option Bytes :=
  if hr.ring = [] then none
  else
    let idx := hr.ring.findIdx fun token => hashKey key ≤ token
    let token := hr.ring.getD (if idx = hr.ring.length then 0 else idx) 0
    some ((hr.ringNodeMap.lookup token).getD [])

/-- The node of a token; the map reads as the empty name where it has none. -/
def owner (token : UInt32) (hr : HashRing) : Bytes :=
  (hr.ringNodeMap.lookup token).getD []

/-- The loop of `RemoveNode`: a token that the map gives to the node leaves the
map and the ring, and the others stay in the ring. -/
def sweep (node : Bytes) : List UInt32 → (AList fun _ : UInt32 => Bytes) →
    List UInt32 × AList fun _ : UInt32 => Bytes
  | [], nodes => ([], nodes)
  | token :: rest, nodes =>
      if (nodes.lookup token).getD [] = node then
        sweep node rest (nodes.erase token)
      else
        let (newRing, left) := sweep node rest nodes
        (token :: newRing, left)

/-- `RemoveNode`; `none` is the panic of `make` when the ring holds fewer tokens
than one node has -/
def removeNode (node : Bytes) (hr : HashRing) : Option HashRing :=
  if node ∉ hr.members then some hr
  else if hr.ring.length < hr.vNodes then none
  else
    let (newRing, nodes) := sweep node hr.ring hr.ringNodeMap
    some { hr with
      ring := newRing
      ringNodeMap := nodes
      members := hr.members.filter fun member => member ≠ node }

section Hash

variable (hash : Bytes → UInt32)

def tokensBy (vNodes : Nat) (node : Bytes) : List UInt32 :=
  (List.range vNodes).map fun number => hash (vKey node number)

/-- `AddNode` with another hash in place of `hashKey` -/
def addNodeBy (node : Bytes) (hr : HashRing) : HashRing :=
  if node ∈ hr.members then hr
  else
    let tokens := tokensBy hash hr.vNodes node
    { hr with
      ring := (hr.ring ++ tokens).insertionSort (· ≤ ·)
      ringNodeMap := tokens.foldl
        (fun nodes token => nodes.insert token node) hr.ringNodeMap
      members := node :: hr.members }

/-- `GetNode` with another hash in place of `hashKey` -/
def getNodeBy (key : Bytes) (hr : HashRing) : Option Bytes :=
  if hr.ring = [] then none
  else
    let idx := hr.ring.findIdx fun token => hash key ≤ token
    let token := hr.ring.getD (if idx = hr.ring.length then 0 else idx) 0
    some ((hr.ringNodeMap.lookup token).getD [])

end Hash

theorem addNode_eq_by (node : Bytes) (hr : HashRing) :
    hr.addNode node = hr.addNodeBy hashKey node := rfl

theorem getNode_eq_by (key : Bytes) (hr : HashRing) :
    hr.getNode key = hr.getNodeBy hashKey key := rfl

end HashRing

end CocoDB.Cluster
