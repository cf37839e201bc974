import CocoDB.Storage.Meta
import CocoDB.BTree.Invariant

/-!
# The storage kernel

Collections keep documents as records and find them through B+trees, all on the
pager of one transaction.  `Kernel` lists the calls they make.
-/

namespace CocoDB

open Lib

def invalidRecordID : RecordID := 0xFFFFFFFFFFFFFFFF

/-- The calls of a collection. -/
class Kernel (σ : Type) where
  /-- A handle of a B+tree. -/
  Tree : Type
  /-- `NewBTree` on `InvalidPageID` -/
  newBTree : Tree
  /-- `BTree.Search` -/
  search : Bytes → Tree → σ → Except Error (Option Bytes) × σ
  /-- `BTree.Insert` -/
  insert : Bytes → Bytes → Tree → σ → Except Error Unit × Tree × σ
  /-- `BTree.Delete` -/
  delete : Bytes → Tree → σ → Except Error Unit × Tree × σ
  /-- The pairs that a cursor visits from `First` on by `Next`. -/
  scan : Tree → σ → Except Error (List (Bytes × Bytes)) × σ
  /-- `Store.ReadRecord`, and `ReadRecordDirect`, which does not copy -/
  readRecord : RecordID → σ → Except Error Bytes × σ
  /-- `Store.WriteRecord` -/
  writeRecord : Bytes → RecordID → σ → Except Error RecordID × σ
  /-- `Store.DeleteRecord` -/
  deleteRecord : RecordID → σ → Except Error Unit × σ

abbrev KeyMap := Bytes → Option Bytes

abbrev RecordMap := RecordID → Option Bytes

end CocoDB

/-! ## The contract of the storage

What collections rely on: trees are maps, records keep their payload, and a call
on one of them leaves the others alone.  Counters come to an end: the storage
promises all this for a number of further writes, where a payload counts as many
as it has bytes.
-/

namespace CocoDB

open Lib BTree

abbrev Leaves := List (List LeafItem)

namespace Leaves

def keyMap (leaves : Leaves) : KeyMap := bindings leaves.flatten

/-- The items that a cursor visits: it ends before the first empty leaf. -/
def reach (leaves : Leaves) : List LeafItem :=
  (leaves.takeWhile fun items => ! items.isEmpty).flatten

def without (key : Bytes) (leaves : Leaves) : Leaves :=
  leaves.map fun items => items.filter fun item => item.key ≠ key

/-- The leaves with an item more.  The item comes with eight bytes at most, so
that a leaf that is too full for it has others to divide. -/
structure Put (key value : Bytes) (before after : Leaves) : Prop where
  keyMap_eq : after.keyMap = Function.update before.keyMap key (some value)
  reach_eq : before.keyMap key = none → value.length ≤ 8 →
    (after.without key).reach = before.reach

theorem keyMap_without (key : Bytes) (leaves : Leaves) :
    (leaves.without key).keyMap = Function.update leaves.keyMap key none := by
  have items : (leaves.without key).flatten =
      leaves.flatten.filter fun item => item.key ≠ key := by
    unfold without
    rw [List.filter_flatten]
  funext other
  unfold keyMap bindings
  rw [items, List.find?_filter]
  by_cases same : other = key
  · subst same
    rw [Function.update_self, Option.map_eq_none_iff, List.find?_eq_none]
    intro item _ both
    simp at both
  · rw [Function.update_of_ne same]
    congr 2
    funext item
    by_cases here : item.key = other
    · simp [here, same]
    · simp [here]

end Leaves

/-- The contract.  `Holds state spare trees records` says that the trees have the
given leaves and the records the given payloads, and that `spare` further writes
will not bring a counter to its end. -/
class LawfulKernel (σ : Type) [Kernel σ] where
  Holds : σ → Nat → List (Kernel.Tree σ × Leaves) → RecordMap → Prop
  perm : ∀ {state spare left right records}, left.Perm right →
    Holds state spare left records → Holds state spare right records
  create : ∀ {state spare trees records}, Holds state spare trees records →
    Holds state spare ((Kernel.newBTree, []) :: trees) records
  drop : ∀ {state spare tree trees records},
    Holds state spare (tree :: trees) records →
    Holds state spare trees records
  fewer : ∀ {state more less trees records}, less ≤ more →
    Holds state more trees records → Holds state less trees records
  search_spec : ∀ {state spare tree leaves trees records} key,
    Holds state spare ((tree, leaves) :: trees) records →
    (Kernel.search key tree state).1 = .ok (leaves.keyMap key) ∧
      Holds (Kernel.search key tree state).2 spare ((tree, leaves) :: trees)
        records
  insert_spec : ∀ {state spare tree leaves trees records key value},
    Holds state (spare + 1) ((tree, leaves) :: trees) records →
    (Kernel.insert key value tree state).1 = .ok () →
    ∃ changed, leaves.Put key value changed ∧
      Holds (Kernel.insert key value tree state).2.2 spare
        (((Kernel.insert key value tree state).2.1, changed) :: trees) records
  delete_spec : ∀ {state spare tree leaves trees records} key,
    Holds state spare ((tree, leaves) :: trees) records →
    (Kernel.delete key tree state).1 = .ok () ∧
      Holds (Kernel.delete key tree state).2.2 spare
        (((Kernel.delete key tree state).2.1, leaves.without key) :: trees)
        records
  scan_spec : ∀ {state spare tree leaves trees records},
    Holds state spare ((tree, leaves) :: trees) records →
    (Kernel.scan tree state).1 =
        .ok (leaves.reach.map fun item => (item.key, item.value)) ∧
      Holds (Kernel.scan tree state).2 spare ((tree, leaves) :: trees) records
  read_spec : ∀ {state spare trees records recID payload},
    Holds state spare trees records → records recID = some payload →
    (Kernel.readRecord recID state).1 = .ok payload ∧
      Holds (Kernel.readRecord recID state).2 spare trees records
  write_new : ∀ {state spare trees records payload},
    Holds state (payload.length + 1 + spare) trees records →
    payload.length < 2 ^ 32 →
    ∃ recID, (Kernel.writeRecord payload invalidRecordID state).1 =
        .ok recID ∧ records recID = none ∧
      Holds (Kernel.writeRecord payload invalidRecordID state).2 spare trees
        (Function.update records recID (some payload))
  write_old : ∀ {state spare trees records recID old payload},
    Holds state (payload.length + 1 + spare) trees records →
    records recID = some old → payload.length < 2 ^ 32 →
    (Kernel.writeRecord payload recID state).1 = .ok recID ∧
      Holds (Kernel.writeRecord payload recID state).2 spare trees
        (Function.update records recID (some payload))
  delete_record : ∀ {state spare trees records recID old},
    Holds state (spare + 1) trees records → records recID = some old →
    (Kernel.deleteRecord recID state).1 = .ok () ∧
      Holds (Kernel.deleteRecord recID state).2 spare trees
        (Function.update records recID none)

/-- The contract of a storage whose insertions change no tree when they fail. -/
class SteadyKernel (σ : Type) [Kernel σ] extends LawfulKernel σ where
  insert_failed : ∀ {state spare tree leaves trees records key value cause},
    Holds state (spare + 1) ((tree, leaves) :: trees) records →
    (Kernel.insert key value tree state).1 = .error cause →
    Holds (Kernel.insert key value tree state).2.2 spare
      (((Kernel.insert key value tree state).2.1, leaves) :: trees) records

def Accepts (σ : Type) [Kernel σ] [LawfulKernel σ] (key : Bytes) : Prop :=
  ∀ ⦃state : σ⦄ ⦃spare tree leaves trees records value⦄,
    LawfulKernel.Holds state (spare + 1) ((tree, leaves) :: trees) records →
    value.length ≤ 8 → (Kernel.insert key value tree state).1 = .ok ()

/-- The contract of a storage whose insertions fail for their sizes alone. -/
class WillingKernel (σ : Type) [Kernel σ] extends SteadyKernel σ where
  accepts : ∀ {key}, key.length ≤ maxKeySize → Accepts σ key
  insert_again : ∀ {state spare tree leaves trees records key value old},
    Holds state (spare + 1) ((tree, leaves) :: trees) records →
    leaves.keyMap key = some old → value.length ≤ 8 →
    (Kernel.insert key value tree state).1 = .ok ()

/-- The contract with the order of trees, which cursors follow. -/
class OrderedKernel (σ : Type) [Kernel σ] extends LawfulKernel σ where
  sorted : ∀ {state spare tree leaves trees records},
    Holds state spare ((tree, leaves) :: trees) records →
    leaves.flatten.Pairwise fun one two => one.key < two.key

end CocoDB
