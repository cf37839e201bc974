import CocoDB.Document.Kernel

/-!
# A storage in memory

The simplest storage that keeps the contract: a handle of a tree holds the items
of the tree, and the state holds the records.
-/

namespace CocoDB

open Lib BTree

/-- The records and the number of the next one. -/
structure Memory where
  records : List (RecordID × Bytes)
  nextRecordID : Nat

namespace Memory

/-- `NewStore` -/
def empty : Memory := ⟨[], 1⟩

def recordMap (state : Memory) : RecordMap := fun recID =>
  (state.records.find? fun record => record.1 = recID).map Prod.snd

def removeItem (key : Bytes) (items : List LeafItem) : List LeafItem :=
  items.filter fun item => item.key ≠ key

def insertItem (key value : Bytes) (items : List LeafItem) : List LeafItem :=
  (removeItem key items).takeWhile (fun item => item.key < key) ++
    ⟨key, value⟩ ::
      (removeItem key items).dropWhile (fun item => item.key < key)

def putRecord (recID : RecordID) (payload : Bytes) (state : Memory) :
    List (RecordID × Bytes) :=
  (recID, payload) ::
    state.records.filter fun record => record.1 ≠ recID

def writeRecord (payload : Bytes) (recID : RecordID) (state : Memory) :
    RecordID × Memory :=
  if recID = invalidRecordID then
    let fresh := UInt64.ofNat state.nextRecordID
    (fresh, ⟨state.putRecord fresh payload, state.nextRecordID + 1⟩)
  else (recID, ⟨state.putRecord recID payload, state.nextRecordID⟩)

instance : Kernel Memory where
  Tree := List LeafItem
  newBTree := []
  search key tree state := (.ok (bindings tree key), state)
  insert key value tree state := (.ok (), insertItem key value tree, state)
  delete key tree state := (.ok (), removeItem key tree, state)
  scan tree state :=
    (.ok (tree.map fun item => (item.key, item.value)), state)
  readRecord recID state :=
    match state.recordMap recID with
    | some payload => (.ok payload, state)
    | none => (.error .slotNotFound, state)
  writeRecord payload recID state :=
    (.ok (state.writeRecord payload recID).1,
      (state.writeRecord payload recID).2)
  deleteRecord recID state :=
    (.ok (), { state with
      records := state.records.filter fun record => record.1 ≠ recID })

/-! ## The contract -/

def Listed (tree : List LeafItem) (leaves : Leaves) : Prop :=
  leaves = [tree] ∨ (tree = [] ∧ leaves = [])

def Sorted (items : List LeafItem) : Prop :=
  items.Pairwise fun one two => one.key < two.key

/-- What the contract says of a storage in memory. -/
structure Holds (state : Memory) (spare : Nat)
    (trees : List (List LeafItem × Leaves)) (records : RecordMap) : Prop where
  listed : ∀ entry ∈ trees, Listed entry.1 entry.2 ∧ Sorted entry.1
  kept : state.recordMap = records
  fresh : ∀ record ∈ state.records, record.1.toNat < state.nextRecordID
  spacious : state.nextRecordID + spare < 2 ^ 64

section Contract

variable {state : Memory} {spare : Nat} {tree : List LeafItem}
  {leaves : Leaves} {trees : List (List LeafItem × Leaves)}
  {records : RecordMap} {key value payload : Bytes} {recID : RecordID}

theorem Listed.flatten (listed : Listed tree leaves) :
    leaves.flatten = tree := by
  rcases listed with rfl | ⟨rfl, rfl⟩
  · simp
  · rfl

theorem Listed.keyMap_eq (listed : Listed tree leaves) :
    leaves.keyMap = bindings tree := by
  rw [Leaves.keyMap, listed.flatten]

theorem reach_single (items : List LeafItem) :
    Leaves.reach [items] = items := by
  cases items <;> simp [Leaves.reach]

theorem Listed.reach_eq (listed : Listed tree leaves) :
    leaves.reach = tree := by
  rcases listed with rfl | ⟨rfl, rfl⟩
  · exact reach_single tree
  · rfl

theorem Listed.without (listed : Listed tree leaves) :
    Listed (removeItem key tree) (leaves.without key) := by
  rcases listed with rfl | ⟨rfl, rfl⟩
  · exact .inl rfl
  · exact .inr ⟨rfl, rfl⟩

theorem bindings_removeItem (items : List LeafItem) {other : Bytes}
    (differs : other ≠ key) :
    bindings (removeItem key items) other = bindings items other := by
  rw [bindings, bindings, removeItem, List.find?_filter]
  congr 2
  funext item
  by_cases here : item.key = other
  · simp [here, differs]
  · simp [here]

theorem bindings_insertItem (items : List LeafItem) :
    bindings (insertItem key value items) =
      Function.update (bindings items) key (some value) := by
  funext other
  have gone : bindings ((removeItem key items).takeWhile
      fun item => item.key < key) key = none := by
    rw [bindings, Option.map_eq_none_iff, List.find?_eq_none]
    intro item member
    have kept := (List.takeWhile_subset _) member
    simpa using (List.mem_filter.mp kept).2
  rw [insertItem, bindings_append]
  by_cases same : other = key
  · subst same
    rw [gone, Function.update_self]
    simp [bindings]
  · rw [Function.update_of_ne same, ← bindings_removeItem items same]
    conv_rhs => rw [← List.takeWhile_append_dropWhile
      (l := removeItem key items) (p := fun item => item.key < key)]
    rw [bindings_append]
    congr 1
    simp [bindings, Ne.symm same]

theorem removeItem_absent {items : List LeafItem}
    (absent : ∀ item ∈ items, item.key ≠ key) :
    removeItem key items = items := by
  rw [removeItem, List.filter_eq_self]
  simpa using absent

theorem removeItem_insertItem (items : List LeafItem) :
    removeItem key (insertItem key value items) = removeItem key items := by
  have first : ∀ item ∈ (removeItem key items).takeWhile
      (fun item => item.key < key), item.key ≠ key := by
    intro item member
    have kept := (List.takeWhile_subset _) member
    simpa using (List.mem_filter.mp kept).2
  have second : ∀ item ∈ (removeItem key items).dropWhile
      (fun item => item.key < key), item.key ≠ key := by
    intro item member
    have kept := (List.dropWhile_subset _) member
    simpa using (List.mem_filter.mp kept).2
  rw [insertItem, removeItem, List.filter_append, List.filter_cons_of_neg
    (by simp)]
  have both := congrArg₂ (· ++ ·) (removeItem_absent first)
    (removeItem_absent second)
  rw [List.takeWhile_append_dropWhile] at both
  exact both

theorem Sorted.removeItem {items : List LeafItem} (sorted : Sorted items) :
    Sorted (removeItem key items) :=
  List.Pairwise.sublist List.filter_sublist sorted

theorem Sorted.insertItem {items : List LeafItem} (sorted : Sorted items) :
    Sorted (insertItem key value items) := by
  have rest : Sorted (Memory.removeItem key items) := sorted.removeItem
  have others : ∀ item ∈ Memory.removeItem key items, item.key ≠ key := by
    intro item member
    simpa using (List.mem_filter.mp member).2
  rw [Memory.insertItem]
  generalize Memory.removeItem key items = kept at rest others
  induction kept with
  | nil => exact List.pairwise_singleton _ _
  | cons item later inductionHypothesis =>
      obtain ⟨first, after⟩ := List.pairwise_cons.mp rest
      have differs := others item List.mem_cons_self
      by_cases before : item.key < key
      · rw [List.takeWhile_cons_of_pos (by simpa using before),
          List.dropWhile_cons_of_pos (by simpa using before),
          List.cons_append]
        refine List.pairwise_cons.mpr ⟨?_, inductionHypothesis after
          fun item member => others item (List.mem_cons_of_mem _ member)⟩
        intro other member
        rcases List.mem_append.mp member with left | right
        · exact first other (List.takeWhile_subset _ left)
        · cases List.mem_cons.mp right with
          | inl new =>
              rw [new]
              exact before
          | inr right => exact first other (List.dropWhile_subset _ right)
      · have above : key < item.key :=
          lt_of_le_of_ne (not_lt.mp before) (Ne.symm differs)
        rw [List.takeWhile_cons_of_neg (by simpa using before),
          List.dropWhile_cons_of_neg (by simpa using before),
          List.nil_append]
        refine List.pairwise_cons.mpr ⟨?_, rest⟩
        intro other member
        cases List.mem_cons.mp member with
        | inl same =>
            rw [same]
            exact above
        | inr member => exact lt_trans above (first other member)

theorem put_insertItem (listed : Listed tree leaves) :
    leaves.Put key value [insertItem key value tree] := by
  have shape : Listed (insertItem key value tree)
      [insertItem key value tree] := .inl rfl
  refine ⟨?_, fun absent _ => ?_⟩
  · rw [shape.keyMap_eq, bindings_insertItem, listed.keyMap_eq]
  · have removed : Listed (removeItem key (insertItem key value tree))
        (Leaves.without key [insertItem key value tree]) := shape.without
    rw [removed.reach_eq, removeItem_insertItem, listed.reach_eq]
    apply removeItem_absent
    intro item member same
    rw [listed.keyMap_eq, bindings, Option.map_eq_none_iff,
      List.find?_eq_none] at absent
    exact absent item member (by simpa using same)

theorem recordMap_put :
    recordMap ⟨state.putRecord recID payload, state.nextRecordID⟩ =
      Function.update state.recordMap recID (some payload) := by
  funext other
  by_cases same : other = recID
  · subst same
    rw [Function.update_self]
    simp [recordMap, putRecord]
  · rw [Function.update_of_ne same]
    simp only [recordMap, putRecord]
    rw [List.find?_cons_of_neg (by simpa using Ne.symm same),
      List.find?_filter]
    congr 2
    funext record
    by_cases here : record.1 = other
    · simp [here, same]
    · simp [here]

theorem recordMap_remove :
    recordMap { state with
      records := state.records.filter fun record => record.1 ≠ recID } =
      Function.update state.recordMap recID none := by
  funext other
  simp only [recordMap]
  rw [List.find?_filter]
  by_cases same : other = recID
  · subst same
    rw [Function.update_self, Option.map_eq_none_iff, List.find?_eq_none]
    intro record _
    simp
  · rw [Function.update_of_ne same]
    congr 2
    funext record
    by_cases here : record.1 = other
    · simp [here, same]
    · simp [here]

theorem Holds.first (holds : Holds state spare ((tree, leaves) :: trees)
    records) : Listed tree leaves ∧ Sorted tree :=
  holds.listed _ List.mem_cons_self

theorem Holds.setTree (holds : Holds state spare ((tree, leaves) :: trees)
    records) {changed : List LeafItem} {others : Leaves}
    (listed : Listed changed others) (sorted : Sorted changed) :
    Holds state spare ((changed, others) :: trees) records := by
  refine ⟨?_, holds.kept, holds.fresh, holds.spacious⟩
  intro entry member
  cases List.mem_cons.mp member with
  | inl same =>
      subst same
      exact ⟨listed, sorted⟩
  | inr later => exact holds.listed entry (List.mem_cons_of_mem _ later)

theorem Holds.fewer {more : Nat} (holds : Holds state more trees records)
    (enough : spare ≤ more) : Holds state spare trees records := by
  have spacious := holds.spacious
  exact ⟨holds.listed, holds.kept, holds.fresh, by omega⟩

theorem Holds.number (holds : Holds state spare trees records) :
    (UInt64.ofNat state.nextRecordID).toNat = state.nextRecordID := by
  have spacious := holds.spacious
  rw [UInt64.toNat_ofNat', Nat.mod_eq_of_lt (by omega)]

theorem Holds.recordMap_fresh (holds : Holds state spare trees records) :
    records (UInt64.ofNat state.nextRecordID) = none := by
  rw [← holds.kept, recordMap, Option.map_eq_none_iff, List.find?_eq_none]
  intro record member same
  have below := holds.fresh record member
  rw [decide_eq_true_eq] at same
  rw [same, holds.number] at below
  exact Nat.lt_irrefl _ below

theorem fresh_put {next : Nat} (below : recID.toNat < next)
    (fresh : ∀ record ∈ state.records, record.1.toNat < next) :
    ∀ record ∈ state.putRecord recID payload, record.1.toNat < next := by
  intro record member
  cases List.mem_cons.mp member with
  | inl same =>
      subst same
      exact below
  | inr kept => exact fresh record (List.mem_filter.mp kept).1

theorem Holds.below (holds : Holds state spare trees records)
    (known : records recID = some payload) :
    recID.toNat < state.nextRecordID := by
  rw [← holds.kept, recordMap, Option.map_eq_some_iff] at known
  obtain ⟨record, found, _⟩ := known
  have named : record.1 = recID := by
    simpa using List.find?_some found
  rw [← named]
  exact holds.fresh record (List.mem_of_find?_eq_some found)

end Contract

instance : OrderedKernel Memory where
  sorted holds := by
    obtain ⟨listed, sorted⟩ := holds.first
    rw [listed.flatten]
    exact sorted
  Holds := Holds
  perm same holds :=
    ⟨fun entry member => holds.listed entry (same.mem_iff.mpr member),
      holds.kept, holds.fresh, holds.spacious⟩
  create holds := by
    refine ⟨?_, holds.kept, holds.fresh, holds.spacious⟩
    intro entry member
    cases List.mem_cons.mp member with
    | inl same =>
        subst same
        exact ⟨.inr ⟨rfl, rfl⟩, List.Pairwise.nil⟩
    | inr later => exact holds.listed entry later
  drop holds :=
    ⟨fun entry member => holds.listed entry (List.mem_cons_of_mem _ member),
      holds.kept, holds.fresh, holds.spacious⟩
  fewer enough holds := holds.fewer enough
  search_spec key holds := by
    refine ⟨?_, holds⟩
    rw [holds.first.1.keyMap_eq]
    rfl
  insert_spec holds _ := by
    obtain ⟨listed, sorted⟩ := holds.first
    refine ⟨_, put_insertItem listed, ?_⟩
    exact (holds.setTree (.inl rfl) sorted.insertItem).fewer (Nat.le_succ _)
  delete_spec key holds :=
    ⟨rfl, holds.setTree holds.first.1.without holds.first.2.removeItem⟩
  scan_spec holds := by
    refine ⟨?_, holds⟩
    rw [holds.first.1.reach_eq]
    rfl
  read_spec holds known := by
    rw [← holds.kept] at known
    simp only [Kernel.readRecord, known]
    exact ⟨trivial, holds⟩
  write_new {state spare trees records payload} holds short := by
    refine ⟨UInt64.ofNat state.nextRecordID, rfl, holds.recordMap_fresh, ?_⟩
    have spacious := holds.spacious
    have below : (UInt64.ofNat state.nextRecordID).toNat <
        state.nextRecordID + 1 := by
      rw [holds.number]
      exact Nat.lt_succ_self _
    simp only [Kernel.writeRecord, writeRecord, if_true]
    refine ⟨holds.listed, ?_, fresh_put below ?_, ?_⟩
    · rw [← holds.kept]
      exact recordMap_put
    · intro record member
      exact Nat.lt_succ_of_lt (holds.fresh record member)
    · simp only
      omega
  write_old {state spare trees records recID old payload} holds known short := by
    have below := holds.below known
    have spacious := holds.spacious
    have valid : recID ≠ invalidRecordID := by
      rintro rfl
      have limit : invalidRecordID.toNat = 2 ^ 64 - 1 := rfl
      omega
    simp only [Kernel.writeRecord, writeRecord, if_neg valid]
    refine ⟨trivial, holds.listed, ?_, fresh_put below holds.fresh, ?_⟩
    · rw [← holds.kept]
      exact recordMap_put
    · simp only
      omega
  delete_record {state spare trees records recID old} holds known := by
    have spacious := holds.spacious
    simp only [Kernel.deleteRecord]
    refine ⟨trivial, holds.listed, ?_, ?_, ?_⟩
    · rw [← holds.kept]
      exact recordMap_remove
    · intro record member
      exact holds.fresh record (List.mem_filter.mp member).1
    · simp only
      omega

instance : WillingKernel Memory where
  insert_failed _ failed := nomatch failed
  accepts _ := fun _ _ _ _ _ _ _ _ _ => rfl
  insert_again _ _ _ := rfl

end Memory

end CocoDB
