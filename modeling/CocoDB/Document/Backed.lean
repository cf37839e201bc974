import CocoDB.Cson.Supported
import CocoDB.Document.Collection
import CocoDB.Index.Entries

/-!
# The parts of a call

What the storage of a collection holds: the documents, the leaves of the primary
tree and those of each index.  Every call is made of a few parts, finding a
document, removing its entries, storing a payload and adding entries, and this is
what each of them does.
-/

namespace CocoDB.Document

open Lib Cson Index SecondaryIndex LawfulKernel

section Backed

variable {σ : Type} [Kernel σ]

abbrev Mapped (σ : Type) [Kernel σ] := SecondaryIndex σ × Leaves

def treeLeaves (mapped : Mapped σ) : Kernel.Tree σ × Leaves :=
  (mapped.1.tree, mapped.2)

structure Shape (σ : Type) [Kernel σ] where
  contents : Index.Contents
  primary : Leaves
  indexes : List (Mapped σ)

variable [LawfulKernel σ]

/-- The storage of a collection has the shape, and can take `spare` further
writes. -/
structure Backed (coll : Collection σ) (spare : Nat) (shape : Shape σ) :
    Prop where
  dict : coll.dict = shape.contents.dict
  indexes : coll.secIndexes = shape.indexes.map Prod.fst
  lists : PrimaryIndex.Lists shape.primary.keyMap shape.contents.ids
  holds : Holds coll.kernel spare
    ((coll.primaryIndex, shape.primary) :: shape.indexes.map treeLeaves)
    shape.contents.records

def Owns (primary : Kernel.Tree σ × Leaves) (records : RecordMap)
    (spare : Nat) (state : σ) (indexes : List (Mapped σ)) : Prop :=
  Holds state spare (primary :: indexes.map treeLeaves) records

theorem pool_owns (primary : Kernel.Tree σ × Leaves) (records : RecordMap) :
    Pool (Owns primary records) where
  swap := fun perm owns =>
    LawfulKernel.perm ((perm.map treeLeaves).cons primary) owns
  fewer := fun le owns => LawfulKernel.fewer le owns

theorem owns_cons {primary : Kernel.Tree σ × Leaves} {records : RecordMap}
    {spare : Nat} {state : σ} {mapped : Mapped σ}
    {others : List (Mapped σ)} :
    Owns primary records spare state (mapped :: others) ↔
      Holds state spare ((mapped.1.tree, mapped.2) ::
        (primary :: others.map treeLeaves)) records :=
  ⟨LawfulKernel.perm (List.Perm.swap _ _ _),
    LawfulKernel.perm (List.Perm.swap _ _ _)⟩

variable {coll : Collection σ} {spare : Nat} {shape : Shape σ}
  {runtime : Runtime} {id payload : Bytes} {recID : RecordID}

theorem Backed.fewer {more : Nat} (backed : Backed coll more shape)
    (le : spare ≤ more) : Backed coll spare shape :=
  ⟨backed.dict, backed.indexes, backed.lists,
    LawfulKernel.fewer le backed.holds⟩

theorem Backed.setKernel (backed : Backed coll spare shape) {next : σ}
    (holds : Holds next spare
      ((coll.primaryIndex, shape.primary) :: shape.indexes.map treeLeaves)
      shape.contents.records) :
    Backed { coll with kernel := next } spare shape :=
  ⟨backed.dict, backed.indexes, backed.lists, holds⟩

/-! ## Reading -/

theorem Backed.find_spec (backed : Backed coll spare shape) (id : Bytes) :
    (coll.find id).1 = (match shape.contents.ids id with
        | some recID => .ok recID
        | none => .error .docNotFound) ∧
      Backed (coll.find id).2 spare shape ∧
      (coll.find id).2.schema = coll.schema := by
  obtain ⟨found, next⟩ := PrimaryIndex.get_spec backed.holds backed.lists id
  unfold Collection.find
  rcases outcome : PrimaryIndex.get id coll.primaryIndex coll.kernel with
    ⟨result, after⟩
  rw [outcome] at found next
  simp only at found next
  subst found
  cases shape.contents.ids id with
  | none => exact ⟨rfl, backed.setKernel next, rfl⟩
  | some recID => exact ⟨rfl, backed.setKernel next, rfl⟩

/-- What `Get` makes of a document. -/
def Shape.answer (shape : Shape σ) (id : Bytes) :
    Except DocumentError Cson.Document :=
  match shape.contents.ids id with
  | none => .error .docNotFound
  | some recID =>
      match shape.contents.records recID with
      | none => .error .docNotFound
      | some payload =>
          Collection.mapOf
            ⟨payload, shape.contents.dict, fieldCountOf payload⟩

theorem Backed.getView_spec (backed : Backed coll spare shape)
    (found : shape.contents.ids id = some recID)
    (stored : shape.contents.records recID = some payload)
    (headed : WellHeaded payload) :
    (coll.getView id).1 =
        .ok ⟨payload, shape.contents.dict, fieldCountOf payload⟩ ∧
      Backed (coll.getView id).2 spare shape ∧
      (coll.getView id).2.schema = coll.schema := by
  obtain ⟨located, next, schema⟩ := backed.find_spec id
  rw [found] at located
  obtain ⟨read, final⟩ := read_spec next.holds stored
  unfold Collection.getView
  rcases outcome : coll.find id with ⟨result, after⟩
  rw [outcome] at located next read final schema
  simp only at located next read final schema
  subst located
  simp only
  rcases reading : Kernel.readRecord recID after.kernel with ⟨answer, last⟩
  rw [reading] at read final
  simp only at read final
  subst read
  simp only
  rw [newDocumentView_ok after.dict headed]
  exact ⟨by rw [next.dict], next.setKernel final, schema⟩

theorem Backed.get_spec (backed : Backed coll spare shape)
    (stored : shape.contents.Stored) (id : Bytes) :
    (coll.get id).1 = shape.answer id ∧
      Backed (coll.get id).2 spare shape ∧
      (coll.get id).2.schema = coll.schema := by
  unfold Collection.get Shape.answer
  cases found : shape.contents.ids id with
  | none =>
      obtain ⟨located, next, schema⟩ := backed.find_spec id
      rw [found] at located
      unfold Collection.getView
      rcases outcome : coll.find id with ⟨result, after⟩
      rw [outcome] at located next schema
      simp only at located next schema
      subst located
      exact ⟨rfl, next, schema⟩
  | some recID =>
      obtain ⟨payload, doc, listed, encoded⟩ := stored found
      obtain ⟨viewed, next, schema⟩ := backed.getView_spec found listed
        encoded.entry.1
      rcases outcome : coll.getView id with ⟨result, after⟩
      rw [outcome] at viewed next schema
      simp only at viewed next schema
      subst viewed
      simp only [listed]
      exact ⟨trivial, next, schema⟩

theorem Backed.search_index (backed : Backed coll spare shape)
    {mapped : Mapped σ} (member : mapped ∈ shape.indexes) (key : Bytes) :
    (Kernel.search key mapped.1.tree coll.kernel).1 =
      .ok (mapped.2.keyMap key) := by
  obtain ⟨front, back, split⟩ := List.append_of_mem member
  have holds := backed.holds
  have perm : (front ++ mapped :: back).Perm (mapped :: (front ++ back)) :=
    List.perm_middle
  rw [split] at holds
  exact (search_spec key (owns_cons.mp
    ((pool_owns (coll.primaryIndex, shape.primary) _).swap perm holds))).1

/-! ## Removing the entries of a document -/

/-- The index without the entry of a document. -/
structure Removed (runtime : Runtime) (dict : FieldDictionary)
    (payload : Bytes) (recID : RecordID) (before after : Mapped σ) :
    Prop where
  definition : after.1.definition = before.1.definition
  keyMap_eq : after.2.keyMap =
    erase (before.1.definition.keyOf runtime dict payload recID)
      before.2.keyMap

theorem Backed.removeEntries_spec (backed : Backed coll spare shape)
    (order : Shuffle (SecondaryIndex σ))
    (stored : shape.contents.records recID = some payload)
    (headed : WellHeaded payload) :
    ∃ arranged changed, arranged.Perm shape.indexes ∧
      List.Forall₂ (Removed runtime shape.contents.dict payload recID)
        arranged changed ∧
      Backed (coll.removeEntries runtime order recID) spare
        { shape with indexes := changed } ∧
      (coll.removeEntries runtime order recID).schema = coll.schema := by
  obtain ⟨found, next⟩ := read_spec backed.holds stored
  have dictEq := backed.dict
  unfold Collection.removeEntries
  rcases outcome : Kernel.readRecord recID coll.kernel with ⟨result, after⟩
  rw [outcome] at found next
  simp only at found next
  subst found
  simp only
  rw [newDocumentView_ok coll.dict headed, backed.indexes]
  simp only
  -- taking entries out costs nothing
  let Kept : Nat → σ → List (Mapped σ) → Prop := fun _ =>
    Owns (coll.primaryIndex, shape.primary) shape.contents.records spare
  have pool : Pool Kept := ⟨fun perm owns => (pool_owns _ _).swap perm owns,
    fun _ owns => owns⟩
  obtain ⟨arranged, changed, perm, related, sweepEq, final⟩ :=
    @sweep_shuffled _ _ _ Prod.fst Kept
      (fun index state => (SecondaryIndex.delete runtime
        ⟨payload, coll.dict, fieldCountOf payload⟩ recID index state).2)
      (fun _ _ => True)
      (Removed runtime shape.contents.dict payload recID) pool
      (fun {_ mapped _ _} owns _ => by
        obtain ⟨same, leaves, erased, final⟩ := SecondaryIndex.delete_spec
          runtime ⟨payload, coll.dict, fieldCountOf payload⟩ recID
          (owns_cons.mp owns)
        refine ⟨(_, leaves), rfl, ⟨same, ?_⟩, owns_cons.mpr final⟩
        rw [erased, dictEq]
        rfl)
      order shape.indexes 0 after next
      (sweepMeets_of_forall fun _ _ _ => trivial)
  exact ⟨arranged, changed, perm, related,
    ⟨backed.dict, sweepEq, backed.lists, final⟩, trivial⟩

/-! ## Storing a payload -/

structure StoredNew (id payload : Bytes) (recID : RecordID)
    (before after : Shape σ) : Prop where
  fresh : before.contents.records recID = none
  contents_eq : after.contents = before.contents.with id recID payload
  put : before.primary.Put (encodeString id) (recordBytes recID) after.primary
  indexes_eq : after.indexes = before.indexes

theorem Backed.put_spec (backed : Backed coll (spare + 1) shape) (id : Bytes)
    (recID : RecordID)
    (done : (PrimaryIndex.put id recID coll.primaryIndex coll.kernel).1 =
      .ok ()) :
    ∃ changed, shape.primary.Put (encodeString id) (recordBytes recID)
        changed ∧
      Backed { coll with
          primaryIndex :=
            (PrimaryIndex.put id recID coll.primaryIndex coll.kernel).2.1
          kernel :=
            (PrimaryIndex.put id recID coll.primaryIndex coll.kernel).2.2 }
        spare
        { shape with
          contents := { shape.contents with
            ids := Function.update shape.contents.ids id (some recID) }
          primary := changed } := by
  obtain ⟨changed, put, lists, next⟩ :=
    PrimaryIndex.put_spec backed.holds backed.lists done
  exact ⟨changed, put, backed.dict, backed.indexes, lists, next⟩

theorem Backed.forget_spec (backed : Backed coll spare shape) (id : Bytes) :
    Backed (coll.forget id) spare
        { shape with
          contents := shape.contents.without id
          primary := shape.primary.without (encodeString id) } ∧
      (coll.forget id).schema = coll.schema := by
  obtain ⟨_, lists, next⟩ :=
    PrimaryIndex.delete_spec backed.holds backed.lists id
  exact ⟨⟨backed.dict, backed.indexes, lists, next⟩, rfl⟩

/-! ## Entering a document -/

end Backed

section Entering

variable {σ : Type} [Kernel σ] [SteadyKernel σ] {coll : Collection σ}
  {spare : Nat} {shape : Shape σ} {runtime : Runtime}
  {dict : FieldDictionary} {payload : Bytes} {recID : RecordID}

/-- The index with the entry of a document. -/
structure Joined (runtime : Runtime) (dict : FieldDictionary)
    (payload : Bytes) (recID : RecordID) (before after : Mapped σ) :
    Prop where
  definition : after.1.definition = before.1.definition
  free : ∀ key, before.1.definition.keyOf runtime dict payload recID =
    some key → ¬ Taken before.1.definition recID before.2.keyMap key
  keyMap_eq : after.2.keyMap =
    enter (before.1.definition.keyOf runtime dict payload recID)
      (before.1.definition.entryValue recID) before.2.keyMap

/-- Why an index does not take the entry of a document: it has another one
under the key, or the storage does not take the key. -/
inductive Hinders (definition : IndexDefinition) (recID : RecordID)
    (map : KeyMap) (key : Bytes) : DocumentError → Prop
  | taken : Taken definition recID map key →
      Hinders definition recID map key (.uniqueViolation definition.name)
  | failed {cause : Error} : ¬ Accepts σ key →
      Hinders definition recID map key (.storage cause)

/-- The index without the entry of a document that it should have. -/
structure Declined (runtime : Runtime) (dict : FieldDictionary)
    (payload : Bytes) (recID : RecordID) (before after : Mapped σ)
    (cause : DocumentError) : Prop where
  definition : after.1.definition = before.1.definition
  keyMap_eq : after.2.keyMap = before.2.keyMap
  hinders : ∃ key,
    before.1.definition.keyOf runtime dict payload recID = some key ∧
      Hinders (σ := σ) before.1.definition recID before.2.keyMap key cause

section Index

variable {index : SecondaryIndex σ} {leaves : Leaves} {state : σ}
  {others : List (Kernel.Tree σ × Leaves)} {records : RecordMap}

theorem put_ends {key value : Bytes}
    (holds : Holds state (spare + 1) ((index.tree, leaves) :: others)
      records) (short : value.length ≤ 8) :
    ∃ changed, (index.put key value state).2.1.definition =
        index.definition ∧
      Holds (index.put key value state).2.2 spare
        (((index.put key value state).2.1.tree, changed) :: others)
        records ∧
      (((index.put key value state).1 = .ok () ∧
          changed.keyMap = Function.update leaves.keyMap key (some value)) ∨
        ∃ cause, (index.put key value state).1 = .error (.storage cause) ∧
          changed.keyMap = leaves.keyMap ∧ ¬ Accepts σ key) := by
  unfold SecondaryIndex.put
  rcases outcome : Kernel.insert key value index.tree state with
    ⟨result, tree, after⟩
  cases result with
  | error cause =>
      have next := SteadyKernel.insert_failed holds
        (by rw [outcome] : (Kernel.insert key value index.tree state).1 =
          .error cause)
      rw [outcome] at next
      refine ⟨leaves, rfl, next, .inr ⟨cause, rfl, rfl, fun accepts => ?_⟩⟩
      have done := accepts holds short
      rw [outcome] at done
      cases done
  | ok _ =>
      obtain ⟨changed, put, next⟩ := insert_spec holds
        (by rw [outcome] : (Kernel.insert key value index.tree state).1 =
          .ok ())
      rw [outcome] at next
      exact ⟨changed, rfl, next, .inl ⟨rfl, put.keyMap_eq⟩⟩

omit [SteadyKernel σ] in
theorem entryValue_length (definition : IndexDefinition)
    (recID : RecordID) : (definition.entryValue recID).length ≤ 8 := by
  rw [IndexDefinition.entryValue]
  split
  · rw [recordBytes_length]
  · decide

theorem insert_ends (runtime : Runtime) (dict : FieldDictionary)
    (payload : Bytes) (recID : RecordID)
    (holds : Holds state (spare + 1) ((index.tree, leaves) :: others)
      records) :
    ∃ changed,
      Holds (index.insert runtime ⟨payload, dict, fieldCountOf payload⟩ recID
          state).2.2 spare
        (((index.insert runtime ⟨payload, dict, fieldCountOf payload⟩ recID
          state).2.1.tree, changed) :: others) records ∧
      ((∃ cause, (index.insert runtime
            ⟨payload, dict, fieldCountOf payload⟩ recID state).1 =
              .error cause ∧
          Declined runtime dict payload recID (index, leaves)
            ((index.insert runtime ⟨payload, dict, fieldCountOf payload⟩
              recID state).2.1, changed) cause) ∨
        ((index.insert runtime ⟨payload, dict, fieldCountOf payload⟩ recID
            state).1 = .ok () ∧
          Joined runtime dict payload recID (index, leaves)
            ((index.insert runtime ⟨payload, dict, fieldCountOf payload⟩
              recID state).2.1, changed))) := by
  have puts : ∀ {key value : Bytes} {start : σ},
      index.definition.keyOf runtime dict payload recID = some key →
      value = index.definition.entryValue recID →
      ¬ Taken index.definition recID leaves.keyMap key →
      Holds start (spare + 1) ((index.tree, leaves) :: others) records →
      ∃ changed,
        Holds (index.put key value start).2.2 spare
          (((index.put key value start).2.1.tree, changed) :: others)
          records ∧
        ((∃ cause, (index.put key value start).1 = .error cause ∧
            Declined runtime dict payload recID (index, leaves)
              ((index.put key value start).2.1, changed) cause) ∨
          ((index.put key value start).1 = .ok () ∧
            Joined runtime dict payload recID (index, leaves)
              ((index.put key value start).2.1, changed))) := by
    rintro key _ start built rfl free held
    obtain ⟨changed, definition, next, ends⟩ :=
      @put_ends _ _ _ _ index _ _ _ _ key _ held
        (entryValue_length index.definition recID)
    refine ⟨changed, next, ?_⟩
    rcases ends with ⟨done, entered⟩ | ⟨cause, failed, same, refuses⟩
    · refine .inr ⟨done, definition, fun other known => ?_, ?_⟩
      · rw [built] at known
        cases known
        exact free
      · rw [built]
        exact entered
    · exact .inl ⟨_, failed, definition, same, key, built, .failed refuses⟩
  unfold SecondaryIndex.insert
  cases built : index.definition.buildKey runtime
      ⟨payload, dict, fieldCountOf payload⟩ recID with
  | none =>
      have missing : index.definition.keyOf runtime dict payload recID =
          none := built
      refine ⟨leaves, LawfulKernel.fewer (Nat.le_succ _) holds,
        .inr ⟨rfl, rfl, fun key known => ?_, ?_⟩⟩
      · rw [missing] at known
        cases known
      · rw [missing]
        rfl
  | some key =>
      simp only
      by_cases unique : index.definition.unique = true
      · obtain ⟨found, next⟩ := search_spec key holds
        rcases outcome : Kernel.search key index.tree state with
          ⟨answer, after⟩
        rw [outcome] at found next
        simp only at found next
        subst found
        simp only [unique, if_true]
        split
        · rename_i taken
          obtain ⟨value, stored, other⟩ := (Option.any_eq_true _ _).mp taken
          exact ⟨leaves, LawfulKernel.fewer (Nat.le_succ _) next,
            .inl ⟨_, rfl, rfl, rfl, key, built,
              .taken ⟨unique, value, stored, of_decide_eq_true other⟩⟩⟩
        · rename_i passed
          refine puts built (if_pos unique).symm ?_ next
          rintro ⟨_, value, stored, other⟩
          exact passed ((Option.any_eq_true _ _).mpr
            ⟨value, stored, decide_eq_true other⟩)
      · simp only [unique]
        exact puts built (if_neg unique).symm (fun taken => unique taken.1)
          holds

end Index

theorem insert_turn (runtime : Runtime) (primary : Kernel.Tree σ × Leaves)
    (records : RecordMap) (dict : FieldDictionary) (payload : Bytes)
    (recID : RecordID) :
    Turn Prod.fst (Owns primary records)
      (Declined runtime dict payload recID)
      (Joined runtime dict payload recID)
      (SecondaryIndex.insert runtime ⟨payload, dict, fieldCountOf payload⟩
        recID) := by
  intro spare mapped others state owns
  obtain ⟨changed, next, ends⟩ :=
    insert_ends runtime dict payload recID (owns_cons.mp owns)
  exact ⟨(_, changed), rfl, owns_cons.mpr next, ends⟩

inductive EntersNew (runtime : Runtime) (order : Shuffle (SecondaryIndex σ))
    (id payload : Bytes) (recID : RecordID) (coll : Collection σ)
    (spare : Nat) (shape : Shape σ) :
    Except DocumentError Bytes × Collection σ → Prop
  | refused {arranged front back changed : List (Mapped σ)}
      {mapped later : Mapped σ} {cause : DocumentError}
      {after : Collection σ} :
      order.arrange coll.secIndexes = arranged.map Prod.fst →
      arranged.Perm shape.indexes → arranged = front ++ mapped :: back →
      List.Forall₂ (Joined runtime shape.contents.dict payload recID) front
        changed →
      Declined runtime shape.contents.dict payload recID mapped later cause →
      Backed after spare
        { contents := shape.contents.without id
          primary := shape.primary.without (encodeString id)
          indexes := changed ++ later :: back } →
      EntersNew runtime order id payload recID coll spare shape
        (.error cause, after)
  | entered {arranged changed : List (Mapped σ)} {after : Collection σ} :
      arranged.Perm shape.indexes →
      List.Forall₂ (Joined runtime shape.contents.dict payload recID)
        arranged changed →
      Backed after spare { shape with indexes := changed } →
      EntersNew runtime order id payload recID coll spare shape
        (.ok id, after)

theorem Backed.enterNew_spec
    (backed : Backed coll (shape.indexes.length + spare) shape)
    (order : Shuffle (SecondaryIndex σ)) (id : Bytes) (recID : RecordID)
    (headed : WellHeaded payload) :
    EntersNew runtime order id payload recID coll spare shape
      (coll.enterNew runtime order id payload recID) := by
  have dictEq := backed.dict
  have indexesEq := backed.indexes
  unfold Collection.enterNew
  by_cases empty : coll.secIndexes.isEmpty = true
  · rw [if_pos empty]
    have none : shape.indexes = [] := by
      rw [indexesEq, List.isEmpty_iff, List.map_eq_nil_iff] at empty
      exact empty
    refine .entered (.refl _) ?_ (backed.fewer (Nat.le_add_left _ _))
    rw [none]
    exact .nil
  · rw [if_neg empty, newDocumentView_ok coll.dict headed]
    simp only
    obtain ⟨arranged, perm, listed, ends⟩ := attempt_shuffled
      (pool_owns (coll.primaryIndex, shape.primary) shape.contents.records)
      (insert_turn runtime _ _ coll.dict payload recID) order backed.holds
    rw [← indexesEq] at listed ends
    generalize attempt _ (order.arrange coll.secIndexes) coll.kernel =
      result at ends ⊢
    cases ends with
    | @refused front back changed mapped later cause state split joined
        declined owned =>
        rw [List.append_nil] at owned
        rw [dictEq] at joined declined
        have reached : Backed { coll with
            secIndexes := (changed ++ later :: back).map Prod.fst
            kernel := state } spare
            { shape with indexes := changed ++ later :: back } :=
          ⟨dictEq, rfl, backed.lists, owned⟩
        exact .refused listed perm split joined declined
          (reached.forget_spec id).1
    | finished joined owned =>
        rw [List.append_nil] at owned
        rw [dictEq] at joined
        exact .entered perm joined ⟨dictEq, rfl, backed.lists, owned⟩

/-! ## Storing a new document -/

def Shape.orphaned (shape : Shape σ) (recID : RecordID) (payload : Bytes) :
    Shape σ :=
  { shape with contents := { shape.contents with
      records := Function.update shape.contents.records recID
        (some payload) } }

theorem Backed.store_new
    (backed : Backed coll (payload.length + 1 + (spare + 1)) shape)
    (id : Bytes) (short : payload.length < 2 ^ 32) :
    ∃ recID, shape.contents.records recID = none ∧
      ((∃ cause, (coll.store id payload invalidRecordID).1 =
            .error (.storage cause) ∧
          Backed (coll.store id payload invalidRecordID).2 spare
            (shape.orphaned recID payload)) ∨
        ∃ after, (coll.store id payload invalidRecordID).1 = .ok recID ∧
          StoredNew id payload recID shape after ∧
          Backed (coll.store id payload invalidRecordID).2 spare after) := by
  obtain ⟨recID, wrote, fresh, next⟩ := write_new backed.holds short
  refine ⟨recID, fresh, ?_⟩
  unfold Collection.store
  rcases outcome : Kernel.writeRecord payload invalidRecordID coll.kernel with
    ⟨result, written⟩
  rw [outcome] at wrote next
  simp only at wrote next
  subst wrote
  simp only
  rcases putting : PrimaryIndex.put id recID coll.primaryIndex written with
    ⟨result, tree, final⟩
  cases result with
  | error cause =>
      rw [PrimaryIndex.put] at putting
      have same := SteadyKernel.insert_failed next (by rw [putting])
      rw [putting] at same
      exact .inl ⟨cause, rfl, backed.dict, backed.indexes, backed.lists, same⟩
  | ok _ =>
      have stored : Backed { coll with kernel := written } (spare + 1)
          (shape.orphaned recID payload) :=
        ⟨backed.dict, backed.indexes, backed.lists, next⟩
      obtain ⟨changed, put, backedNow⟩ := stored.put_spec id recID (by
        rw [putting])
      rw [putting] at backedNow
      exact .inr ⟨⟨shape.contents.with id recID payload, changed,
        shape.indexes⟩, rfl, ⟨fresh, rfl, put, rfl⟩, backedNow⟩

end Entering

end CocoDB.Document

/-! ## The invariant of a collection

All documents can be read, and every entry of an index is that of a record: it
stands under the key that the record has there.  A call that fails half way keeps
this, although entries may be missing then or lead to a record that no document
has any more.
-/

namespace CocoDB.Document

open Lib Cson Index SecondaryIndex LawfulKernel

section Traced

variable {runtime : Runtime} {definition : IndexDefinition}
  {contents : Index.Contents} {map : KeyMap} {recID : RecordID}
  {payload : Bytes}

def Traced (runtime : Runtime) (definition : IndexDefinition)
    (contents : Index.Contents) (map : KeyMap) : Prop :=
  ∀ ⦃key value⦄, map key = some value →
    ∃ recID payload, contents.records recID = some payload ∧
      definition.keyOf runtime contents.dict payload recID = some key ∧
      value = definition.entryValue recID

def Written (contents : Index.Contents) : Prop :=
  ∀ ⦃recID payload⦄, contents.records recID = some payload →
    ∃ doc, Encoded contents.dict payload doc

theorem Traced.fresh (traced : Traced runtime definition contents map)
    (fresh : contents.records recID = none) {key value : Bytes}
    (built : definition.keyOf runtime contents.dict payload recID = some key)
    (listed : map key = some value) :
    Taken definition recID map key := by
  obtain ⟨other, old, stored, keyed, valued⟩ := traced listed
  have different : other ≠ recID := by
    rintro rfl
    rw [fresh] at stored
    cases stored
  by_cases unique : definition.unique = true
  · refine ⟨unique, value, listed, ?_⟩
    rw [valued, IndexDefinition.entryValue, if_pos unique,
      recordBytes_length, recordOf_recordBytes]
    exact ⟨Nat.le_refl 8, different⟩
  · exact absurd (keyOf_record (Bool.not_eq_true _ ▸ unique) keyed built)
      different

end Traced

section Sound

variable {σ : Type} [Kernel σ]

def nameOf (mapped : Mapped σ) : Bytes := mapped.1.definition.name

/-- What holds of everything that is stored for a collection. -/
structure Shape.Sound (runtime : Runtime) (shape : Shape σ) : Prop where
  wellFormed : shape.contents.dict.WellFormed
  written : Written shape.contents
  stored : ∀ {id recID}, shape.contents.ids id = some recID →
    ∃ payload, shape.contents.records recID = some payload
  named : (shape.indexes.map nameOf).Nodup
  traced : ∀ {mapped}, mapped ∈ shape.indexes →
    Traced runtime mapped.1.definition shape.contents mapped.2.keyMap

variable {runtime : Runtime} {shape after : Shape σ} {id payload : Bytes}
  {recID : RecordID}

theorem Shape.Sound.decodable (sound : shape.Sound runtime) :
    shape.contents.Stored := by
  intro id recID found
  obtain ⟨payload, listed⟩ := sound.stored found
  obtain ⟨doc, encoded⟩ := sound.written listed
  exact ⟨payload, doc, listed, encoded⟩

def Shape.under (shape : Shape σ) (dict : FieldDictionary) : Shape σ :=
  { shape with contents := shape.contents.under dict }

end Sound

end CocoDB.Document
