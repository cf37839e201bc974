import CocoDB.Document.Calls
import CocoDB.Document.Memory
import CocoDB.Document.Query
import Mathlib.Data.List.TakeWhile

/-!
# A storage that is closed and opened again

The counter of the records starts again with every opening.  So a new record may
take the place of another one, and so may the version that a deletion puts aside:
the storage promises less than one that is opened once.  What a collection without
indexes makes of it is the subject of the second part.
-/

namespace CocoDB

open Lib BTree

/-- No leaf is empty, but the only one may be: a cursor ends at an empty leaf. -/
def Leaves.Full (leaves : Leaves) : Prop :=
  leaves.length ≤ 1 ∨ ∀ items ∈ leaves, items ≠ []

theorem Leaves.Full.reach_eq {leaves : Leaves} (full : leaves.Full) :
    leaves.reach = leaves.flatten := by
  rcases full with single | filled
  · match leaves, single with
    | [], _ => rfl
    | [items], _ =>
        rw [Memory.reach_single]
        simp
  · rw [Leaves.reach, List.takeWhile_eq_self_iff.mpr]
    intro items member
    simpa using filled items member

/-- The contract, for one tree. -/
class ReopenedKernel (σ : Type) [Kernel σ] where
  Holds : σ → Kernel.Tree σ → Leaves → RecordMap → Prop
  sorted : ∀ {state tree leaves records}, Holds state tree leaves records →
    leaves.flatten.Pairwise fun one two => one.key < two.key
  search_spec : ∀ {state tree leaves records} key,
    Holds state tree leaves records →
    (Kernel.search key tree state).1 = .ok (leaves.keyMap key) ∧
      Holds (Kernel.search key tree state).2 tree leaves records
  insert_spec : ∀ {state tree leaves records key value},
    Holds state tree leaves records →
    (Kernel.insert key value tree state).1 = .ok () →
    ∃ changed, leaves.Put key value changed ∧
      (leaves.Full → changed.Full) ∧
      Holds (Kernel.insert key value tree state).2.2
        (Kernel.insert key value tree state).2.1 changed records
  delete_spec : ∀ {state tree leaves records} key,
    Holds state tree leaves records →
    (Kernel.delete key tree state).1 = .ok () ∧
      Holds (Kernel.delete key tree state).2.2
        (Kernel.delete key tree state).2.1 (leaves.without key) records
  scan_spec : ∀ {state tree leaves records},
    Holds state tree leaves records →
    (Kernel.scan tree state).1 =
        .ok (leaves.reach.map fun item => (item.key, item.value)) ∧
      Holds (Kernel.scan tree state).2 tree leaves records
  read_spec : ∀ {state tree leaves records recID payload},
    Holds state tree leaves records → records recID = some payload →
    (Kernel.readRecord recID state).1 = .ok payload ∧
      Holds (Kernel.readRecord recID state).2 tree leaves records
  write_new : ∀ {state tree leaves records payload recID},
    Holds state tree leaves records → payload.length < 2 ^ 32 →
    (Kernel.writeRecord payload invalidRecordID state).1 = .ok recID →
    Holds (Kernel.writeRecord payload invalidRecordID state).2 tree leaves
      (Function.update records recID (some payload))
  delete_record : ∀ {state tree leaves records recID old},
    Holds state tree leaves records → records recID = some old →
    (Kernel.deleteRecord recID state).1 = .ok () ∧
      ∃ later : RecordMap,
        (∀ other, other ≠ recID →
          later other = records other ∨ later other = some old) ∧
        Holds (Kernel.deleteRecord recID state).2 tree leaves later

namespace Memory

/-- A storage in memory keeps the contract also after its counter has started
again. -/
structure Serves (state : Memory) (tree : List LeafItem) (leaves : Leaves)
    (records : RecordMap) : Prop where
  listed : Listed tree leaves
  sorted : Sorted tree
  kept : state.recordMap = records

def reopened (state : Memory) : Memory := { state with nextRecordID := 1 }

instance : ReopenedKernel Memory where
  Holds := Serves
  sorted holds := by
    rw [holds.listed.flatten]
    exact holds.sorted
  search_spec key holds := by
    refine ⟨?_, holds⟩
    rw [holds.listed.keyMap_eq]
    rfl
  insert_spec {state tree leaves records key value} holds _ :=
    ⟨[insertItem key value tree], put_insertItem holds.listed,
      fun _ => .inl (Nat.le_refl 1), .inl rfl, holds.sorted.insertItem,
      holds.kept⟩
  delete_spec key holds :=
    ⟨rfl, holds.listed.without, holds.sorted.removeItem, holds.kept⟩
  scan_spec holds := by
    refine ⟨?_, holds⟩
    rw [holds.listed.reach_eq]
    rfl
  read_spec holds known := by
    rw [← holds.kept] at known
    simp only [Kernel.readRecord, known]
    exact ⟨trivial, holds⟩
  write_new {state tree leaves records payload recID} holds _ done := by
    cases done
    refine ⟨holds.listed, holds.sorted, ?_⟩
    rw [← holds.kept]
    exact recordMap_put
  delete_record {state tree leaves records recID old} holds _ := by
    refine ⟨rfl, Function.update records recID none, ?_, holds.listed,
      holds.sorted, ?_⟩
    · intro other different
      exact .inl (Function.update_of_ne different ..)
    · rw [← holds.kept]
      exact recordMap_remove

end Memory

namespace Document

open Cson CocoDB.Query Index

section FitsFormat

variable {σ : Type} [Kernel σ]

structure FitsFormat (orders : Orders σ) (doc : Cson.Document)
    (coll : Collection σ) : Prop where
  compact : Compact (.object (orders.fields.visit doc))
  spacious : coll.dict.Spacious (names (.object (orders.fields.visit doc)))
  short : ∀ {payload grown},
    encode (orders.fields.visit doc) coll.dict = (.ok payload, grown) →
    payload.length < 2 ^ 32

theorem FitsFormat.affords {orders : Orders σ} {doc : Cson.Document}
    {coll : Collection σ} (fits : FitsFormat orders doc coll) :
    ∃ total, Affords orders doc coll total 0 := by
  rcases encodes : encode (orders.fields.visit doc) coll.dict with
    ⟨_ | payload, grown⟩
  · refine ⟨0, fits.compact, fits.spacious, ?_⟩
    intro payload grown encoded
    rw [encodes] at encoded
    cases encoded
  · refine ⟨payload.length + coll.secIndexes.length + 2, fits.compact,
      fits.spacious, ?_⟩
    intro other grown encoded
    have short := fits.short encoded
    rw [encodes] at encoded
    cases encoded
    exact ⟨short, Nat.le_refl _⟩

end FitsFormat

section Served

variable {σ : Type} [Kernel σ] [ReopenedKernel σ]
  {Fine : Cson.Document → Prop}

/-- A collection without schema and indexes whose identifiers lead to documents
of a kind.  Two of them may lead to one record. -/
structure Served (Fine : Cson.Document → Prop) (coll : Collection σ)
    (leaves : Leaves) (ids : Bytes → Option RecordID) (records : RecordMap) :
    Prop where
  dict : coll.dict.WellFormed
  indexes : coll.secIndexes = []
  schema : ∀ doc, coll.schema doc = none
  lists : PrimaryIndex.Lists leaves.keyMap ids
  full : leaves.Full
  holds : ReopenedKernel.Holds coll.kernel coll.primaryIndex leaves records
  stored : ∀ {id recID}, ids id = some recID → ∃ payload doc,
    records recID = some payload ∧ Encoded coll.dict payload doc ∧ Fine doc

namespace Served

variable {coll : Collection σ} {leaves : Leaves}
  {ids : Bytes → Option RecordID} {records : RecordMap} {id : Bytes}
  {recID : RecordID}

theorem setKernel (served : Served Fine coll leaves ids records)
    {next : σ}
    (holds : ReopenedKernel.Holds next coll.primaryIndex leaves records) :
    Served Fine { coll with kernel := next } leaves ids records :=
  { served with holds := holds }

theorem find_spec (served : Served Fine coll leaves ids records)
    (found : ids id = some recID) :
    (coll.find id).1 = .ok recID ∧
      Served Fine (coll.find id).2 leaves ids records := by
  obtain ⟨search, next⟩ :=
    ReopenedKernel.search_spec (encodeString id) served.holds
  rw [served.lists.entry, found] at search
  unfold Collection.find PrimaryIndex.get
  rcases outcome : Kernel.search (encodeString id) coll.primaryIndex
    coll.kernel with ⟨result, after⟩
  rw [outcome] at search next
  simp only at search next
  subst search
  simp only [Option.map_some, recordBytes_length, Nat.lt_irrefl, if_false,
    recordOf_recordBytes]
  exact ⟨trivial, served.setKernel next⟩

theorem removeEntries_spec
    (served : Served Fine coll leaves ids records) (runtime : Runtime)
    (order : Shuffle (SecondaryIndex σ)) {payload : Bytes}
    (stored : records recID = some payload) :
    Served Fine (coll.removeEntries runtime order recID) leaves ids
      records := by
  obtain ⟨found, next⟩ := ReopenedKernel.read_spec served.holds stored
  have none : order.arrange coll.secIndexes = [] := by
    have perm := order.perm coll.secIndexes
    rw [served.indexes] at perm ⊢
    exact perm.eq_nil
  unfold Collection.removeEntries
  rcases outcome : Kernel.readRecord recID coll.kernel with ⟨result, after⟩
  rw [outcome] at found next
  simp only at found next
  subst found
  simp only
  cases newDocumentView payload coll.dict with
  | error cause => exact served.setKernel next
  | ok view =>
      simp only [none, sweep]
      exact { served with indexes := rfl, holds := next }

theorem delete_spec
    (served : Served Fine coll leaves ids records)
    (runtime : Runtime) (order : Shuffle (SecondaryIndex σ))
    (found : ids id = some recID)
    (alone : ∀ other, ids other = some recID → other = id)
    (full : (leaves.without (encodeString id)).Full) :
    (coll.delete runtime order id).1 = .ok () ∧ ∃ later,
      Served Fine (coll.delete runtime order id).2
        (leaves.without (encodeString id)) (Function.update ids id none)
        later := by
  obtain ⟨finds, servedFound⟩ := served.find_spec found
  unfold Collection.delete
  rcases outcome : coll.find id with ⟨result, next⟩
  rw [outcome] at finds servedFound
  simp only at finds servedFound
  subst finds
  obtain ⟨payload, doc, stored, encoded, fine⟩ := servedFound.stored found
  have cleared := servedFound.removeEntries_spec runtime order stored
  have same := cleared.stored found
  obtain ⟨old, oldDoc, oldStored, oldEncoded, oldFine⟩ := same
  simp only
  generalize next.removeEntries runtime order recID = middle at *
  obtain ⟨done, erased⟩ :=
    ReopenedKernel.delete_spec (encodeString id) cleared.holds
  unfold PrimaryIndex.delete
  rcases erasing : Kernel.delete (encodeString id) middle.primaryIndex
    middle.kernel with ⟨result, tree, after⟩
  rw [erasing] at done erased
  simp only at done erased
  subst done
  obtain ⟨gone, later, others, final⟩ :=
    ReopenedKernel.delete_record erased oldStored
  simp only
  rcases removing : Kernel.deleteRecord recID after with ⟨result, last⟩
  rw [removing] at gone final
  simp only at gone final
  subst gone
  refine ⟨rfl, later, cleared.dict, cleared.indexes, cleared.schema, ?_, full,
    final, ?_⟩
  · rw [Leaves.keyMap_without]
    exact cleared.lists.delete id
  · intro other otherID listed
    have different : other ≠ id := by
      rintro rfl
      rw [Function.update_self] at listed
      cases listed
    rw [Function.update_of_ne different] at listed
    have apart : otherID ≠ recID := by
      rintro rfl
      exact different (alone other listed)
    rcases others otherID apart with kept | moved
    · obtain ⟨payload, doc, stored, rest⟩ := cleared.stored listed
      exact ⟨payload, doc, kept.trans stored, rest⟩
    · exact ⟨old, oldDoc, moved, oldEncoded, oldFine⟩

theorem insert_spec (served : Served Fine coll leaves ids records)
    {runtime : Runtime} {orders : Orders σ} {doc own : Cson.Document}
    {generated : Bytes}
    (named : Collection.identify runtime doc generated = (id, own))
    (fits : FitsFormat orders own coll)
    (fine : Fine (orders.fields.visit own))
    (done : ∃ result, (coll.insert runtime orders doc generated).1 =
      .ok result) :
    (coll.insert runtime orders doc generated).1 = .ok id ∧
      ∃ changed recID later,
        changed.keyMap = Function.update leaves.keyMap (encodeString id)
          (some (recordBytes recID)) ∧
        Served Fine (coll.insert runtime orders doc generated).2 changed
          (Function.update ids id (some recID)) later := by
  obtain ⟨result, done⟩ := done
  obtain ⟨total, affords⟩ := fits.affords
  have growth := affords.growth served.dict
  unfold Collection.insert at done ⊢
  rw [named] at done ⊢
  simp only [served.schema] at done ⊢
  rcases encodes : encode (orders.fields.visit own) coll.dict with
    ⟨outcome, grown⟩
  rw [encodes] at done growth
  cases outcome with
  | error cause => cases done
  | ok payload =>
      have encoded := affords.encoded encodes
      simp only [Collection.store] at done ⊢
      rcases writing : Kernel.writeRecord payload invalidRecordID coll.kernel
        with ⟨_ | recID, written⟩
      · rw [writing] at done
        cases done
      have next := ReopenedKernel.write_new served.holds (fits.short encodes)
        (by rw [writing])
      rw [writing] at next done
      simp only [PrimaryIndex.put] at next done ⊢
      rcases putting : Kernel.insert (encodeString id) (recordBytes recID)
        coll.primaryIndex written with ⟨result, tree, final⟩
      rw [putting] at done
      cases result with
      | error cause => cases done
      | ok _ =>
          obtain ⟨changed, put, full, holds⟩ :=
            ReopenedKernel.insert_spec next (by rw [putting])
          rw [putting] at holds
          simp only [Collection.enterNew, served.indexes, List.isEmpty_nil,
            if_true] at done ⊢
          refine ⟨trivial, changed, recID, _, put.keyMap_eq, growth.2,
            rfl, served.schema, ?_, full served.full, holds, ?_⟩
          · rw [put.keyMap_eq]
            exact served.lists.put id recID
          · intro other otherID listed
            by_cases own : otherID = recID
            · subst own
              exact ⟨payload, _, Function.update_self .., encoded, fine⟩
            · have different : other ≠ id := by
                rintro rfl
                rw [Function.update_self] at listed
                exact own (Option.some.inj listed).symm
              rw [Function.update_of_ne different] at listed
              obtain ⟨old, oldDoc, stored, before, oldFine⟩ :=
                served.stored listed
              refine ⟨old, oldDoc, ?_, before.grow growth.1, oldFine⟩
              rw [Function.update_of_ne own]
              exact stored

/-! ## The scan -/

structure Shows (Fine : Cson.Document → Prop) (dict : FieldDictionary)
    (ids : Bytes → Option RecordID) (records : RecordMap) (entry : LeafItem)
    (item : Item) : Prop where
  listed : ∃ id, entry.key = encodeString id ∧ ids id = some item.recID
  value : entry.value = recordBytes item.recID
  shown : ∃ payload doc, records item.recID = some payload ∧
    Encoded dict payload doc ∧ Fine doc ∧ item.view = viewOf dict payload

theorem shows (served : Served Fine coll leaves ids records)
    {entry : LeafItem} (member : entry ∈ leaves.flatten) :
    ∃ item, Shows Fine coll.dict ids records entry item := by
  have sorted : SortedItems leaves.flatten :=
    ReopenedKernel.sorted served.holds
  have bound : leaves.keyMap entry.key = some entry.value :=
    sorted.bindings_mem member
  obtain ⟨id, keyed⟩ := served.lists.only bound
  rw [keyed, served.lists.entry, Option.map_eq_some_iff] at bound
  obtain ⟨recID, listed, valued⟩ := bound
  obtain ⟨payload, doc, stored, encoded, fine⟩ := served.stored listed
  exact ⟨⟨viewOf coll.dict payload, recID⟩, ⟨id, keyed, listed⟩, valued.symm,
    payload, doc, stored, encoded, fine, rfl⟩

theorem Shows.itemOf_eq {dict : FieldDictionary} {entry : LeafItem}
    {item : Item} (shows : Shows Fine dict ids records entry item) :
    itemOf dict records (entry.key, entry.value) = some item := by
  obtain ⟨payload, doc, stored, encoded, _, view⟩ := shows.shown
  have long : ¬ (recordBytes item.recID).length < 8 := by
    rw [recordBytes_length]
    exact Nat.lt_irrefl 8
  simp only [itemOf, shows.value, if_neg long, recordOf_recordBytes, stored,
    newDocumentView_ok dict encoded.entry.1]
  rw [show (⟨payload, dict, fieldCountOf payload⟩ : DocumentView) = item.view
    from view.symm]

theorem scanNext_spec {dict : FieldDictionary} {tree : Kernel.Tree σ}
    {kernel : σ} (holds : ReopenedKernel.Holds kernel tree leaves records)
    (current : Option Item) {pair : Bytes × Bytes}
    {ahead : List (Bytes × Bytes)} {item : Item}
    (found : itemOf dict records pair = some item) :
    ∃ next, scanNext dict current (pair :: ahead) kernel =
        (true, ⟨ahead, next, some item⟩) ∧
      ReopenedKernel.Holds next tree leaves records := by
  obtain ⟨key, val⟩ := pair
  unfold itemOf at found
  split at found
  · cases found
  next long =>
  split at found
  · cases found
  next payload stored =>
  split at found
  · cases found
  next view viewed =>
  obtain ⟨read, next⟩ := ReopenedKernel.read_spec holds stored
  simp only [scanNext, if_neg long]
  rcases outcome : Kernel.readRecord (Index.recordOf val) kernel with
    ⟨result, after⟩
  rw [outcome] at read next
  simp only at read next
  subst read
  simp only [viewed]
  cases found
  exact ⟨after, rfl, next⟩

theorem scan_streams {dict : FieldDictionary} {tree : Kernel.Tree σ}
    {kernel : σ} (holds : ReopenedKernel.Holds kernel tree leaves records)
    {pairs : List (Bytes × Bytes)} {items : List Item}
    (found : List.Forall₂ (fun pair item =>
      itemOf dict records pair = some item) pairs items) :
    Pipeline.Streams ⟨collectionScan σ dict,
      (⟨pairs, kernel, none⟩ : ScanState σ)⟩ items := by
  refine ⟨fun state items =>
    ReopenedKernel.Holds state.kernel tree leaves records ∧
      List.Forall₂ (fun pair item => itemOf dict records pair = some item)
        state.ahead items, ?_, holds, found⟩
  constructor
  · rintro ⟨ahead, kernel, current⟩ item rest ⟨holds, found⟩
    cases found with
    | cons head tail =>
        obtain ⟨next, turn, after⟩ := scanNext_spec holds current head
        exact ⟨_, congrArg Outcome.ok turn, rfl, rfl, after, tail⟩
  · rintro ⟨ahead, kernel, current⟩ ⟨holds, found⟩
    cases found
    exact ⟨_, rfl, holds, .nil⟩
  · intro state items _
    rfl

end Served

def Collection.scan (coll : Collection σ) : Except DocumentError Pipeline :=
  match Kernel.scan coll.primaryIndex coll.kernel with
  | (.error cause, _) => .error (.storage cause)
  | (.ok pairs, next) =>
      .ok ⟨collectionScan σ coll.dict, (⟨pairs, next, none⟩ : ScanState σ)⟩

theorem forall₂_left {α β : Type} {rel : α → β → Prop} {items : List α}
    {others : List β} (related : List.Forall₂ rel items others) {other : β}
    (member : other ∈ others) : ∃ item ∈ items, rel item other := by
  induction related with
  | nil => cases member
  | @cons item head items others first rest ih =>
      rcases List.mem_cons.mp member with rfl | later
      · exact ⟨item, List.mem_cons_self .., first⟩
      · obtain ⟨found, listed, holds⟩ := ih later
        exact ⟨found, List.mem_cons_of_mem _ listed, holds⟩

theorem forall₂_choice {α β : Type} {rel : α → β → Prop} :
    ∀ {items : List α}, (∀ item ∈ items, ∃ other, rel item other) →
      ∃ others, List.Forall₂ rel items others
  | [], _ => ⟨[], .nil⟩
  | item :: rest, each => by
      obtain ⟨other, related⟩ := each item (List.mem_cons_self ..)
      obtain ⟨others, rests⟩ := forall₂_choice fun item member =>
        each item (List.mem_cons_of_mem _ member)
      exact ⟨other :: others, .cons related rests⟩

namespace Served

variable {coll : Collection σ} {leaves : Leaves}
  {ids : Bytes → Option RecordID} {records : RecordMap}

theorem scans (served : Served Fine coll leaves ids records)
    {setting : Setting} (lawful : LawfulSlice setting.slice)
    (enough : leaves.flatten.length < setting.fuel) :
    ∃ scan items, coll.scan = .ok scan ∧ Scans setting scan items ∧
      List.Forall₂ (Shows Fine coll.dict ids records) leaves.flatten
        items := by
  obtain ⟨items, related⟩ :=
    forall₂_choice fun entry member => served.shows member
  obtain ⟨scanned, next⟩ := ReopenedKernel.scan_spec served.holds
  rw [served.full.reach_eq] at scanned
  unfold Collection.scan
  rcases outcome : Kernel.scan coll.primaryIndex coll.kernel with
    ⟨result, after⟩
  rw [outcome] at scanned next
  simp only at scanned next
  subst scanned
  refine ⟨_, items, rfl, ⟨?_, ?_, lawful, ?_⟩, related⟩
  · apply scan_streams next
    rw [List.forall₂_map_left_iff]
    exact related.imp fun entry item shows => shows.itemOf_eq
  · intro item member
    obtain ⟨entry, _, shows⟩ := forall₂_left related member
    obtain ⟨payload, doc, _, encoded, _, view⟩ := shows.shown
    rw [view]
    exact readable_encoded encoded served.dict
  · rw [← related.length_eq]
    exact enough

theorem count (served : Served Fine coll leaves ids records)
    {live : Finset Bytes} (listed : ∀ id, id ∈ live ↔ ids id ≠ none) :
    leaves.flatten.length = live.card := by
  have sorted := ReopenedKernel.sorted served.holds
  have keys : (leaves.flatten.map LeafItem.key).Nodup :=
    List.pairwise_map.mpr (sorted.imp fun less => less.ne)
  have names : (live.toList.map encodeString).Nodup :=
    live.nodup_toList.map fun _ _ => encodeString_injective
  have perm : (leaves.flatten.map LeafItem.key).Perm
      (live.toList.map encodeString) := by
    rw [List.perm_ext_iff_of_nodup keys names]
    intro key
    rw [List.mem_map, List.mem_map]
    constructor
    · rintro ⟨entry, member, rfl⟩
      obtain ⟨item, ⟨id, keyed, known⟩, _, _⟩ := served.shows member
      refine ⟨id, Finset.mem_toList.mpr ((listed id).mpr ?_), keyed.symm⟩
      rw [known]
      exact Option.some_ne_none _
    · rintro ⟨id, member, rfl⟩
      obtain ⟨recID, known⟩ :=
        Option.ne_none_iff_exists'.mp
          ((listed id).mp (Finset.mem_toList.mp member))
      have bound := served.lists.entry id
      rw [known] at bound
      exact List.mem_map.mp (key_mem_of_bindings bound)
  have same := perm.length_eq
  rw [List.length_map, List.length_map, Finset.length_toList] at same
  exact same

end Served

end Served

end Document

end CocoDB
