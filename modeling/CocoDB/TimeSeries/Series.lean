import CocoDB.Document.Rearranged
import CocoDB.Document.Reopening
import CocoDB.TimeSeries.Buckets
import CocoDB.TimeSeries.Points
import CocoDB.TimeSeries.Pruning

/-!
# Writing points

`timeseries.go`: `Write` and `WriteMany`, the identifiers that they return, and
how many points a query without bounds finds.
-/

namespace CocoDB.TimeSeries

open Lib BTree Cson CocoDB.Query Document
open Index (Runtime DocumentError encodeString)

/-! ## Points to write -/

/-- `Point` as it is written; the zero time is none, and the maps list their
entries as the loops over them do. -/
structure NewPoint where
  timestamp : Option Int64
  tags : List (Bytes × Bytes)
  fields : List (Bytes × Value)

/-- What a call of `writePoint` meets: the point and the time, how many points
other series have counted since the last one of this series, the orders of the
maps, and what `generateUUID` would return -/
structure PointCall (σ : Type) [Kernel σ] where
  point : NewPoint
  now : Int64
  meanwhile : UInt64
  orders : Orders σ
  generated : Bytes

/-- `when.UnixNano()` -/
def PointCall.nanos {σ : Type} [Kernel σ] (call : PointCall σ) : Int64 :=
  call.point.timestamp.getD call.now

def setFields (entries : List (Bytes × Value)) (doc : Cson.Document) :
    Cson.Document :=
  entries.foldl (fun doc entry => setField doc entry.1 entry.2) doc

/-- The document that `writePoint` inserts. -/
def newDocument (nanos : Int64) (seq : UInt64) (point : NewPoint) :
    Cson.Document :=
  let tags := point.tags.map fun tag =>
    (tagField tag.1, Value.scalar (.string tag.2))
  let fields := point.fields.map fun field => (fieldField field.1, field.2)
  setFields fields (setFields tags
    [(idField, .scalar (.string (pointID nanos seq))),
      (tsField, .scalar (.int64 nanos))])

section Write

variable {σ : Type} [Kernel σ] (runtime : Runtime)

/-- `writePoint`; the number is `timeSeriesSequence` -/
def writePoint (call : PointCall σ) (sequence : UInt64)
    (coll : Collection σ) :
    Except DocumentError Bytes × UInt64 × Collection σ :=
  let seq := sequence + 1
  let (result, next) := coll.insert runtime call.orders
    (newDocument call.nanos seq call.point) call.generated
  (result, seq, next)

/-- What a call returns, with the number and the collection after it. -/
structure WriteResult (σ : Type) [Kernel σ] where
  ids : List Bytes
  err : Option DocumentError
  sequence : UInt64
  coll : Collection σ

/-- `Write`, within its transaction -/
def write (call : PointCall σ) (sequence : UInt64) (coll : Collection σ) :
    WriteResult σ :=
  match writePoint runtime call (sequence + call.meanwhile) coll with
  | (.error cause, seq, next) => ⟨[], some cause, seq, next⟩
  | (.ok id, seq, next) => ⟨[id], none, seq, next⟩

/-- `WriteMany`, within its transaction -/
def writeMany : List (PointCall σ) → UInt64 → Collection σ → WriteResult σ
  | [], sequence, coll => ⟨[], none, sequence, coll⟩
  | call :: rest, sequence, coll =>
      match writePoint runtime call (sequence + call.meanwhile) coll with
      | (.error cause, seq, next) => ⟨[], some cause, seq, next⟩
      | (.ok id, seq, next) =>
          let written := writeMany rest seq next
          { written with ids := id :: written.ids }

theorem write_eq (call : PointCall σ) (sequence : UInt64)
    (coll : Collection σ) :
    write runtime call sequence coll =
      writeMany runtime [call] sequence coll := by
  simp only [write, writeMany]

def stampsOf : List (PointCall σ) → UInt64 → List (Int64 × UInt64)
  | [], _ => []
  | call :: rest, sequence =>
      let seq := sequence + call.meanwhile + 1
      (call.nanos, seq) :: stampsOf rest seq

def AllFit : List (PointCall σ) → UInt64 → Collection σ → Prop
  | [], _, _ => True
  | call :: rest, sequence, coll =>
      let seq := sequence + call.meanwhile + 1
      FitsFormat call.orders (newDocument call.nanos seq call.point) coll ∧
        AllFit rest seq
          (writePoint runtime call (sequence + call.meanwhile) coll).2.2

end Write

section Documents

variable {doc : Cson.Document} {entries : List (Bytes × Value)} {name : Bytes}

theorem lookup_setFields (others : ∀ entry ∈ entries, entry.1 ≠ name) :
    lookup (setFields entries doc) name = lookup doc name := by
  induction entries generalizing doc with
  | nil => rfl
  | cons entry rest inductionHypothesis =>
      obtain ⟨first, later⟩ := List.forall_mem_cons.mp others
      have next := @inductionHypothesis (setField doc entry.1 entry.2) later
      rw [lookup_setField, if_neg first.symm] at next
      exact next

theorem setFields_nodup (distinct : (doc.map Prod.fst).Nodup) :
    ((setFields entries doc).map Prod.fst).Nodup := by
  induction entries generalizing doc with
  | nil => exact distinct
  | cons entry rest inductionHypothesis =>
      exact inductionHypothesis (setField_nodup distinct _ _)

theorem newDocument_nodup (nanos : Int64) (seq : UInt64) (point : NewPoint) :
    ((newDocument nanos seq point).map Prod.fst).Nodup := by
  apply setFields_nodup
  apply setFields_nodup
  simp [idField, tsField]

theorem lookup_newDocument {nanos : Int64} {seq : UInt64} {point : NewPoint}
    (tags : ∀ key, tagField key ≠ name)
    (fields : ∀ key, fieldField key ≠ name) :
    lookup (newDocument nanos seq point) name =
      lookup [(idField, .scalar (.string (pointID nanos seq))),
        (tsField, .scalar (.int64 nanos))] name := by
  rw [newDocument, lookup_setFields, lookup_setFields]
  · intro entry member
    obtain ⟨tag, _, rfl⟩ := List.mem_map.mp member
    exact tags tag.1
  · intro entry member
    obtain ⟨field, _, rfl⟩ := List.mem_map.mp member
    exact fields field.1

theorem lookup_newDocument_id (nanos : Int64) (seq : UInt64)
    (point : NewPoint) : lookup (newDocument nanos seq point) idField =
      some (.scalar (.string (pointID nanos seq))) := by
  rw [lookup_newDocument]
  · rfl
  · intro key same
    simp [tagField, idField] at same
  · intro key same
    simp [fieldField, idField] at same

theorem lookup_newDocument_ts (nanos : Int64) (seq : UInt64)
    (point : NewPoint) : lookup (newDocument nanos seq point) tsField =
      some (.scalar (.int64 nanos)) := by
  rw [lookup_newDocument]
  · rfl
  · intro key same
    simp [tagField, tsField] at same
  · intro key same
    simp [fieldField, tsField] at same

/-- A document with the time and the identifier of a point. -/
structure IsStamped (doc : Cson.Document) : Prop where
  time : ∃ nanos, lookup doc tsField = some (.scalar (.int64 nanos))
  named : ∃ id, lookup doc idField = some (.scalar (.string id)) ∧ id ≠ []

theorem lookup_visit (order : Arrangement)
    (distinct : (doc.map Prod.fst).Nodup) {value : Scalar}
    (stored : lookup doc name = some (.scalar value)) :
    lookup (order.visit doc) name = some (.scalar value) := by
  have same := (order.same doc).lookup distinct name
  rw [stored] at same
  rcases found : lookup (order.visit doc) name with _ | other
  · rw [found] at same
    cases same
  · rw [found] at same
    cases same with
    | some rearranged =>
        cases rearranged
        rfl

theorem newDocument_stamped (order : Arrangement) (nanos : Int64)
    (seq : UInt64) (point : NewPoint) :
    IsStamped (order.visit (newDocument nanos seq point)) := by
  have distinct := newDocument_nodup nanos seq point
  constructor
  · exact ⟨nanos, lookup_visit order distinct
      (lookup_newDocument_ts nanos seq point)⟩
  · exact ⟨pointID nanos seq, lookup_visit order distinct
      (lookup_newDocument_id nanos seq point), pointID_ne_nil nanos seq⟩

theorem lookup_documentOf {dict : FieldDictionary} {payload : Bytes}
    (encoded : Encoded dict payload doc) (wellFormed : dict.WellFormed)
    {item : Item} (view : item.view = viewOf dict payload) {value : Scalar}
    (stored : lookup doc name = some (.scalar value)) :
    lookup (documentOf item) name = some (.scalar (widen value)) := by
  obtain ⟨map, mapped, _, fields⟩ := toMap_encoded encoded wellFormed
  rw [documentOf, view, mapped]
  simp only
  rw [fields name, stored, Option.bind_some, recovered_scalar]

end Documents

section Returns

variable {σ : Type} [Kernel σ] {runtime : Runtime} {coll : Collection σ}

theorem insert_returns {orders : Orders σ} {doc : Cson.Document}
    {generated id : Bytes}
    (done : (coll.insert runtime orders doc generated).1 = .ok id) :
    id = (Collection.identify runtime doc generated).1 := by
  unfold Collection.insert at done
  generalize Collection.identify runtime doc generated = named at *
  obtain ⟨name, own⟩ := named
  simp only at done ⊢
  split at done
  · cases done
  split at done
  · cases done
  split at done
  · cases done
  next recID next _ =>
  unfold Collection.enterNew at done
  split at done
  · exact (Except.ok.inj done).symm
  split at done
  · cases done
  split at done
  · cases done
  · exact (Except.ok.inj done).symm

variable (prints : ∀ text, runtime.sprint (.scalar (.string text)) = text)
include prints

theorem identify_newDocument (nanos : Int64) (seq : UInt64)
    (point : NewPoint) (generated : Bytes) :
    Collection.identify runtime (newDocument nanos seq point) generated =
      (pointID nanos seq, newDocument nanos seq point) := by
  unfold Collection.identify
  rw [lookup_newDocument_id]
  simp only [prints]

theorem writeMany_ids {calls : List (PointCall σ)} {sequence : UInt64}
    (done : (writeMany runtime calls sequence coll).err = none) :
    (writeMany runtime calls sequence coll).ids =
      (stampsOf calls sequence).map fun stamp =>
        pointID stamp.1 stamp.2 := by
  induction calls generalizing sequence coll with
  | nil => rfl
  | cons call rest inductionHypothesis =>
      have returned := @insert_returns σ _ runtime coll call.orders
        (newDocument call.nanos (sequence + call.meanwhile + 1) call.point)
        call.generated
      rw [identify_newDocument prints] at returned
      simp only [writeMany, writePoint] at done ⊢
      rcases outcome : coll.insert runtime call.orders
          (newDocument call.nanos (sequence + call.meanwhile + 1) call.point)
          call.generated with ⟨_ | id, next⟩
      · rw [outcome] at done
        cases done
      · rw [outcome] at done returned
        rw [stampsOf, List.map_cons, ← inductionHypothesis done, returned rfl]

end Returns

section Points

variable {σ : Type} [Kernel σ] [ReopenedKernel σ] {coll : Collection σ}
  {live : Finset Bytes}

def Holding (coll : Collection σ) (live : Finset Bytes) : Prop :=
  ∃ leaves ids records, Served IsStamped coll leaves ids records ∧
    ∀ id, id ∈ live ↔ ids id ≠ none

section Write

variable {runtime : Runtime} {sequence : UInt64}
  (prints : ∀ text, runtime.sprint (.scalar (.string text)) = text)
include prints

theorem Holding.writePoint (holding : Holding coll live)
    {call : PointCall σ} {id : Bytes}
    (fits : FitsFormat call.orders
      (newDocument call.nanos (sequence + 1) call.point) coll)
    (done : (writePoint runtime call sequence coll).1 = .ok id) :
    Holding (writePoint runtime call sequence coll).2.2 (insert id live) := by
  obtain ⟨leaves, ids, records, served, listed⟩ := holding
  have named := identify_newDocument prints call.nanos (sequence + 1)
    call.point call.generated
  obtain ⟨returned, changed, recID, later, _, after⟩ :=
    served.insert_spec named fits
      (newDocument_stamped call.orders.fields call.nanos (sequence + 1)
        call.point) ⟨id, done⟩
  have own : id = pointID call.nanos (sequence + 1) :=
    Except.ok.inj (done.symm.trans returned)
  refine ⟨changed, _, later, after, ?_⟩
  intro other
  rw [← own, Finset.mem_insert]
  by_cases same : other = id
  · subst same
    simp
  · rw [Function.update_of_ne same, listed other]
    simp [same]

theorem Holding.writeMany (holding : Holding coll live)
    {calls : List (PointCall σ)} (fit : AllFit runtime calls sequence coll)
    (done : (writeMany runtime calls sequence coll).err = none) :
    Holding (writeMany runtime calls sequence coll).coll
      (live ∪ (writeMany runtime calls sequence coll).ids.toFinset) := by
  induction calls generalizing sequence coll live with
  | nil =>
      simp only [TimeSeries.writeMany, List.toFinset_nil, Finset.union_empty]
      exact holding
  | cons call rest inductionHypothesis =>
      obtain ⟨fits, fit⟩ := fit
      have wrote := @Holding.writePoint σ _ _ coll live runtime
        (sequence + call.meanwhile) prints holding call
      simp only [TimeSeries.writeMany] at done ⊢
      rcases outcome : TimeSeries.writePoint runtime call
          (sequence + call.meanwhile) coll with ⟨_ | id, seq, next⟩
      · rw [outcome] at done
        cases done
      · have seqEq : seq = sequence + call.meanwhile + 1 := by
          have number := congrArg (fun result => result.2.1) outcome
          exact number.symm
        subst seqEq
        rw [outcome] at done fit wrote
        have after := inductionHypothesis (wrote fits rfl) fit done
        rw [List.toFinset_cons, Finset.union_insert, ← Finset.insert_union]
        exact after

end Write

/-! ## Queries -/

def everything : TimeQuery := ⟨none, none, [], 0, false⟩

theorem Holding.all (holding : Holding coll live) {setting : Setting}
    (lawful : LawfulSlice setting.slice) (enough : live.card < setting.fuel)
    (ofFloat : UInt64 → Int64) :
    ∃ scan points, coll.scan = .ok scan ∧
      everything.all ofFloat setting scan = .ok (points, none) ∧
      points.length = live.card := by
  obtain ⟨leaves, ids, records, served, listed⟩ := holding
  have counted := served.count listed
  obtain ⟨scan, items, scanned, scans, related⟩ :=
    served.scans lawful (by omega)
  obtain ⟨docs, found, perm⟩ := @documents_eq _ _ _ scans everything
    (Int.le_refl 0)
  have whole : everything.toQuery.filtered setting.runtime items = items := by
    simp [Query.filtered, everything, TimeQuery.toQuery, addTags, addBound,
      Query.orderBy, newQuery]
  rw [whole] at perm
  have points : ∀ doc ∈ docs, ∃ point,
      pointFromDocument ofFloat doc = some point := by
    intro doc member
    obtain ⟨item, inside, rfl⟩ := List.mem_map.mp (perm.mem_iff.mp member)
    obtain ⟨entry, _, shows⟩ := forall₂_left related inside
    obtain ⟨payload, stored, _, encoded, stamped, view⟩ := shows.shown
    obtain ⟨nanos, time⟩ := stamped.time
    have shown := lookup_documentOf encoded served.dict view time
    simp only [pointFromDocument, shown, Option.bind_some, widen, asInt64]
    exact ⟨_, rfl⟩
  refine ⟨scan, docs.filterMap (pointFromDocument ofFloat), scanned, ?_, ?_⟩
  · rw [TimeQuery.all, found]
    rfl
  · have all : (docs.filterMap (pointFromDocument ofFloat)).length =
        docs.length := by
      clear perm found
      induction docs with
      | nil => rfl
      | cons doc rest inductionHypothesis =>
          obtain ⟨first, later⟩ := List.forall_mem_cons.mp points
          obtain ⟨point, made⟩ := first
          rw [List.filterMap_cons, made]
          simp only [List.length_cons]
          rw [inductionHypothesis later]
    rw [all, perm.length_eq, List.length_map, ← related.length_eq, counted]

end Points

end CocoDB.TimeSeries
