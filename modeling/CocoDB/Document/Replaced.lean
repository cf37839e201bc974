import CocoDB.Document.Calls
import CocoDB.Document.Restored

/-!
# What is stored after an update

When `Replace` and `Update` return no error, the record of the document holds the
new payload.  `Replace` does not look at the errors of the indexes: the storage
must be one whose failed insertions change nothing.
-/

namespace CocoDB.Document

open Lib Cson Index SecondaryIndex LawfulKernel

section Replaced

variable {σ : Type} [Kernel σ] [SteadyKernel σ] {coll : Collection σ}
  {spare : Nat} {shape : Shape σ} {id payload : Bytes} {recID : RecordID}
  {runtime : Runtime}

/-! ## Entering without looking at errors -/

def Offered (runtime : Runtime) (dict : FieldDictionary) (payload : Bytes)
    (recID : RecordID) (before after : Mapped σ) : Prop :=
  Joined runtime dict payload recID before after ∨
    ∃ cause, Declined runtime dict payload recID before after cause

theorem Offered.definition {dict : FieldDictionary} {before after : Mapped σ}
    (offered : Offered runtime dict payload recID before after) :
    after.1.definition = before.1.definition := by
  rcases offered with joined | ⟨_, declined⟩
  · exact joined.definition
  · exact declined.definition

theorem Backed.addEntries_spec
    (backed : Backed coll (shape.indexes.length + spare) shape)
    (order : Shuffle (SecondaryIndex σ)) (recID : RecordID)
    (headed : WellHeaded payload) :
    ∃ arranged changed, arranged.Perm shape.indexes ∧
      List.Forall₂ (Offered runtime shape.contents.dict payload recID)
        arranged changed ∧
      Backed (coll.addEntries runtime order payload recID) spare
        { shape with indexes := changed } := by
  unfold Collection.addEntries
  rw [newDocumentView_ok coll.dict headed, backed.indexes, backed.dict]
  simp only
  obtain ⟨arranged, changed, perm, offered, sweepEq, final⟩ :=
    @sweep_shuffled _ _ _ Prod.fst
      (Owns (coll.primaryIndex, shape.primary) shape.contents.records)
      (fun index state => (SecondaryIndex.insert runtime
        ⟨payload, shape.contents.dict, fieldCountOf payload⟩ recID index
          state).2)
      (fun _ _ => True)
      (Offered runtime shape.contents.dict payload recID) (pool_owns _ _)
      (fun {_ mapped _ _} owns _ => by
        obtain ⟨leaves, final, ends⟩ := insert_ends runtime
          shape.contents.dict payload recID (owns_cons.mp owns)
        refine ⟨(_, leaves), rfl, ?_, owns_cons.mpr final⟩
        rcases ends with ⟨cause, _, declined⟩ | ⟨_, joined⟩
        · exact .inr ⟨cause, declined⟩
        · exact .inl joined)
      order shape.indexes spare coll.kernel backed.holds
      (sweepMeets_of_forall fun _ _ _ => trivial)
  exact ⟨arranged, changed, perm, offered, rfl, sweepEq, backed.lists,
    final⟩

/-! ## Storing under a known identifier -/

theorem Backed.store_old {old : Bytes} {newRecID : RecordID}
    (backed : Backed coll (payload.length + 1 + (spare + 1)) shape)
    (id : Bytes) (stored : shape.contents.records recID = some old)
    (short : payload.length < 2 ^ 32)
    (done : (coll.store id payload recID).1 = .ok newRecID) :
    newRecID = recID ∧ ∃ changed,
      Backed (coll.store id payload recID).2 spare
        { shape with
          contents := shape.contents.with id recID payload
          primary := changed } := by
  obtain ⟨wrote, next⟩ := write_old backed.holds stored short
  unfold Collection.store at done ⊢
  rcases outcome : Kernel.writeRecord payload recID coll.kernel with
    ⟨result, written⟩
  rw [outcome] at wrote next done
  simp only at wrote next
  subst wrote
  simp only at done ⊢
  rcases putting : PrimaryIndex.put id recID coll.primaryIndex written with
    ⟨result, tree, final⟩
  rw [putting] at done
  cases result with
  | error cause => cases done
  | ok _ =>
      cases done
      have held : Backed { coll with kernel := written } (spare + 1)
          { shape with contents := { shape.contents with
            records := Function.update shape.contents.records recID
              (some payload) } } :=
        ⟨backed.dict, backed.indexes, backed.lists, next⟩
      obtain ⟨changed, _, backedNow⟩ := held.put_spec id recID (by
        rw [putting])
      rw [putting] at backedNow
      exact ⟨rfl, changed, backedNow⟩

/-! ## The whole call -/

omit [SteadyKernel σ] in
theorem Backed.get_stored [LawfulKernel σ]
    (backed : Backed coll spare shape)
    (found : shape.contents.ids id = some recID)
    (stored : shape.contents.records recID = some payload)
    (headed : WellHeaded payload) :
    (coll.get id).1 = Collection.mapOf
      (CocoDB.Query.viewOf shape.contents.dict payload) := by
  obtain ⟨viewed, _, _⟩ := backed.getView_spec found stored headed
  unfold Collection.get
  rcases outcome : coll.getView id with ⟨result, after⟩
  rw [outcome] at viewed
  simp only at viewed
  subst viewed
  rfl

/-- The document is stored again in its record, and its entries follow as far
as the indexes take them. -/
structure Rewrites (runtime : Runtime) (id old payload : Bytes)
    (recID : RecordID) (grown : FieldDictionary) (before after : Shape σ) :
    Prop where
  grows : before.contents.dict.Extends grown
  wellFormed : grown.WellFormed
  contents_eq : after.contents =
    (before.contents.under grown).with id recID payload
  indexes : ∃ arranged cleared rearranged, arranged.Perm before.indexes ∧
    List.Forall₂ (Removed runtime before.contents.dict old recID) arranged
      cleared ∧
    rearranged.Perm cleared ∧
    List.Forall₂ (Offered runtime grown payload recID) rearranged
      after.indexes

section Rewrites

variable {old : Bytes} {grown : FieldDictionary} {after : Shape σ}

theorem Rewrites.live
    (rewrites : Rewrites runtime id old payload recID grown shape after) :
    after.contents.Live id recID payload := by
  rw [Contents.Live, rewrites.contents_eq]
  exact ⟨Function.update_self .., Function.update_self ..⟩

theorem Rewrites.dict_eq
    (rewrites : Rewrites runtime id old payload recID grown shape after) :
    after.contents.dict = grown := by
  rw [rewrites.contents_eq]
  rfl

end Rewrites

theorem Backed.replace_rewrites {total : Nat} {orders : Orders σ}
    {doc : Cson.Document} {old : Bytes} {oldDoc : Cson.Document}
    (backed : Backed coll total shape)
    (wellFormed : shape.contents.dict.WellFormed)
    (known : shape.contents.ids id = some recID)
    (stored : shape.contents.records recID = some old)
    (oldEncoded : Encoded shape.contents.dict old oldDoc)
    (affords : Affords orders (Collection.withID doc id) coll total spare)
    (done : (coll.replace runtime orders id doc).1 = .ok ()) :
    ∃ payload grown after,
      encode (orders.fields.visit (Collection.withID doc id)) coll.dict =
        (.ok payload, grown) ∧
      Encoded grown payload (orders.fields.visit (Collection.withID doc id)) ∧
      Rewrites runtime id old payload recID grown shape after ∧
      Backed (coll.replace runtime orders id doc).2 spare after := by
  rw [← backed.dict] at wellFormed
  obtain ⟨located, backedFound, schemaSame⟩ := backed.find_spec id
  rw [known] at located
  unfold Collection.replace at done ⊢
  rcases outcome : coll.find id with ⟨result, found⟩
  rw [outcome] at located backedFound schemaSame done
  simp only at located backedFound schemaSame
  subst located
  simp only at done ⊢
  cases schema : found.schema (Collection.withID doc id) with
  | some message =>
      rw [schema] at done
      cases done
  | none =>
      rw [schema] at done
      simp only [Collection.rewrite] at done ⊢
      obtain ⟨arranged, changed, perm, removed, cleared, _⟩ :=
        @Backed.removeEntries_spec σ _ _ found total shape runtime
          old recID backedFound orders.first stored oldEncoded.entry.1
      have dict : (found.removeEntries runtime orders.first
          recID).dict = coll.dict := by
        rw [cleared.dict, backed.dict]
      rw [dict] at done ⊢
      have growth := affords.growth wellFormed
      rcases encodes : encode (orders.fields.visit
        (Collection.withID doc id)) coll.dict with ⟨result, grown⟩
      rw [encodes] at done growth
      cases result with
      | error cause => cases done
      | ok payload =>
          have encoded := affords.encoded encodes
          obtain ⟨short, roomy⟩ := affords.roomy encodes
          have length : changed.length = shape.indexes.length := by
            rw [← removed.length_eq, perm.length_eq]
          rw [backed.indexes, List.length_map, ← length] at roomy
          have ready : Backed { found.removeEntries runtime orders.first
              recID with dict := grown }
              (payload.length + 1 + (changed.length + spare + 1))
              (Shape.under { shape with indexes := changed } grown) :=
            (cleared.under grown).fewer (by omega)
          simp only at done ⊢
          rcases storing : Collection.store id payload recID
            { found.removeEntries runtime orders.first recID with
              dict := grown } with ⟨result, next⟩
          rw [storing] at done
          cases result with
          | error cause => cases done
          | ok newRecID =>
              obtain ⟨same, primary, backedNow⟩ := ready.store_old id stored
                short (by rw [storing])
              rw [storing] at backedNow
              subst same
              obtain ⟨rearranged, indexes, again, offered, final⟩ :=
                @Backed.addEntries_spec σ _ _ next spare
                  ⟨_, primary, changed⟩ payload runtime backedNow
                  orders.second newRecID encoded.entry.1
              refine ⟨payload, grown, ⟨(shape.contents.under grown).with id
                newRecID payload, primary, indexes⟩, rfl, encoded, ⟨?_,
                growth.2, rfl, arranged, changed, rearranged, perm, removed,
                again, offered⟩, final⟩
              rw [← backed.dict]
              exact growth.1

structure StoresAs (orders : Orders σ) (coll : Collection σ) (id : Bytes)
    (doc : Cson.Document) (after : Collection σ) (payload : Bytes)
    (grown : FieldDictionary) : Prop where
  encoded : Encoded grown payload
    (orders.fields.visit (Collection.withID doc id))
  wellFormed : grown.WellFormed
  read : (after.get id).1 = Collection.mapOf (CocoDB.Query.viewOf grown payload)

theorem Backed.replace_done {total : Nat} {orders : Orders σ}
    {doc : Cson.Document} (backed : Backed coll total shape)
    (sound : shape.Sound runtime)
    (known : shape.contents.ids id = some recID)
    (affords : Affords orders (Collection.withID doc id) coll total spare)
    (done : (coll.replace runtime orders id doc).1 = .ok ()) :
    ∃ payload grown, StoresAs orders coll id doc
      (coll.replace runtime orders id doc).2 payload grown := by
  obtain ⟨old, stored⟩ := sound.stored known
  obtain ⟨_, oldEncoded⟩ := sound.written stored
  obtain ⟨payload, grown, after, _, encoded, rewrites, final⟩ :=
    backed.replace_rewrites sound.wellFormed known stored oldEncoded affords
      done
  refine ⟨payload, grown, encoded, rewrites.wellFormed, ?_⟩
  rw [final.get_stored rewrites.live.1 rewrites.live.2 encoded.entry.1,
    rewrites.dict_eq]

end Replaced

end CocoDB.Document
