import CocoDB.Document.Backed

/-!
# What the calls of a collection do

`Insert`, `Replace` and `Update`, put together from their parts.  Both may stop
after they have changed something: `Insert` takes the document out again when an
index refuses it, `Replace` leaves without the entries of the old document when
the new one cannot be encoded.
-/

namespace CocoDB.Document

open Lib Cson Index SecondaryIndex LawfulKernel

section Calls

variable {σ : Type} [Kernel σ]

/-- The call stays within what is left: the sizes fit the header of the format,
the numbers of fields last, and so do `total` writes of the storage, of which
`spare` remain. -/
structure Affords (orders : Orders σ) (doc : Cson.Document)
    (coll : Collection σ) (total spare : Nat) : Prop where
  compact : Compact (.object (orders.fields.visit doc))
  spacious : coll.dict.Spacious (names (.object (orders.fields.visit doc)))
  roomy : ∀ {payload grown},
    encode (orders.fields.visit doc) coll.dict = (.ok payload, grown) →
    payload.length < 2 ^ 32 ∧
      payload.length + coll.secIndexes.length + 2 + spare ≤ total

variable {runtime : Runtime} {orders : Orders σ} {doc : Cson.Document}
  {coll : Collection σ} {total spare : Nat} {shape : Shape σ}
  {id payload : Bytes} {grown : FieldDictionary}

theorem Affords.growth (affords : Affords orders doc coll total spare)
    (wellFormed : coll.dict.WellFormed) :
    coll.dict.Extends (encode (orders.fields.visit doc) coll.dict).2 ∧
      (encode (orders.fields.visit doc) coll.dict).2.WellFormed := by
  have growth := encode_grown (orders.fields.visit doc) coll.dict
  exact ⟨growth.extends, growth.wellFormed wellFormed affords.spacious⟩

theorem Affords.encoded (affords : Affords orders doc coll total spare)
    (encodes : encode (orders.fields.visit doc) coll.dict =
      (.ok payload, grown)) :
    Encoded grown payload (orders.fields.visit doc) := by
  have supported : Supported (.object (orders.fields.visit doc)) := by
    rw [← encode_succeeds _ coll.dict, encodes]
    exact succeeds_ok payload
  exact encoded_of_encode (valid_of_supported supported affords.compact)
    encodes (affords.roomy encodes).1

variable [SteadyKernel σ]

theorem Backed.under (backed : Backed coll spare shape)
    (later : FieldDictionary) :
    Backed { coll with dict := later } spare (shape.under later) :=
  ⟨rfl, backed.indexes, backed.lists, backed.holds⟩

/-! ## Insert -/

inductive Inserts (runtime : Runtime) (orders : Orders σ) (id : Bytes)
    (doc : Cson.Document) (coll : Collection σ) (spare : Nat)
    (shape : Shape σ) : Except DocumentError Bytes × Collection σ → Prop
  | rejected {message : Bytes} : coll.schema doc = some message →
      Inserts runtime orders id doc coll spare shape
        (.error (.schema message), coll)
  | unencoded {cause : CsonError} {grown : FieldDictionary} :
      coll.schema doc = none →
      encode (orders.fields.visit doc) coll.dict = (.error cause, grown) →
      Inserts runtime orders id doc coll spare shape
        (.error (.cson cause), { coll with dict := grown })
  | unstored {payload : Bytes} {grown : FieldDictionary} {recID : RecordID}
      {cause : Error} {after : Collection σ} :
      encode (orders.fields.visit doc) coll.dict = (.ok payload, grown) →
      shape.contents.records recID = none →
      Backed after spare ((shape.under grown).orphaned recID payload) →
      Inserts runtime orders id doc coll spare shape
        (.error (.storage cause), after)
  | stored {payload : Bytes} {grown : FieldDictionary} {recID : RecordID}
      {next : Collection σ} {middle : Shape σ}
      {result : Except DocumentError Bytes × Collection σ} :
      encode (orders.fields.visit doc) coll.dict = (.ok payload, grown) →
      StoredNew id payload recID (shape.under grown) middle →
      next.secIndexes = coll.secIndexes →
      EntersNew runtime orders.first id payload recID next spare middle
        result →
      Inserts runtime orders id doc coll spare shape result

theorem Backed.insert_spec (backed : Backed coll total shape)
    (generated : Bytes)
    (affords : Affords orders (Collection.identify runtime doc generated).2
      coll total spare) :
    Inserts runtime orders (Collection.identify runtime doc generated).1
      (Collection.identify runtime doc generated).2 coll spare shape
      (coll.insert runtime orders doc generated) := by
  unfold Collection.insert
  generalize Collection.identify runtime doc generated = identified at *
  obtain ⟨id, doc⟩ := identified
  simp only at affords ⊢
  cases schema : coll.schema doc with
  | some message => exact .rejected schema
  | none =>
      simp only
      rcases encodes : encode (orders.fields.visit doc) coll.dict with
        ⟨result, grown⟩
      cases result with
      | error cause => exact .unencoded schema encodes
      | ok payload =>
          have encoded := affords.encoded encodes
          obtain ⟨short, roomy⟩ := affords.roomy encodes
          rw [backed.indexes, List.length_map] at roomy
          have ready : Backed { coll with dict := grown }
              (payload.length + 1 + (shape.indexes.length + spare + 1))
              (shape.under grown) :=
            (backed.under grown).fewer (by omega)
          simp only
          obtain ⟨recID, fresh, either⟩ := ready.store_new id short
          rcases either with ⟨cause, failed, after⟩ | ⟨middle, done, stored,
            backedNow⟩
          · rcases outcome : Collection.store id payload invalidRecordID
              { coll with dict := grown } with ⟨result, next⟩
            rw [outcome] at failed after
            simp only at failed
            subst failed
            exact .unstored encodes fresh (after.fewer (by omega))
          · have sameIndexes : middle.indexes = shape.indexes :=
              stored.indexes_eq
            rw [← sameIndexes] at backedNow
            have ends := @Backed.enterNew_spec σ _ _ _ spare middle runtime
              payload backedNow orders.first id recID encoded.entry.1
            have listed : (Collection.store id payload invalidRecordID
                { coll with dict := grown }).2.secIndexes =
                coll.secIndexes := by
              rw [backedNow.indexes, sameIndexes, backed.indexes]
            rcases outcome : Collection.store id payload invalidRecordID
              { coll with dict := grown } with ⟨result, next⟩
            rw [outcome] at done ends listed
            simp only at done ends listed
            subst done
            exact .stored encodes stored listed ends

end Calls

section Replace

variable {σ : Type} [Kernel σ] [WillingKernel σ] {runtime : Runtime}
  {coll : Collection σ} {spare : Nat} {shape : Shape σ} {id payload : Bytes}
  {recID : RecordID}

inductive Replaces (runtime : Runtime) (orders : Orders σ) (id : Bytes)
    (doc : Cson.Document) (coll : Collection σ) (spare : Nat)
    (shape : Shape σ) : Except DocumentError Unit × Collection σ → Prop
  | missing {after : Collection σ} : shape.contents.ids id = none →
      Backed after spare shape →
      Replaces runtime orders id doc coll spare shape
        (.error .docNotFound, after)
  | rejected {message : Bytes} {after : Collection σ} :
      coll.schema (Collection.withID doc id) = some message →
      Backed after spare shape →
      Replaces runtime orders id doc coll spare shape
        (.error (.schema message), after)
  | unencoded {recID : RecordID} {payload : Bytes} {cause : CsonError}
      {grown : FieldDictionary} {arranged changed : List (Mapped σ)}
      {after : Collection σ} :
      shape.contents.Live id recID payload →
      coll.schema (Collection.withID doc id) = none →
      encode (orders.fields.visit (Collection.withID doc id)) coll.dict =
        (.error cause, grown) →
      arranged.Perm shape.indexes →
      List.Forall₂ (Removed runtime shape.contents.dict payload recID)
        arranged changed →
      Backed after spare
        (Shape.under { shape with indexes := changed } grown) →
      Replaces runtime orders id doc coll spare shape
        (.error (.cson cause), after)
  | done {after : Collection σ} :
      Replaces runtime orders id doc coll spare shape (.ok (), after)

omit [WillingKernel σ] in
theorem store_error {recID : RecordID} {cause : DocumentError}
    {after : Collection σ}
    (failed : coll.store id payload recID = (.error cause, after)) :
    ∃ reason, cause = .storage reason := by
  unfold Collection.store at failed
  split at failed
  · cases failed
    exact ⟨_, rfl⟩
  · split at failed
    · cases failed
      exact ⟨_, rfl⟩
    · cases failed

theorem Backed.store_again {old : Bytes}
    (backed : Backed coll (payload.length + 1 + (spare + 1)) shape)
    (known : shape.contents.ids id = some recID)
    (stored : shape.contents.records recID = some old)
    (short : payload.length < 2 ^ 32) :
    (coll.store id payload recID).1 = .ok recID := by
  obtain ⟨wrote, next⟩ := write_old backed.holds stored short
  unfold Collection.store
  rcases outcome : Kernel.writeRecord payload recID coll.kernel with
    ⟨result, written⟩
  rw [outcome] at wrote next
  simp only at wrote next
  subst wrote
  have entry : shape.primary.keyMap (encodeString id) =
      some (recordBytes recID) := by
    rw [backed.lists.entry, known, Option.map_some]
  have again := WillingKernel.insert_again next entry
    (recordBytes_length recID).le
  simp only [PrimaryIndex.put]
  rcases putting : Kernel.insert (encodeString id) (recordBytes recID)
    coll.primaryIndex written with ⟨result, tree, final⟩
  rw [putting] at again
  simp only at again
  subst again
  rfl

theorem Backed.replace_spec {total : Nat} {orders : Orders σ}
    {doc : Cson.Document} (backed : Backed coll total shape)
    (stored : shape.contents.Stored)
    (affords : Affords orders (Collection.withID doc id) coll total spare)
    (less : spare ≤ total) :
    Replaces runtime orders id doc coll spare shape
      (coll.replace runtime orders id doc) := by
  obtain ⟨located, backedFound, schemaSame⟩ := backed.find_spec id
  unfold Collection.replace
  rcases outcome : coll.find id with ⟨result, found⟩
  rw [outcome] at located backedFound schemaSame
  simp only at located backedFound schemaSame
  subst located
  cases known : shape.contents.ids id with
  | none => exact .missing known (backedFound.fewer less)
  | some recID =>
      simp only
      rw [schemaSame]
      cases schema : coll.schema (Collection.withID doc id) with
      | some message => exact .rejected schema (backedFound.fewer less)
      | none =>
          obtain ⟨payload, old, listed, encoded⟩ := stored known
          obtain ⟨arranged, changed, perm, removed, cleared, _⟩ :=
            @Backed.removeEntries_spec σ _ _ found total shape runtime
              payload recID backedFound orders.first listed encoded.entry.1
          have dict : (found.removeEntries runtime orders.first
              recID).dict = coll.dict := by
            rw [cleared.dict, backed.dict]
          simp only [Collection.rewrite]
          rw [dict]
          rcases encodes : encode (orders.fields.visit
            (Collection.withID doc id)) coll.dict with ⟨result, grown⟩
          cases result with
          | error cause =>
              exact .unencoded ⟨known, listed⟩ schema encodes perm removed
                ((cleared.under grown).fewer less)
          | ok newPayload =>
              obtain ⟨short, roomy⟩ := affords.roomy encodes
              have again := ((cleared.under grown).fewer (by omega :
                newPayload.length + 1 + (0 + 1) ≤ total)).store_again known
                listed short
              simp only
              rcases storing : Collection.store id newPayload recID
                { found.removeEntries runtime orders.first recID with
                  dict := grown } with ⟨result, next⟩
              rw [storing] at again
              simp only at again
              subst again
              exact .done

end Replace

end CocoDB.Document
