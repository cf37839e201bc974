import CocoDB.Document.Updates

/-!
# Runs of calls

The calls that change a collection, and what they keep of what is known of each
index next to the documents.
-/

namespace CocoDB.Document

open Lib Cson Index SecondaryIndex LawfulKernel

section Calls

variable {σ : Type} [Kernel σ]

/-- The calls that change the documents of a collection. -/
inductive Call (σ : Type) [Kernel σ] where
  | insert (orders : Orders σ) (doc : Cson.Document) (generated : Bytes)
  | replace (orders : Orders σ) (id : Bytes) (doc : Cson.Document)
  | update (orders : Orders σ) (id : Bytes) (ops : List UpdateOp)
  | delete (order : Shuffle (SecondaryIndex σ)) (id : Bytes)

/-- The call, without the identifier that `Insert` returns. -/
def Call.perform (runtime : Runtime) (coll : Collection σ) :
    Call σ → Except DocumentError Unit × Collection σ
  | .insert orders doc generated =>
      match coll.insert runtime orders doc generated with
      | (.error cause, next) => (.error cause, next)
      | (.ok _, next) => (.ok (), next)
  | .replace orders id doc => coll.replace runtime orders id doc
  | .update orders id ops => coll.update runtime orders id ops
  | .delete order id => coll.delete runtime order id

/-- What the call writes stays within what is left. -/
def Call.Affordable (runtime : Runtime) (coll : Collection σ)
    (total spare : Nat) : Call σ → Prop
  | .insert orders doc generated =>
      Affords orders (Collection.identify runtime doc generated).2 coll total
        spare
  | .replace orders id doc =>
      Affords orders (Collection.withID doc id) coll total spare
  | .update orders id ops => ∀ doc, (coll.get id).1 = .ok doc →
      Affords orders (Collection.withID (ops.foldl (applyOp runtime) doc) id)
        coll total spare
  | .delete _ _ => spare + 1 ≤ total

def Collection.Stores (coll : Collection σ) (id : Bytes) (recID : RecordID)
    (payload : Bytes) : Prop :=
  (coll.find id).1 = .ok recID ∧
    (Kernel.readRecord recID coll.kernel).1 = .ok payload

/-- The entries that the new contents of a document have in some indexes find
room: the trees take the keys, and no other document has one of them in a unique
index. -/
def Collection.Rewritable (runtime : Runtime) (concerns : IndexDefinition → Prop)
    (coll : Collection σ) (orders : Orders σ) (id : Bytes)
    (doc : Cson.Document) : Prop :=
  ∀ recID payload grown, (coll.find id).1 = .ok recID →
    coll.schema (Collection.withID doc id) = none →
    encode (orders.fields.visit (Collection.withID doc id)) coll.dict =
      (.ok payload, grown) →
    ∀ index ∈ coll.secIndexes, concerns index.definition → ∀ key,
      index.definition.keyOf runtime grown payload recID = some key →
      key.length ≤ BTree.maxKeySize ∧
        (index.definition.unique = true →
          ∀ other otherID otherPayload,
            coll.Stores other otherID otherPayload → other ≠ id →
            index.definition.keyOf runtime coll.dict otherPayload otherID ≠
              some key)

def Call.Room (runtime : Runtime) (concerns : IndexDefinition → Prop)
    (coll : Collection σ) : Call σ → Prop
  | .replace orders id doc => coll.Rewritable runtime concerns orders id doc
  | .update orders id ops => ∀ doc, (coll.get id).1 = .ok doc →
      coll.Rewritable runtime concerns orders id
        (ops.foldl (applyOp runtime) doc)
  | _ => True

def Collection.created (dict : FieldDictionary)
    (schema : Cson.Document → Option Bytes) (kernel : σ)
    (definitions : List IndexDefinition) : Collection σ :=
  definitions.foldl (fun coll definition => coll.createIndex definition)
    ⟨dict, Kernel.newBTree, [], schema, kernel⟩

/-! ## What is stored -/

variable [LawfulKernel σ] {coll : Collection σ} {spare : Nat}
  {shape : Shape σ} {runtime : Runtime} {id payload : Bytes}
  {recID : RecordID}

theorem Backed.find_iff (backed : Backed coll spare shape) :
    (coll.find id).1 = .ok recID ↔ shape.contents.ids id = some recID := by
  rw [(backed.find_spec id).1]
  cases shape.contents.ids id with
  | none => simp
  | some found => simp

theorem Backed.stores_iff (backed : Backed coll spare shape)
    (stored : shape.contents.Stored) :
    coll.Stores id recID payload ↔ shape.contents.Live id recID payload := by
  rw [Collection.Stores, Contents.Live, backed.find_iff]
  apply and_congr_right
  intro known
  obtain ⟨old, _, listed, _⟩ := stored known
  rw [(read_spec backed.holds listed).1, listed, Except.ok.injEq,
    Option.some.injEq]

theorem holds_dropped {state : σ} {records : RecordMap}
    {left right : List (Kernel.Tree σ × Leaves)}
    (holds : Holds state spare (left ++ right) records) :
    Holds state spare right records := by
  induction left with
  | nil => exact holds
  | cons tree left inductionHypothesis =>
      exact inductionHypothesis (LawfulKernel.drop holds)

theorem Backed.createIndex (backed : Backed coll spare shape)
    (definition : IndexDefinition) :
    ∃ kept, (∀ mapped ∈ kept, mapped ∈ shape.indexes) ∧
      Backed (coll.createIndex definition) spare
        { shape with indexes := kept ++
          [(newSecondaryIndex (Collection.named definition), [])] } := by
  let apart : Mapped σ → Bool := fun mapped =>
    mapped.1.definition.name ≠ (Collection.named definition).name
  refine ⟨shape.indexes.filter apart, fun _ member =>
    (List.mem_filter.mp member).1, backed.dict, ?_, backed.lists, ?_⟩
  · simp only [Collection.createIndex, backed.indexes, List.filter_map,
      List.map_append]
    rfl
  · have perm := List.filter_append_perm apart shape.indexes
    have split : Holds coll.kernel spare
        ((shape.indexes.filter fun mapped => !apart mapped).map treeLeaves ++
          (coll.primaryIndex, shape.primary) ::
            (shape.indexes.filter apart).map treeLeaves)
        shape.contents.records := by
      refine LawfulKernel.perm ?_ backed.holds
      refine (List.Perm.cons _ ?_).trans List.perm_middle.symm
      rw [← List.map_append]
      exact (perm.symm.trans List.perm_append_comm).map treeLeaves
    refine LawfulKernel.perm ?_ (LawfulKernel.create (holds_dropped split))
    rw [List.map_append, ← List.cons_append]
    exact (List.perm_append_singleton _ _).symm

def Shape.release (shape : Shape σ) (id : Bytes) (recID : RecordID)
    (indexes : List (Mapped σ)) : Shape σ where
  contents := shape.contents.release id recID
  primary := shape.primary.without (encodeString id)
  indexes := indexes

theorem Backed.delete_spec (backed : Backed coll (spare + 1) shape)
    (stored : shape.contents.Stored) (order : Shuffle (SecondaryIndex σ))
    (id : Bytes) :
    (shape.contents.ids id = none ∧
        (coll.delete runtime order id).1 = .error .docNotFound ∧
        Backed (coll.delete runtime order id).2 (spare + 1) shape) ∨
      ∃ recID payload arranged changed,
        shape.contents.Live id recID payload ∧
        (coll.delete runtime order id).1 = .ok () ∧
        arranged.Perm shape.indexes ∧
        List.Forall₂ (Removed runtime shape.contents.dict payload recID)
          arranged changed ∧
        Backed (coll.delete runtime order id).2 spare
          (shape.release id recID changed) := by
  obtain ⟨located, backedFound, _⟩ := backed.find_spec id
  unfold Collection.delete
  rcases outcome : coll.find id with ⟨result, found⟩
  rw [outcome] at located backedFound
  simp only at located backedFound
  subst located
  cases known : shape.contents.ids id with
  | none => exact .inl ⟨rfl, rfl, backedFound⟩
  | some recID =>
      right
      obtain ⟨payload, doc, listed, encoded⟩ := stored known
      obtain ⟨arranged, changed, perm, removed, cleared, _⟩ :=
        @Backed.removeEntries_spec σ _ _ found _ shape runtime payload recID
          backedFound order listed encoded.entry.1
      obtain ⟨done, lists, next⟩ :=
        PrimaryIndex.delete_spec cleared.holds cleared.lists id
      refine ⟨recID, payload, arranged, changed, ⟨known, listed⟩, ?_⟩
      simp only
      generalize found.removeEntries runtime order recID = emptied at *
      rcases deleting : PrimaryIndex.delete id emptied.primaryIndex
        emptied.kernel with ⟨result, tree, after⟩
      rw [deleting] at done next
      simp only at done next
      subst done
      simp only
      obtain ⟨released, final⟩ := LawfulKernel.delete_record next listed
      rcases releasing : Kernel.deleteRecord recID after with ⟨result, last⟩
      rw [releasing] at released final
      simp only at released final
      subst released
      exact ⟨rfl, perm, removed, cleared.dict, cleared.indexes, lists, final⟩

end Calls

section Keeps

variable {σ : Type} [Kernel σ]

def definitionOf (mapped : Mapped σ) : IndexDefinition := mapped.1.definition

/-- What is known of an index, next to the documents. -/
abbrev Knowledge := IndexDefinition → Index.Contents → KeyMap → Prop

/-- Every document can be read, from a record of its own, and something is known
of each index. -/
structure Shape.Keeps (known : Knowledge) (definitions : List IndexDefinition)
    (shape : Shape σ) : Prop where
  wellFormed : shape.contents.dict.WellFormed
  stored : shape.contents.Stored
  separate : shape.contents.Separate
  defined : (shape.indexes.map definitionOf).Perm definitions
  each : ∀ mapped ∈ shape.indexes,
    known mapped.1.definition shape.contents mapped.2.keyMap

structure Admits (contents : Index.Contents) (id : Bytes) (recID : RecordID)
    (payload : Bytes) : Prop where
  missing : contents.ids id = none
  fresh : contents.records recID = none
  unused : contents.Unused recID
  encoded : ∃ doc, Encoded contents.dict payload doc

/-- What is known lasts when the dictionary grows, when a document goes with its
record and its entry, and when one comes.  An index that is of concern takes the
entry of a document, unless it has one that no document has any more. -/
structure Lasting (runtime : Runtime) (concerns : IndexDefinition → Prop)
    (known : Knowledge) : Prop where
  empty : ∀ definition dict records,
    known definition ⟨dict, fun _ => none, records⟩ fun _ => none
  under : ∀ {definition contents map later},
    known definition contents map → contents.Stored →
    contents.dict.WellFormed → contents.dict.Extends later →
    later.WellFormed → known definition (contents.under later) map
  remove : ∀ {definition contents map id recID payload},
    known definition contents map → contents.Separate →
    contents.Live id recID payload →
    known definition (contents.release id recID)
      (erase (definition.keyOf runtime contents.dict payload recID) map)
  store : ∀ {definition contents map id recID payload},
    known definition contents map → Admits contents id recID payload →
    (∀ key, definition.keyOf runtime contents.dict payload recID = some key →
      ¬ Taken definition recID map key) →
    known definition (contents.with id recID payload)
      (enter (definition.keyOf runtime contents.dict payload recID)
        (definition.entryValue recID) map)
  decline : ∀ {definition contents map id recID payload},
    known definition contents map → Admits contents id recID payload →
    (concerns definition → ∃ key value,
      definition.keyOf runtime contents.dict payload recID = some key ∧
      map key = some value ∧
      ∀ other otherID otherPayload,
        contents.Live other otherID otherPayload →
        definition.keyOf runtime contents.dict otherPayload otherID ≠
          some key) →
    known definition (contents.with id recID payload) map

variable {known : Knowledge} {runtime : Runtime}
  {concerns : IndexDefinition → Prop}
  {definitions : List IndexDefinition} {shape after : Shape σ}
  {id payload : Bytes} {recID : RecordID} {grown : FieldDictionary}
  {doc : Cson.Document} {arranged changed : List (Mapped σ)}

theorem defined_of_related {rel : Mapped σ → Mapped σ → Prop}
    (keeps : ∀ one two, rel one two → definitionOf two = definitionOf one)
    {indexes : List (Mapped σ)} (perm : arranged.Perm indexes)
    (related : List.Forall₂ rel arranged changed) :
    (changed.map definitionOf).Perm (indexes.map definitionOf) := by
  have same : changed.map definitionOf = arranged.map definitionOf :=
    map_eq_of_forall₂ (fun {one two} => keeps one two) related
  rw [same]
  exact perm.map _

theorem Shape.Keeps.under (lasting : Lasting runtime concerns known)
    (keeps : shape.Keeps known definitions)
    (grows : shape.contents.dict.Extends grown)
    (wellFormed : grown.WellFormed) :
    (shape.under grown).Keeps known definitions :=
  ⟨wellFormed, keeps.stored.under grows, keeps.separate, keeps.defined,
    fun mapped member => lasting.under (keeps.each mapped member) keeps.stored
      keeps.wellFormed grows wellFormed⟩

theorem Shape.Keeps.release (lasting : Lasting runtime concerns known)
    (keeps : shape.Keeps known definitions)
    (live : shape.contents.Live id recID payload)
    (perm : arranged.Perm shape.indexes)
    (removed : List.Forall₂
      (Removed runtime shape.contents.dict payload recID) arranged changed) :
    (shape.release id recID changed).Keeps known definitions := by
  refine ⟨keeps.wellFormed, keeps.stored.release keeps.separate live.1, ?_, ?_,
    ?_⟩
  · intro one two found first second
    exact keeps.separate (keeps.separate.ids_release live.1 first).2.1
      (keeps.separate.ids_release live.1 second).2.1
  · exact (defined_of_related (fun _ _ one => one.definition) perm
      removed).trans keeps.defined
  · refine forall_of_forall₂ (fun {before after} one each => ?_) removed
      fun mapped member => keeps.each mapped (perm.mem_iff.mp member)
    rw [one.definition, one.keyMap_eq]
    exact lasting.remove each keeps.separate live

theorem Shape.Keeps.admits (keeps : shape.Keeps known definitions)
    (missing : shape.contents.ids id = none)
    (fresh : shape.contents.records recID = none)
    (encoded : Encoded shape.contents.dict payload doc) :
    Admits shape.contents id recID payload :=
  ⟨missing, fresh, keeps.stored.unused fresh, doc, encoded⟩

theorem Shape.Keeps.with (keeps : shape.Keeps known definitions)
    (admits : Admits shape.contents id recID payload)
    (contents_eq : after.contents = shape.contents.with id recID payload)
    {rel : Mapped σ → Mapped σ → Prop}
    (same : ∀ one two, rel one two → definitionOf two = definitionOf one)
    (perm : arranged.Perm shape.indexes)
    (related : List.Forall₂ rel arranged after.indexes)
    (carries : ∀ {one two}, one ∈ shape.indexes → rel one two →
      known one.1.definition shape.contents one.2.keyMap →
      known two.1.definition (shape.contents.with id recID payload)
        two.2.keyMap) :
    after.Keeps known definitions := by
  refine ⟨?_, ?_, ?_, ?_, ?_⟩
  · rw [contents_eq]
    exact keeps.wellFormed
  · obtain ⟨doc, encoded⟩ := admits.encoded
    rw [contents_eq]
    exact keeps.stored.with encoded
  · rw [contents_eq]
    exact keeps.separate.with fun other listed =>
      admits.unused other (Contents.ids_without.mp listed).2
  · exact (defined_of_related same perm related).trans keeps.defined
  · rw [contents_eq]
    refine forall_of_forall₂ (fun {one two} both each => ?_)
      ((List.forall₂_and_left _ _).mpr
        ⟨fun mapped member => perm.mem_iff.mp member, related⟩)
      fun mapped member => keeps.each mapped (perm.mem_iff.mp member)
    exact carries both.1 both.2 each

theorem Shape.Keeps.without (keeps : shape.Keeps known definitions)
    (id : Bytes)
    (each : ∀ mapped ∈ shape.indexes, known mapped.1.definition
      (shape.contents.without id) mapped.2.keyMap) :
    Shape.Keeps known definitions
      { shape with contents := shape.contents.without id } :=
  ⟨keeps.wellFormed, keeps.stored.without id, keeps.separate.without id,
    keeps.defined, each⟩

end Keeps

section Steps

variable {σ : Type} [Kernel σ] [WillingKernel σ] {known : Knowledge}
  {runtime : Runtime} {concerns : IndexDefinition → Prop}
  {definitions : List IndexDefinition} {shape : Shape σ} {id : Bytes}
  {recID : RecordID} {doc : Cson.Document} {coll : Collection σ}
  {total spare : Nat} {orders : Orders σ}

theorem Shape.Keeps.insert (lasting : Lasting runtime concerns known)
    (keeps : shape.Keeps known definitions) (backed : Backed coll total shape)
    (affords : Affords orders doc coll total spare)
    (alone : ∀ mapped ∈ shape.indexes, known mapped.1.definition
      (shape.contents.without id) mapped.2.keyMap)
    {inserted : Bytes} {next : Collection σ}
    (ends : Inserts runtime orders id doc coll spare shape
      (.ok inserted, next)) :
    ∃ after, Backed next spare after ∧ after.Keeps known definitions := by
  have wellFormed := keeps.wellFormed
  rw [← backed.dict] at wellFormed
  have growth := affords.growth wellFormed
  cases ends with
  | @stored payload grown recID _ middle _ encodes stored _ enters =>
      rw [encodes, backed.dict] at growth
      have contents := stored.contents_eq
      cases enters with
      | @entered arranged changed _ perm joined final =>
          rw [contents] at joined
          rw [stored.indexes_eq] at perm
          have others := (keeps.without id alone).under lasting growth.1
            growth.2
          have admits := others.admits (Function.update_self ..) stored.fresh
            (affords.encoded encodes)
          refine ⟨_, final, others.with admits ?_
            (fun _ _ one => one.definition) perm joined ?_⟩
          · rw [contents]
            exact Contents.without_with.symm
          · intro one two _ entered each
            rw [entered.definition, entered.keyMap_eq]
            exact lasting.store each admits entered.free

/-- The entries that the new contents of a document have find room. -/
def Shape.Rewritable (runtime : Runtime) (concerns : IndexDefinition → Prop)
    (shape : Shape σ) (orders : Orders σ) (id : Bytes) (doc : Cson.Document)
    (recID : RecordID) : Prop :=
  ∀ payload grown,
    encode (orders.fields.visit (Collection.withID doc id))
      shape.contents.dict = (.ok payload, grown) →
    ∀ mapped ∈ shape.indexes, concerns mapped.1.definition → ∀ key,
      mapped.1.definition.keyOf runtime grown payload recID = some key →
      key.length ≤ BTree.maxKeySize ∧
        (mapped.1.definition.unique = true →
          ∀ other otherID otherPayload,
            shape.contents.Live other otherID otherPayload → other ≠ id →
            mapped.1.definition.keyOf runtime shape.contents.dict
              otherPayload otherID ≠ some key)

theorem Backed.rewritable (backed : Backed coll spare shape)
    (stored : shape.contents.Stored)
    (known : shape.contents.ids id = some recID)
    (schema : coll.schema (Collection.withID doc id) = none)
    (rewritable : coll.Rewritable runtime concerns orders id doc) :
    shape.Rewritable runtime concerns orders id doc recID := by
  intro payload grown encodes mapped member concern key keyed
  rw [← backed.dict] at encodes ⊢
  have listed : mapped.1 ∈ coll.secIndexes := by
    rw [backed.indexes]
    exact List.mem_map_of_mem member
  obtain ⟨short, alone⟩ := rewritable recID payload grown
    (backed.find_iff.mpr known) schema encodes mapped.1 listed concern key keyed
  exact ⟨short, fun unique other otherID otherPayload live =>
    alone unique other otherID otherPayload
      ((backed.stores_iff stored).mpr live)⟩

theorem Backed.replace_known (backed : Backed coll spare shape)
    (done : (coll.replace runtime orders id doc).1 = .ok ()) :
    (∃ recID, shape.contents.ids id = some recID) ∧
      coll.schema (Collection.withID doc id) = none := by
  obtain ⟨located, _, same⟩ := backed.find_spec id
  unfold Collection.replace at done
  rcases outcome : coll.find id with ⟨result, found⟩
  rw [outcome] at located done same
  simp only at located same
  subst located
  cases known : shape.contents.ids id with
  | none =>
      rw [known] at done
      cases done
  | some recID =>
      rw [known] at done
      simp only [same] at done
      cases schema : coll.schema (Collection.withID doc id) with
      | none => exact ⟨⟨recID, rfl⟩, rfl⟩
      | some message =>
          rw [schema] at done
          cases done

theorem Shape.Keeps.replace (lasting : Lasting runtime concerns known)
    (keeps : shape.Keeps known definitions) (backed : Backed coll total shape)
    (found : shape.contents.ids id = some recID)
    (rewritable : shape.Rewritable runtime concerns orders id doc recID)
    (affords : Affords orders (Collection.withID doc id) coll total spare)
    (done : (coll.replace runtime orders id doc).1 = .ok ()) :
    ∃ after, Backed (coll.replace runtime orders id doc).2 spare after ∧
      after.Keeps known definitions := by
  obtain ⟨old, oldDoc, stored, oldEncoded⟩ := keeps.stored found
  obtain ⟨payload, grown, after, encodes, encoded, rewrites, final⟩ :=
    backed.replace_rewrites keeps.wellFormed found stored oldEncoded affords
      done
  rw [backed.dict] at encodes
  obtain ⟨arranged, cleared, rearranged, perm, removed, again, offered⟩ :=
    rewrites.indexes
  have gone := keeps.release lasting ⟨found, stored⟩ perm removed
  have others := gone.under lasting rewrites.grows rewrites.wellFormed
  have admits := others.admits (Function.update_self ..)
    (Function.update_self ..) encoded
  refine ⟨after, final, others.with admits ?_
    (fun _ _ one => one.definition) again offered ?_⟩
  · rw [rewrites.contents_eq]
    exact Contents.release_with.symm
  · intro one two member entered each
    rcases entered with joined | ⟨cause, declined⟩
    · rw [joined.definition, joined.keyMap_eq]
      exact lasting.store each admits joined.free
    · rw [declined.definition, declined.keyMap_eq]
      refine lasting.decline each admits fun concern => ?_
      obtain ⟨key, keyed, hinders⟩ := declined.hinders
      -- the index was there before
      obtain ⟨original, listed, same⟩ := List.mem_map.mp
        ((gone.defined.trans keeps.defined.symm).mem_iff.mp
          (List.mem_map_of_mem member))
      have own : original.1.definition = one.1.definition := same
      rw [← own] at concern
      obtain ⟨short, alone⟩ := rewritable payload grown encodes original
        listed concern key (by rw [own]; exact keyed)
      cases hinders with
      | failed refuses => exact absurd (WillingKernel.accepts short) refuses
      | taken taken =>
          obtain ⟨unique, value, kept, _⟩ := taken
          refine ⟨key, value, keyed, kept, ?_⟩
          intro other otherID otherPayload live
          obtain ⟨different, before⟩ := Contents.live_without.mp
            ((keeps.separate.live_release found).mpr live)
          have later : original.1.definition.keyOf runtime grown
                otherPayload otherID =
              original.1.definition.keyOf runtime shape.contents.dict
                otherPayload otherID :=
            keeps.stored.keyOf_eq keeps.wellFormed rewrites.grows
              rewrites.wellFormed before
          have here := alone (by rw [own]; exact unique) other otherID
            otherPayload before different
          rw [← later, own] at here
          exact here

theorem Shape.Keeps.delete (lasting : Lasting runtime concerns known)
    (keeps : shape.Keeps known definitions)
    (backed : Backed coll (spare + 1) shape)
    (order : Shuffle (SecondaryIndex σ))
    (done : (coll.delete runtime order id).1 = .ok ()) :
    ∃ after, Backed (coll.delete runtime order id).2 spare after ∧
      after.Keeps known definitions := by
  rcases @Backed.delete_spec _ _ _ _ _ _ runtime backed keeps.stored order
    id with ⟨_, missing, _⟩ | ⟨recID, payload, arranged, changed, live, _,
      perm, removed, final⟩
  · rw [missing] at done
    cases done
  · exact ⟨_, final, keeps.release lasting live perm removed⟩

theorem Shape.Keeps.perform (lasting : Lasting runtime concerns known)
    (keeps : shape.Keeps known definitions) (backed : Backed coll total shape)
    (call : Call σ) (affordable : call.Affordable runtime coll total spare)
    (room : call.Room runtime concerns coll)
    (alone : ∀ orders doc generated, call = .insert orders doc generated →
      ∀ mapped ∈ shape.indexes, known mapped.1.definition
        (shape.contents.without (Collection.identify runtime doc generated).1)
        mapped.2.keyMap)
    {next : Collection σ} (done : call.perform runtime coll = (.ok (), next)) :
    ∃ after, Backed next spare after ∧ after.Keeps known definitions := by
  cases call with
  | insert orders doc generated =>
      have ends := backed.insert_spec generated affordable
      simp only [Call.perform] at done
      rcases outcome : coll.insert runtime orders doc generated with
        ⟨result, later⟩
      rw [outcome] at done ends
      cases result with
      | error cause => cases done
      | ok inserted =>
          cases done
          exact keeps.insert lasting backed affordable (alone _ _ _ rfl) ends
  | replace orders id doc =>
      have success := congrArg Prod.fst done
      obtain ⟨⟨recID, found⟩, schema⟩ := backed.replace_known success
      obtain ⟨after, final, keepsNow⟩ := keeps.replace lasting backed found
        (backed.rewritable keeps.stored found schema room) affordable success
      have same : (coll.replace runtime orders id doc).2 = next :=
        congrArg Prod.snd done
      rw [same] at final
      exact ⟨after, final, keepsNow⟩
  | update orders id ops =>
      obtain ⟨got, backedNext, same⟩ := backed.get_spec keeps.stored id
      simp only [Call.perform, Collection.update] at done
      rcases outcome : coll.get id with ⟨result, later⟩
      rw [outcome] at done backedNext got same
      cases result with
      | error cause => cases done
      | ok doc =>
          simp only at done backedNext
          have read : (coll.get id).1 = .ok doc := by rw [outcome]
          have success := congrArg Prod.fst done
          obtain ⟨⟨recID, found⟩, schema⟩ := backedNext.replace_known success
          rw [show later.schema = coll.schema from same] at schema
          obtain ⟨after, final, keepsNow⟩ := keeps.replace lasting backedNext
            found (backed.rewritable keeps.stored found schema
              (room doc read)) ((affordable doc read).after backed backedNext)
            success
          have same : (later.replace runtime orders id
              (ops.foldl (applyOp runtime) doc)).2 = next :=
            congrArg Prod.snd done
          rw [same] at final
          exact ⟨after, final, keepsNow⟩
  | delete order id =>
      obtain ⟨after, final, keepsNow⟩ := keeps.delete lasting
        (backed.fewer affordable) order (congrArg Prod.fst done)
      have same : (coll.delete runtime order id).2 = next :=
        congrArg Prod.snd done
      rw [same] at final
      exact ⟨after, final, keepsNow⟩

theorem created_keeps (lasting : Lasting runtime concerns known)
    {kernel : σ} {records : RecordMap}
    (dict : FieldDictionary) (schema : Cson.Document → Option Bytes)
    (definitions : List IndexDefinition) (wellFormed : dict.WellFormed)
    (holds : Holds kernel total [] records) :
    ∃ shape, Backed (Collection.created dict schema kernel definitions) total
        shape ∧
      shape.Keeps known
        ((Collection.created dict schema kernel definitions).secIndexes.map
          SecondaryIndex.definition) := by
  have registered : ∀ {coll : Collection σ} {shape : Shape σ},
      Backed coll total shape → shape.contents.dict.WellFormed →
      shape.contents.ids = (fun _ => none) →
      (∀ mapped ∈ shape.indexes, mapped.2 = []) →
      ∃ later, Backed (definitions.foldl
          (fun coll definition => coll.createIndex definition) coll) total
          later ∧
        later.contents.dict.WellFormed ∧
        later.contents.ids = (fun _ => none) ∧
        ∀ mapped ∈ later.indexes, mapped.2 = [] := by
    induction definitions with
    | nil =>
        exact fun backed sound empty bare => ⟨_, backed, sound, empty, bare⟩
    | cons definition rest inductionHypothesis =>
        intro coll shape backed sound empty bare
        obtain ⟨kept, listed, created⟩ := backed.createIndex definition
        refine inductionHypothesis created sound empty fun mapped member => ?_
        rcases List.mem_append.mp member with old | new
        · exact bare mapped (listed mapped old)
        · rw [List.mem_singleton.mp new]
  obtain ⟨shape, backed, sound, empty, bare⟩ := @registered
    ⟨dict, Kernel.newBTree, [], schema, kernel⟩
    ⟨⟨dict, fun _ => none, records⟩, [], []⟩
    ⟨rfl, rfl, PrimaryIndex.lists_empty, LawfulKernel.create holds⟩
    wellFormed rfl (fun _ member => nomatch member)
  refine ⟨shape, backed, sound, ?_, ?_, ?_, ?_⟩
  · intro id recID listed
    rw [empty] at listed
    cases listed
  · intro id other recID listed
    rw [empty] at listed
    cases listed
  · rw [Collection.created, backed.indexes, List.map_map]
    exact .refl _
  · intro mapped member
    rw [bare mapped member]
    have same : shape.contents =
        ⟨shape.contents.dict, fun _ => none, shape.contents.records⟩ := by
      rw [← empty]
    rw [same]
    exact lasting.empty _ _ _

end Steps

end CocoDB.Document
