import CocoDB.Document.Exactness

/-!
# Unique keys

What a unique index that was there before the first document enforces, also when
calls fail.  It may have entries that no document has any more, but a document
with a key always finds an entry under it.
-/

namespace CocoDB.Document

open Lib Cson Index SecondaryIndex LawfulKernel

section Guarded

variable {runtime : Runtime} {definition : IndexDefinition}
  {contents others : Index.Contents} {map later : KeyMap} {id payload : Bytes}
  {recID : RecordID} {grown : FieldDictionary}

/-- Every entry is that of a record, every document with a key has an entry
under it, and no two documents have the same key. -/
structure Guarded (runtime : Runtime) (definition : IndexDefinition)
    (contents : Index.Contents) (map : KeyMap) : Prop where
  sourced : ∀ ⦃key value⦄, map key = some value →
    ∃ recID payload doc, contents.records recID = some payload ∧
      Encoded contents.dict payload doc ∧
      definition.keyOf runtime contents.dict payload recID = some key ∧
      value = definition.entryValue recID
  guarded : ∀ ⦃id recID payload key⦄, contents.Live id recID payload →
    definition.keyOf runtime contents.dict payload recID = some key →
    ∃ value, map key = some value
  distinct : ∀ ⦃one two oneID twoID first second key⦄,
    contents.Live one oneID first → contents.Live two twoID second →
    definition.keyOf runtime contents.dict first oneID = some key →
    definition.keyOf runtime contents.dict second twoID = some key →
    one = two

def Unique (runtime : Runtime) : Knowledge := fun definition contents map =>
  definition.unique = true → Guarded runtime definition contents map

theorem Guarded.mono (guarded : Guarded runtime definition contents map)
    (dict : others.dict = contents.dict)
    (live : ∀ {id recID payload}, others.Live id recID payload →
      contents.Live id recID payload)
    (records : ∀ {recID payload key}, contents.records recID = some payload →
      definition.keyOf runtime contents.dict payload recID = some key →
      (∃ value, map key = some value) → others.records recID = some payload) :
    Guarded runtime definition others map := by
  refine ⟨fun key value listed => ?_, fun id recID payload key stored => ?_,
    fun one two oneID twoID first second key here there => ?_⟩
  · obtain ⟨recID, payload, doc, stored, encoded, keyed, valued⟩ :=
      guarded.sourced listed
    rw [dict]
    exact ⟨recID, payload, doc, records stored keyed ⟨value, listed⟩, encoded,
      keyed, valued⟩
  · rw [dict]
    exact guarded.guarded (live stored)
  · rw [dict]
    exact guarded.distinct (live here) (live there)

theorem Guarded.without (guarded : Guarded runtime definition contents map)
    (id : Bytes) : Guarded runtime definition (contents.without id) map :=
  guarded.mono rfl (fun live => (Contents.live_without.mp live).2)
    fun stored _ _ => stored

theorem Guarded.orphan (guarded : Guarded runtime definition contents map)
    (fresh : contents.records recID = none) (unused : contents.Unused recID) :
    Guarded runtime definition
      { contents with
        records := Function.update contents.records recID (some payload) }
      map := by
  refine guarded.mono rfl (fun {id found old} live => ?_)
    fun {found old key} stored _ _ => ?_
  · have apart : found ≠ recID := by
      rintro rfl
      exact unused id live.1
    exact ⟨live.1, (Function.update_of_ne apart ..).symm.trans live.2⟩
  · have apart : found ≠ recID := by
      rintro rfl
      rw [fresh] at stored
      cases stored
    exact (Function.update_of_ne apart ..).trans stored

theorem Guarded.under (guarded : Guarded runtime definition contents map)
    (stored : contents.Stored) (wellFormed : contents.dict.WellFormed)
    (grows : contents.dict.Extends grown) (grownFormed : grown.WellFormed) :
    Guarded runtime definition (contents.under grown) map := by
  have same : ∀ {id recID payload}, contents.Live id recID payload →
      definition.keyOf runtime grown payload recID =
        definition.keyOf runtime contents.dict payload recID :=
    fun live => stored.keyOf_eq wellFormed grows grownFormed live
  refine ⟨fun key value listed => ?_, fun id recID payload key live keyed => ?_,
    fun one two oneID twoID first second key here there keyed other => ?_⟩
  · obtain ⟨recID, payload, doc, kept, encoded, keyed, valued⟩ :=
      guarded.sourced listed
    refine ⟨recID, payload, doc, kept, encoded.grow grows, ?_, valued⟩
    rw [← keyed]
    exact keyOf_grow encoded wellFormed grows grownFormed recID
  · exact guarded.guarded live ((same live).symm.trans keyed)
  · exact guarded.distinct here there ((same here).symm.trans keyed)
      ((same there).symm.trans other)

theorem Guarded.remove (guarded : Guarded runtime definition contents map)
    (separate : contents.Separate) (live : contents.Live id recID payload) :
    Guarded runtime definition (contents.release id recID)
      (erase (definition.keyOf runtime contents.dict payload recID) map) := by
  have erased : ∀ {key value},
      erase (definition.keyOf runtime contents.dict payload recID) map key =
        some value →
      map key = some value ∧
        definition.keyOf runtime contents.dict payload recID ≠ some key := by
    intro key value listed
    cases keyed : definition.keyOf runtime contents.dict payload recID with
    | none =>
        rw [keyed] at listed
        exact ⟨listed, fun clash => nomatch clash⟩
    | some removed =>
        rw [keyed] at listed
        by_cases same : key = removed
        · subst same
          simp only [erase, Function.update_self] at listed
          cases listed
        · simp only [erase, Function.update_of_ne same] at listed
          exact ⟨listed, fun equal => same (Option.some.inj equal).symm⟩
  have alone : Guarded runtime definition (contents.without id)
      (erase (definition.keyOf runtime contents.dict payload recID) map) := by
    refine ⟨fun key value listed => guarded.sourced (erased listed).1,
      fun other otherID otherPayload key found keyed => ?_,
      (guarded.without id).distinct⟩
    obtain ⟨different, otherLive⟩ := Contents.live_without.mp found
    obtain ⟨value, listed⟩ := guarded.guarded otherLive keyed
    cases own : definition.keyOf runtime contents.dict payload recID with
    | none => exact ⟨value, listed⟩
    | some removed =>
        have apart : key ≠ removed := by
          rintro rfl
          exact different (guarded.distinct otherLive live keyed own)
        exact ⟨value, (Function.update_of_ne apart ..).trans listed⟩
  refine alone.mono rfl (separate.live_release live.1).mpr
    fun {found old key} stored keyed listed => ?_
  have apart : found ≠ recID := by
    rintro rfl
    have same : old = payload := Option.some.inj (stored.symm.trans live.2)
    obtain ⟨value, listed⟩ := listed
    rw [same] at keyed
    exact (erased listed).2 keyed
  exact (Function.update_of_ne apart ..).trans stored

theorem Guarded.with (guarded : Guarded runtime definition contents map)
    (admits : Admits contents id recID payload)
    (entries : ∀ {key value}, later key = some value →
      map key = some value ∨
        (definition.keyOf runtime contents.dict payload recID = some key ∧
          value = definition.entryValue recID))
    (kept : ∀ {key value}, map key = some value →
      ∃ other, later key = some other)
    (own : ∀ {key},
      definition.keyOf runtime contents.dict payload recID = some key →
      ∃ value, later key = some value)
    (alone : ∀ {key other otherID otherPayload},
      definition.keyOf runtime contents.dict payload recID = some key →
      contents.Live other otherID otherPayload →
      definition.keyOf runtime contents.dict otherPayload otherID ≠
        some key) :
    Guarded runtime definition (contents.with id recID payload) later := by
  obtain ⟨_, fresh, unused, doc, encoded⟩ := admits
  refine ⟨fun key value listed => ?_,
    fun other otherID old key live keyed => ?_,
    fun one two oneID twoID first second key here there keyed other => ?_⟩
  · rcases entries listed with before | ⟨keyed, valued⟩
    · obtain ⟨otherID, old, oldDoc, stored, oldEncoded, keyed, valued⟩ :=
        guarded.sourced before
      have apart : otherID ≠ recID := by
        rintro rfl
        rw [fresh] at stored
        cases stored
      exact ⟨otherID, old, oldDoc,
        (Function.update_of_ne apart ..).trans stored, oldEncoded, keyed,
        valued⟩
    · exact ⟨recID, payload, doc, Function.update_self .., encoded, keyed,
        valued⟩
  · rcases (Contents.live_with unused).mp live with
      ⟨rfl, rfl, rfl⟩ | ⟨_, _, before⟩
    · exact own keyed
    · obtain ⟨value, listed⟩ := guarded.guarded before keyed
      exact kept listed
  · rcases (Contents.live_with unused).mp here with
      ⟨rfl, rfl, rfl⟩ | ⟨_, _, before⟩
    · rcases (Contents.live_with unused).mp there with
        ⟨rfl, rfl, rfl⟩ | ⟨_, _, others⟩
      · rfl
      · exact absurd other (alone keyed others)
    · rcases (Contents.live_with unused).mp there with
        ⟨rfl, rfl, rfl⟩ | ⟨_, _, others⟩
      · exact absurd keyed (alone other before)
      · exact guarded.distinct before others keyed other

theorem Guarded.free (guarded : Guarded runtime definition contents map)
    (unique : definition.unique = true)
    (fresh : contents.records recID = none) {key : Bytes}
    (free : ¬ Taken definition recID map key) : map key = none := by
  cases listed : map key with
  | none => rfl
  | some value =>
      obtain ⟨otherID, old, _, stored, _, _, valued⟩ :=
        guarded.sourced listed
      refine absurd ⟨unique, value, listed, ?_⟩ free
      rw [valued, IndexDefinition.entryValue, if_pos unique,
        recordBytes_length, recordOf_recordBytes]
      refine ⟨le_rfl, ?_⟩
      rintro rfl
      rw [fresh] at stored
      cases stored

theorem unique_lasting (runtime : Runtime) :
    Lasting runtime (fun definition => definition.unique = true)
      (Unique runtime) where
  empty definition dict records _ := by
    refine ⟨fun key value listed => ?_, fun id recID payload key live => ?_,
      fun one two oneID twoID first second key live => ?_⟩
    · cases listed
    · cases live.1
    · cases live.1
  under guarded stored wellFormed grows grownFormed unique :=
    (guarded unique).under stored wellFormed grows grownFormed
  remove guarded separate live unique := (guarded unique).remove separate live
  store {definition contents map id recID payload} guarded admits free
      unique := by
    have none : ∀ {key}, definition.keyOf runtime contents.dict payload
        recID = some key → map key = none := fun keyed =>
      (guarded unique).free unique admits.fresh (free _ keyed)
    have entered : ∀ {key}, definition.keyOf runtime contents.dict payload
          recID = some key ∧
          enter (definition.keyOf runtime contents.dict payload recID)
            (definition.entryValue recID) map key =
              some (definition.entryValue recID) ∨
        enter (definition.keyOf runtime contents.dict payload recID)
          (definition.entryValue recID) map key = map key := by
      intro key
      cases definition.keyOf runtime contents.dict payload recID with
      | none => exact .inr rfl
      | some new =>
          by_cases same : key = new
          · subst same
            exact .inl ⟨rfl, Function.update_self ..⟩
          · exact .inr (Function.update_of_ne same ..)
    refine (guarded unique).with admits (fun {key value} listed => ?_)
      (fun {key value} listed => ?_) (fun {key} keyed => ?_)
      fun {key other otherID otherPayload} keyed live otherKeyed => ?_
    · rcases @entered key with ⟨keyed, new⟩ | old
      · rw [new] at listed
        exact .inr ⟨keyed, (Option.some.inj listed).symm⟩
      · exact .inl (old.symm.trans listed)
    · rcases @entered key with ⟨_, new⟩ | old
      · exact ⟨_, new⟩
      · exact ⟨value, old.trans listed⟩
    · rw [keyed]
      exact ⟨_, Function.update_self ..⟩
    · obtain ⟨value, listed⟩ := (guarded unique).guarded live otherKeyed
      rw [none keyed] at listed
      cases listed
  decline guarded admits hinders unique := by
    obtain ⟨key, value, keyed, listed, alone⟩ := hinders unique
    refine (guarded unique).with admits .inl (fun listed => ⟨_, listed⟩)
      (fun {other} otherKeyed => ?_)
      fun {other otherName otherID otherPayload} otherKeyed live => ?_
    · rw [keyed] at otherKeyed
      cases otherKeyed
      exact ⟨value, listed⟩
    · rw [keyed] at otherKeyed
      cases otherKeyed
      exact alone _ _ _ live

end Guarded

section Failing

variable {σ : Type} [Kernel σ] [WillingKernel σ] {runtime : Runtime}
  {definitions : List IndexDefinition} {shape : Shape σ} {id : Bytes}
  {doc : Cson.Document} {coll next : Collection σ} {total spare : Nat}
  {orders : Orders σ}

/-- `Replace` and `Update` give up entries of unique indexes only for contents
that can be encoded. -/
def Collection.Encodable (runtime : Runtime) (coll : Collection σ)
    (orders : Orders σ) (id : Bytes) (doc : Cson.Document) : Prop :=
  ∀ recID payload cause grown, coll.Stores id recID payload →
    coll.schema (Collection.withID doc id) = none →
    encode (orders.fields.visit (Collection.withID doc id)) coll.dict =
      (.error cause, grown) →
    ∀ index ∈ coll.secIndexes, index.definition.unique = true →
      index.definition.keyOf runtime coll.dict payload recID = none

def Shape.Encodable (runtime : Runtime) (shape : Shape σ)
    (schema : Cson.Document → Option Bytes) (orders : Orders σ) (id : Bytes)
    (doc : Cson.Document) : Prop :=
  ∀ ⦃recID payload cause grown⦄, shape.contents.Live id recID payload →
    schema (Collection.withID doc id) = none →
    encode (orders.fields.visit (Collection.withID doc id))
      shape.contents.dict = (.error cause, grown) →
    ∀ mapped ∈ shape.indexes, mapped.1.definition.unique = true →
      mapped.1.definition.keyOf runtime shape.contents.dict payload recID =
        none

theorem Backed.encodable (backed : Backed coll spare shape)
    (stored : shape.contents.Stored)
    (encodable : coll.Encodable runtime orders id doc) :
    shape.Encodable runtime coll.schema orders id doc := by
  intro recID payload cause grown live schema encodes mapped member unique
  rw [← backed.dict] at encodes ⊢
  apply encodable recID payload cause grown
    ((backed.stores_iff stored).mpr live) schema encodes mapped.1 ?_ unique
  rw [backed.indexes]
  exact List.mem_map_of_mem member

def Call.Encodable (runtime : Runtime) (coll : Collection σ) :
    Call σ → Prop
  | .replace orders id doc => coll.Encodable runtime orders id doc
  | .update orders id ops => ∀ doc, (coll.get id).1 = .ok doc →
      coll.Encodable runtime orders id (ops.foldl (applyOp runtime) doc)
  | _ => True

omit [WillingKernel σ] in
theorem Shape.Keeps.orphan
    (keeps : shape.Keeps (Unique runtime) definitions) {recID : RecordID}
    (fresh : shape.contents.records recID = none) (payload : Bytes) :
    (shape.orphaned recID payload).Keeps (Unique runtime) definitions := by
  have unused := keeps.stored.unused fresh
  refine ⟨keeps.wellFormed, ?_, keeps.separate, keeps.defined,
    fun mapped member unique =>
      (keeps.each mapped member unique).orphan fresh unused⟩
  intro other otherID listed
  have apart : otherID ≠ recID := by
    rintro rfl
    exact unused other listed
  obtain ⟨old, oldDoc, kept, encoded⟩ := keeps.stored listed
  exact ⟨old, oldDoc, (Function.update_of_ne apart ..).trans kept, encoded⟩

theorem Shape.Keeps.insert_failed
    (keeps : shape.Keeps (Unique runtime) definitions)
    (backed : Backed coll total shape) (less : spare ≤ total)
    (affords : Affords orders doc coll total spare) {cause : DocumentError}
    (ends : Inserts runtime orders id doc coll spare shape
      (.error cause, next)) :
    ∃ after, Backed next spare after ∧
      after.Keeps (Unique runtime) definitions := by
  have wellFormed := keeps.wellFormed
  rw [← backed.dict] at wellFormed
  have growth := affords.growth wellFormed
  cases ends with
  | rejected => exact ⟨shape, backed.fewer less, keeps⟩
  | @unencoded _ grown _ encodes =>
      rw [encodes, backed.dict] at growth
      exact ⟨_, (backed.under grown).fewer less,
        keeps.under (unique_lasting runtime) growth.1 growth.2⟩
  | @unstored payload grown recID _ _ encodes fresh after =>
      rw [encodes, backed.dict] at growth
      exact ⟨_, after, (keeps.under (unique_lasting runtime) growth.1
        growth.2).orphan fresh payload⟩
  | @stored payload grown recID _ middle _ encodes stored _ enters =>
      rw [encodes, backed.dict] at growth
      have contents := stored.contents_eq
      cases enters with
      | @refused arranged front back changed mapped later _ _ _ perm split
          joined declined final =>
          rw [contents] at joined declined final
          rw [stored.indexes_eq] at perm
          have others := (keeps.without id fun mapped member unique =>
            (keeps.each mapped member unique).without id).under
              (unique_lasting runtime) growth.1 growth.2
          have admits := others.admits (Function.update_self ..) stored.fresh
            (affords.encoded encodes)
          have orphaned := others.orphan stored.fresh payload
          have same : (((shape.under grown).contents.without id).with id recID
              payload).without id = (Shape.orphaned { shape.under grown with
                contents := (shape.under grown).contents.without id } recID
                payload).contents := Contents.with_without admits.missing
          rw [← Contents.without_with, same] at final
          have listed : ∀ {one}, one ∈ front ∨ one = mapped ∨ one ∈ back →
              one ∈ shape.indexes := by
            intro one either
            apply perm.mem_iff.mp
            rw [split, List.mem_append, List.mem_cons]
            exact either
          refine ⟨_, final, orphaned.wellFormed, orphaned.stored,
            orphaned.separate, ?_, fun one member => ?_⟩
          · have fronts : changed.map definitionOf = front.map definitionOf :=
              map_eq_of_forall₂ (fun one => one.definition) joined
            have refused : definitionOf later = definitionOf mapped :=
              declined.definition
            rw [List.map_append, List.map_cons, fronts, refused,
              ← List.map_cons, ← List.map_append, ← split]
            exact (perm.map _).trans keeps.defined
          rcases List.mem_append.mp member with new | old
          · have each : ∀ one ∈ front, Unique runtime one.1.definition
                ((shape.under grown).contents.without id) one.2.keyMap :=
              fun one member => others.each one (listed (.inl member))
            have stay : ∀ one ∈ changed, Unique runtime one.1.definition
                ((((shape.under grown).contents.without id).with id recID
                  payload).without id) one.2.keyMap := by
              refine forall_of_forall₂ (fun {before after} entered each => ?_)
                joined each
              rw [entered.definition, entered.keyMap_eq]
              exact fun unique => ((unique_lasting runtime).store each admits
                entered.free unique).without id
            rw [← same]
            exact stay one new
          · rcases List.mem_cons.mp old with own | rest
            · rw [own, declined.definition, declined.keyMap_eq]
              exact orphaned.each mapped (listed (.inr (.inl rfl)))
            · exact orphaned.each one (listed (.inr (.inr rest)))

theorem Shape.Keeps.replace_failed
    (keeps : shape.Keeps (Unique runtime) definitions)
    (backed : Backed coll total shape) (less : spare ≤ total)
    (affords : Affords orders (Collection.withID doc id) coll total spare)
    (encodable : shape.Encodable runtime coll.schema orders id doc)
    {cause : DocumentError}
    (failed : coll.replace runtime orders id doc = (.error cause, next)) :
    ∃ after, Backed next spare after ∧
      after.Keeps (Unique runtime) definitions := by
  have wellFormed := keeps.wellFormed
  rw [← backed.dict] at wellFormed
  have growth := affords.growth wellFormed
  have ends := @Backed.replace_spec _ _ _ runtime _ _ _ _ _ _ _ backed
    keeps.stored affords less
  rw [failed] at ends
  cases ends with
  | missing _ final => exact ⟨shape, final, keeps⟩
  | rejected _ final => exact ⟨shape, final, keeps⟩
  | unencoded live schema encodes perm removed final =>
      rw [encodes, backed.dict] at growth
      rw [backed.dict] at encodes
      refine ⟨_, final, Shape.Keeps.under (unique_lasting runtime) ?_ growth.1
        growth.2⟩
      refine ⟨keeps.wellFormed, keeps.stored, keeps.separate,
        (defined_of_related (fun _ _ one => one.definition) perm
          removed).trans keeps.defined, ?_⟩
      refine forall_of_forall₂ (fun {one two} both each unique => ?_)
        ((List.forall₂_and_left _ _).mpr
          ⟨fun mapped member => perm.mem_iff.mp member, removed⟩)
        fun mapped member => keeps.each mapped (perm.mem_iff.mp member)
      rw [both.2.definition] at unique ⊢
      rw [both.2.keyMap_eq,
        encodable live schema encodes one both.1 unique]
      exact each unique

end Failing

section Runs

variable {σ : Type} [Kernel σ]

/-- The collection after calls, and the writes that are left.  The calls may
have returned errors; the entries that they rewrote found room. -/
inductive Ran (runtime : Runtime) (start : Collection σ) (total : Nat) :
    Collection σ → Nat → Prop
  | start : Ran runtime start total start total
  | call {coll : Collection σ} {spare less : Nat} (call : Call σ) :
      Ran runtime start total coll spare → less ≤ spare →
      call.Affordable runtime coll spare less →
      call.Room runtime (fun definition => definition.unique = true) coll →
      call.Encodable runtime coll →
      Ran runtime start total (call.perform runtime coll).2 less

variable [WillingKernel σ] {runtime : Runtime}
  {definitions : List IndexDefinition} {shape : Shape σ}
  {coll : Collection σ} {total spare : Nat}

theorem Shape.Keeps.perform_any
    (keeps : shape.Keeps (Unique runtime) definitions)
    (backed : Backed coll total shape) (call : Call σ) (less : spare ≤ total)
    (affordable : call.Affordable runtime coll total spare)
    (room : call.Room runtime (fun definition => definition.unique = true)
      coll)
    (encodable : call.Encodable runtime coll) :
    ∃ after, Backed (call.perform runtime coll).2 spare after ∧
      after.Keeps (Unique runtime) definitions := by
  rcases outcome : call.perform runtime coll with ⟨result, next⟩
  cases result with
  | ok =>
      exact keeps.perform (unique_lasting runtime) backed call affordable room
        (fun _ _ _ _ mapped member unique =>
          (keeps.each mapped member unique).without _) outcome
  | error cause =>
      cases call with
      | insert orders doc generated =>
          have ends := backed.insert_spec generated affordable
          simp only [Call.perform] at outcome
          rcases inserting : coll.insert runtime orders doc generated with
            ⟨result, later⟩
          rw [inserting] at outcome ends
          cases result with
          | ok inserted => cases outcome
          | error reason =>
              cases outcome
              exact keeps.insert_failed backed less affordable ends
      | replace orders id doc =>
          exact keeps.replace_failed backed less affordable
            (backed.encodable keeps.stored encodable) outcome
      | update orders id ops =>
          obtain ⟨got, backedNext, same⟩ := backed.get_spec keeps.stored id
          simp only [Call.perform, Collection.update] at outcome
          rcases getting : coll.get id with ⟨result, later⟩
          rw [getting] at outcome backedNext got same
          cases result with
          | error reason =>
              cases outcome
              exact ⟨shape, backedNext.fewer less, keeps⟩
          | ok doc =>
              have read : (coll.get id).1 = .ok doc := by rw [getting]
              have allowed := backed.encodable keeps.stored
                (encodable doc read)
              rw [← show later.schema = coll.schema from same] at allowed
              exact keeps.replace_failed backedNext less
                ((affordable doc read).after backed backedNext) allowed outcome
      | delete order id =>
          rcases @Backed.delete_spec _ _ _ _ _ _ runtime
            (backed.fewer affordable) keeps.stored order id with
            ⟨_, _, final⟩ | ⟨_, _, _, _, _, done, _⟩
          · have same : (coll.delete runtime order id).2 = next :=
              congrArg Prod.snd outcome
            rw [same] at final
            exact ⟨shape, final.fewer (Nat.le_succ _), keeps⟩
          · have failed := congrArg Prod.fst outcome
            rw [Call.perform, done] at failed
            cases failed

theorem Ran.keeps {start : Collection σ}
    (run : Ran runtime start total coll spare)
    (opened : ∃ shape, Backed start total shape ∧
      shape.Keeps (Unique runtime) definitions) :
    ∃ shape, Backed coll spare shape ∧
      shape.Keeps (Unique runtime) definitions := by
  induction run with
  | start => exact opened
  | call call _ less affordable room encodable inductionHypothesis =>
      obtain ⟨shape, backed, keeps⟩ := inductionHypothesis
      exact keeps.perform_any backed call less affordable room encodable

end Runs

/-! ## Documents in memory -/

def oneColl : Collection Memory :=
  (insertFive.perform printer (emptyColl true)).2

end CocoDB.Document
