import CocoDB.Document.Runs

/-!
# Indexes list the documents

What an index that was there before the first document lists after a run of
calls: one entry for every document that has a key, and no other.
-/

namespace CocoDB.Document

open Lib Cson Index SecondaryIndex LawfulKernel

section Runs

variable {σ : Type} [Kernel σ]

def Call.Unlisted (runtime : Runtime) (coll : Collection σ) : Call σ → Prop
  | .insert _ doc generated => ∀ recID payload,
      coll.Stores (Collection.identify runtime doc generated).1 recID
        payload →
      ∀ index ∈ coll.secIndexes,
        index.definition.keyOf runtime coll.dict payload recID = none
  | _ => True

/-- The collection after calls that returned no error, and the writes that are
left.  No call left an entry behind, and the new ones found room. -/
inductive Succeeded (runtime : Runtime) (start : Collection σ)
    (total : Nat) : Collection σ → Nat → Prop
  | start : Succeeded runtime start total start total
  | call {coll next : Collection σ} {spare less : Nat} (call : Call σ) :
      Succeeded runtime start total coll spare →
      call.Affordable runtime coll spare less →
      call.Unlisted runtime coll → call.Room runtime (fun _ => True) coll →
      call.perform runtime coll = (.ok (), next) →
      Succeeded runtime start total next less

/-- The index has one entry for every document with a key, and no other. -/
structure Collection.ListedBy (runtime : Runtime) (coll : Collection σ)
    (index : SecondaryIndex σ) : Prop where
  search : ∀ key value,
    (Kernel.search key index.tree coll.kernel).1 = .ok (some value) ↔
      ∃ id recID payload, coll.Stores id recID payload ∧
        index.definition.keyOf runtime coll.dict payload recID = some key ∧
        value = index.definition.entryValue recID
  apart : ∀ one two oneID twoID first second key,
    coll.Stores one oneID first → coll.Stores two twoID second →
    index.definition.keyOf runtime coll.dict first oneID = some key →
    index.definition.keyOf runtime coll.dict second twoID = some key →
    one = two

end Runs

section Exact

variable {runtime : Runtime} {definition : IndexDefinition}
  {contents : Index.Contents} {map : KeyMap} {id payload : Bytes}
  {recID : RecordID}

theorem exact_lasting (runtime : Runtime) :
    Lasting runtime (fun _ => True) (Exact runtime) where
  empty _ _ _ := by
    refine ⟨fun id recID payload key live _ => ?_, fun key value listed => ?_⟩
    · cases live.1
    · cases listed
  under precise := precise.under
  remove precise separate live :=
    (precise.remove separate live).congr rfl (separate.live_release live.1)
  store precise admits free := by
    refine Exact.store ?_ ?_ free
    · rw [Contents.without_eq admits.missing]
      exact precise
    · exact fun other listed => admits.unused other
        (Contents.ids_without.mp listed).2
  decline precise _ hinders := by
    obtain ⟨key, value, keyed, found, alone⟩ := hinders trivial
    obtain ⟨other, otherID, otherPayload, live, otherKeyed, _⟩ :=
      precise.justified found
    exact absurd otherKeyed (alone other otherID otherPayload live)

end Exact

section Calls

variable {σ : Type} [Kernel σ] [WillingKernel σ] {runtime : Runtime}
  {definitions : List IndexDefinition} {shape : Shape σ}
  {coll : Collection σ} {total spare : Nat}

theorem Shape.Keeps.without_unlisted
    (keeps : shape.Keeps (Exact runtime) definitions)
    (backed : Backed coll spare shape) {id : Bytes}
    (unlisted : ∀ recID payload, coll.Stores id recID payload →
      ∀ index ∈ coll.secIndexes,
        index.definition.keyOf runtime coll.dict payload recID = none) :
    ∀ mapped ∈ shape.indexes, Exact runtime mapped.1.definition
      (shape.contents.without id) mapped.2.keyMap := by
  intro mapped member
  have precise := keeps.each mapped member
  cases known : shape.contents.ids id with
  | none =>
      rw [Contents.without_eq known]
      exact precise
  | some recID =>
      obtain ⟨payload, _, kept, _⟩ := keeps.stored known
      have gone := precise.remove keeps.separate ⟨known, kept⟩
      have listed : mapped.1 ∈ coll.secIndexes := by
        rw [backed.indexes]
        exact List.mem_map_of_mem member
      have none := unlisted recID payload
        ((backed.stores_iff keeps.stored).mpr ⟨known, kept⟩) mapped.1 listed
      rw [backed.dict] at none
      rw [none] at gone
      exact gone

theorem Backed.listedBy (backed : Backed coll spare shape)
    (keeps : shape.Keeps (Exact runtime) definitions) :
    ∀ index ∈ coll.secIndexes, coll.ListedBy runtime index := by
  intro index member
  rw [backed.indexes] at member
  obtain ⟨mapped, listed, rfl⟩ := List.mem_map.mp member
  have exact := keeps.each mapped listed
  constructor
  · intro key value
    rw [backed.search_index listed, Except.ok.injEq, backed.dict]
    simp only [backed.stores_iff keeps.stored]
    constructor
    · intro found
      exact exact.justified found
    · rintro ⟨id, recID, payload, live, keyed, rfl⟩
      exact exact.owned live keyed
  · intro one two oneID twoID first second key
    rw [backed.dict, backed.stores_iff keeps.stored,
      backed.stores_iff keeps.stored]
    intro live other keyed otherKeyed
    have same := exact.owned.record_eq live keyed other otherKeyed
    subst same
    exact keeps.separate live.1 other.1

theorem Succeeded.keeps {start : Collection σ}
    (run : Succeeded runtime start total coll spare)
    (opened : ∃ shape, Backed start total shape ∧
      shape.Keeps (Exact runtime) definitions) :
    ∃ shape, Backed coll spare shape ∧
      shape.Keeps (Exact runtime) definitions := by
  induction run with
  | start => exact opened
  | call call _ affordable unlisted room done inductionHypothesis =>
      obtain ⟨shape, backed, keeps⟩ := inductionHypothesis
      exact keeps.perform (exact_lasting runtime) backed call affordable room
        (fun _ _ _ same => keeps.without_unlisted backed
          (by rw [same] at unlisted; exact unlisted)) done

end Calls

/-! ## Documents in memory -/

def printer : Runtime where
  sprint value :=
    match value with
    | .scalar (.string text) => text
    | _ => []
  same _ _ := false
  truncate _ := 0

/-- An index on the field `b`. -/
def indexB (unique : Bool) : IndexDefinition :=
  ⟨[0x69], [[0x62]], unique, false, [], .scalar .null⟩

def listedOrders : Orders Memory := ⟨.listed, .listed _, .listed _⟩

/-- A document with an identifier and the field `a`. -/
def labelled (id : Bytes) (value : Value) : Cson.Document :=
  [(idField, .scalar (.string id)), ([0x61], value)]

def emptyColl (unique : Bool) : Collection Memory :=
  .created Query.singleDict (fun _ => none) Memory.empty [indexB unique]

/-- The document `p` with 5. -/
def insertFive : Call Memory :=
  .insert listedOrders (labelled [0x70] (.scalar (.int64 5))) []

def onceColl : Collection Memory :=
  (insertFive.perform printer (emptyColl false)).2

theorem emptyColl_holds :
    Holds Memory.empty 100 [] fun _ : RecordID => none :=
  ⟨fun _ member => (nomatch member), rfl, fun _ member => (nomatch member),
    by decide⟩

theorem insertFive_affordable (unique : Bool) :
    insertFive.Affordable printer (emptyColl unique) 100 0 := by
  have short : (emptyColl unique).secIndexes.length = 1 := rfl
  have dict : (emptyColl unique).dict = Query.singleDict := rfl
  refine ⟨⟨?_, ?_, ?_⟩, ?_, ?_⟩
  · decide
  · decide
  · exact ⟨trivial, trivial, trivial⟩
  · rw [FieldDictionary.Spacious, dict]
    decide
  · intro payload grown encodes
    rw [dict] at encodes
    cases encodes
    rw [short]
    decide

theorem insertFive_unlisted :
    insertFive.Unlisted printer (emptyColl false) := by
  intro recID payload stores
  have missing : ((emptyColl false).find [0x70]).1 =
    .error .docNotFound := rfl
  have found := stores.1
  rw [show (Collection.identify printer
    (labelled [0x70] (.scalar (.int64 5))) []).1 = [0x70] from rfl,
    missing] at found
  cases found

end CocoDB.Document
