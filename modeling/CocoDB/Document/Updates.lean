import CocoDB.Document.Folding
import CocoDB.Document.Rearranged
import CocoDB.Document.Replaced
import CocoDB.Document.Revalidation

/-!
# Updates of stored documents

After an `Update` without an error, `Get` returns what the operations stand for,
exactly where the loop of `Update` and the format of the store keep up with
them.
-/

namespace CocoDB.Document

open Lib Cson CocoDB.Query
open Index (Runtime DocumentError)

section Recovered

variable {dict : FieldDictionary} {budget : Nat} {value other : Value}

theorem blank_widen (scalar : Scalar) :
    blank (.scalar (widen scalar)) = blank (.scalar scalar) := by
  cases scalar <;> rfl

structure Again (value other : Value) : Prop where
  blank : blank value = blank other
  filled : EndsFilled other

theorem Storable.again (storable : Storable dict budget value)
    (found : recovered dict budget value = some other) :
    Again value other := by
  induction value using Value.nested generalizing budget other with
  | unsupported typeName => exact absurd storable.valid (by simp [Valid])
  | scalar value =>
      obtain ⟨budget, rfl⟩ := storable.budget_eq
      rw [recovered_scalar] at found
      cases found
      exact ⟨(blank_widen value).symm, trivial⟩
  | array items inductionHypothesis =>
      obtain ⟨budget, rfl⟩ := storable.budget_eq
      obtain ⟨last, others, rfl, read⟩ := (recovered_array_iff
        storable.valid.supported storable.short other).mp found
      have each : ∀ item ∈ items, ∀ other,
          recovered dict budget item = some other → Again item other :=
        fun item member other found =>
          inductionHypothesis item member (storable.item member) found
      have related : List.Forall₂ Again items others :=
        ((List.forall₂_and_left items others).mpr ⟨each, read⟩).imp
          fun _ _ both => both.1 _ both.2
      refine ⟨rfl, ?_⟩
      rw [EndsFilled, itemsEndFilled_iff, ← lastFilled_iff
        (related.imp fun _ _ again => again.blank)]
      refine ⟨last, ?_⟩
      exact (@forall₂_iff _ _ _ (fun _ => True) EndsFilled _ _ related
        fun _ _ _ again => ⟨fun _ => again.filled, fun _ => trivial⟩).mp
        fun _ _ => trivial
  | object fields inductionHypothesis =>
      obtain ⟨budget, rfl⟩ := storable.budget_eq
      rw [recovered_object storable] at found
      cases found
      refine ⟨rfl, ?_⟩
      rw [EndsFilled, fieldsEndFilled_iff]
      intro entry member
      rcases mem_gather member with before | ⟨raw, listed, decodes⟩
      · cases before
      · obtain ⟨field, inside, rfl⟩ := List.mem_map.mp
          ((sortFields_perm _).mem_iff.mp listed)
        exact (inductionHypothesis field inside (storable.field inside)
          (recovered_eq_some_iff.mpr decodes)).filled

end Recovered

section Stored

variable {dict : FieldDictionary} {payload : Bytes} {doc map : Cson.Document}

theorem lookup_endsFilled (encoded : Encoded dict payload doc)
    (wellFormed : dict.WellFormed)
    (reads : CocoDB.Query.toMap (viewOf dict payload) = .ok map)
    {name : Bytes} {value : Value} (found : lookup map name = some value) :
    EndsFilled value := by
  obtain ⟨same, back, _, looks⟩ := toMap_encoded encoded wellFormed
  rw [back] at reads
  cases reads
  rw [looks, Option.bind_eq_some_iff] at found
  obtain ⟨stored, listed, read⟩ := found
  have distinct := encoded.valid
  rw [Valid] at distinct
  have member := (lookup_eq_some_iff distinct.1).mp listed
  exact (Storable.again (Encoded.field encoded wellFormed member) read).filled

theorem readsBack {other : Cson.Document}
    (rearranged : Rearranged (.object doc) (.object other))
    (distinct : (doc.map Prod.fst).Nodup)
    (encoded : Encoded dict payload other) (wellFormed : dict.WellFormed)
    (reads : CocoDB.Query.toMap (viewOf dict payload) = .ok map)
    (name : Bytes) : ReadsBack (lookup doc name) (lookup map name) := by
  obtain ⟨same, back, _, looks⟩ := toMap_encoded encoded wellFormed
  rw [back] at reads
  cases reads
  have fields := rearranged.lookup distinct name
  rw [looks]
  generalize lookup doc name = val at fields
  cases listed : lookup other name with
  | none =>
      rw [listed] at fields
      cases fields
      refine ⟨fun _ => rfl, ?_, ?_, ?_⟩
      · intro _ own
        cases own
      · intro _ own
        cases own
      · intro _ _ own
        cases own
  | some stored =>
      rw [listed] at fields
      have otherDistinct := encoded.valid
      rw [Valid] at otherDistinct
      have member := (lookup_eq_some_iff otherDistinct.1).mp listed
      have storable := Encoded.field encoded wellFormed member
      cases fields with
      | @some value _ alike =>
          rw [Option.bind_some]
          refine ⟨fun missing => ?_, ?_, ?_, ?_⟩
          · cases missing
          · intro _ own
            cases own
            have resolved : ∀ name ∈ names stored, dict.Resolves name := by
              intro inner found
              apply Encoded.resolves_name encoded wellFormed
              rw [names, mem_namesOfFields]
              exact ⟨_, member, .inr found⟩
            have recovers := storable.decodes.2
            rw [and_iff_left resolved, ← alike.endsFilled_iff] at recovers
            rw [← recovers, Recovers]
            simp only [recovered_eq_some_iff, alike.widensTo_iff]
          · intro count own
            cases own
            cases alike
            exact recovered_scalar dict payload.length _
          · intro items shown own read
            cases own
            cases alike with
            | array related =>
                obtain ⟨_, others, rfl, each⟩ := (recovered_array_iff
                  storable.valid.supported storable.short shown).mp read
                exact ⟨others, rfl, by
                  rw [← each.length_eq, related.length_eq]⟩

end Stored

/-! ## All fields -/

def Folded (equal : Value → Value → Bool) (doc : Cson.Document)
    (ops : List UpdateOp) (map : Cson.Document) : Prop :=
  ∀ name, ((Content.holds (lookup doc name)).applyAll equal
    (opsOn name ops)).Shows (lookup map name)

/-- The code keeps up with the operations on a field, and what they leave can be
stored. -/
structure Followed (equal : Value → Value → Bool) (runtime : Runtime)
    (doc : Cson.Document) (ops : List UpdateOp) (field : Bytes) : Prop where
  spared : (Content.holds (lookup doc field)).Spared equal (opsOn field ops)
  lasting : ((Content.holds (lookup doc field)).applyAll equal
    (opsOn field ops)).Lasting runtime

section Folded

variable {equal : Value → Value → Bool} {runtime : Runtime} {id : Bytes}
  {doc map : Cson.Document} {ops : List UpdateOp} {name : Bytes}

theorem followed_iff {shown : Option Value}
    (reads : ReadsBack (lookup (ops.foldl (applyOp runtime) doc) name)
      shown) :
    ((Content.holds (lookup doc name)).applyAll equal
        (opsOn name ops)).Shows shown ↔
      Followed equal runtime doc ops name := by
  obtain ⟨behind, tracks, spared⟩ := @Tracks.run runtime equal _ _ _
    (Tracks.same (lookup doc name)) (opsOn name ops)
  rw [lookup_foldl] at reads
  rw [tracks.shows_iff reads, spared]
  constructor
  · rintro ⟨⟨spared, _⟩, lasting⟩
    exact ⟨spared, lasting⟩
  · rintro ⟨spared, lasting⟩
    exact ⟨⟨spared, nofun⟩, lasting⟩

theorem followed_other (others : ∀ op ∈ ops, name ≠ op.field)
    (filled : ∀ value, lookup doc name = some value → EndsFilled value) :
    Followed equal runtime doc ops name := by
  have none := opsOn_eq_nil others
  refine ⟨by rw [none]; trivial, ?_⟩
  rw [none, Content.applyAll, List.foldl_nil]
  cases found : lookup doc name with
  | none => trivial
  | some value => exact filled value found

theorem widensTo_string {value : Value} {text : Bytes} :
    widensTo value (.scalar (.string text)) = true ↔
      value = .scalar (.string text) := by
  cases value with
  | scalar scalar => cases scalar <;> simp [widensTo, widen, eq_comm]
  | _ => simp [widensTo]

theorem id_shown_iff
    (reads : ReadsBack (some (.scalar (.string id))) (lookup map idField)) :
    (Content.holds (lookup doc idField)).Shows (lookup map idField) ↔
      lookup doc idField = some (.scalar (.string id)) := by
  obtain ⟨other, found, widens⟩ := (reads.whole _ rfl).mpr trivial
  have string : other = .scalar (.string id) := by
    cases other with
    | scalar scalar =>
        have same : Scalar.string id = scalar := of_decide_eq_true widens
        rw [← same]
    | _ => cases widens
  rw [found, string]
  cases lookup doc idField with
  | none => simp [Content.Shows]
  | some value =>
      simp only [Content.Shows, Option.some.injEq, exists_eq_left']
      exact widensTo_string

/-- The document that is read after the update is the fold of the operations
exactly if the fields that they are about are followed and the identifier was a
string. -/
theorem folded_iff (others : ∀ op ∈ ops, op.field ≠ idField)
    (filled : ∀ name value, lookup doc name = some value → EndsFilled value)
    (reads : ∀ name, ReadsBack (lookup (Collection.withID
      (ops.foldl (applyOp runtime) doc) id) name) (lookup map name)) :
    Folded equal doc ops map ↔
      lookup doc idField = some (.scalar (.string id)) ∧
        ∀ op ∈ ops, Followed equal runtime doc ops op.field := by
  have atID := reads idField
  rw [Collection.withID, lookup_setField, if_pos rfl] at atID
  have untouched : opsOn idField ops = [] :=
    opsOn_eq_nil fun op listed => (others op listed).symm
  have elsewhere : ∀ name, name ≠ idField → (((Content.holds
      (lookup doc name)).applyAll equal (opsOn name ops)).Shows
        (lookup map name) ↔ Followed equal runtime doc ops name) := by
    intro name different
    have atName := reads name
    rw [Collection.withID, lookup_setField, if_neg different] at atName
    exact followed_iff atName
  constructor
  · intro folded
    refine ⟨?_, fun op listed =>
      (elsewhere op.field (others op listed)).mp (folded op.field)⟩
    have shown := folded idField
    rw [untouched] at shown
    exact (id_shown_iff atID).mp shown
  · rintro ⟨string, followed⟩ name
    by_cases own : name = idField
    · subst own
      rw [untouched]
      exact (id_shown_iff atID).mpr string
    · rw [elsewhere name own]
      by_cases about : ∃ op ∈ ops, name = op.field
      · obtain ⟨op, listed, rfl⟩ := about
        exact followed op listed
      · apply followed_other _ (filled name)
        intro op listed same
        exact about ⟨op, listed, same⟩

end Folded

section Call

variable {σ : Type} [Kernel σ] [SteadyKernel σ] {runtime : Runtime}
  {orders : Orders σ} {coll : Collection σ} {total spare : Nat}
  {shape : Shape σ} {id : Bytes} {recID : RecordID} {doc : Cson.Document}
  {ops : List UpdateOp}

theorem mapOf_ok {view : DocumentView} {map : Cson.Document} :
    Collection.mapOf view = .ok map ↔ CocoDB.Query.toMap view = .ok map := by
  unfold Collection.mapOf CocoDB.Query.toMap
  split <;> simp_all

theorem Affords.after {next : Collection σ} {spareNow spareNext : Nat}
    (affords : Affords orders doc coll total spare)
    (backed : Backed coll spareNow shape) (later : Backed next spareNext shape) :
    Affords orders doc next total spare := by
  obtain ⟨compact, spacious, roomy⟩ := affords
  rw [backed.dict, ← later.dict] at spacious roomy
  rw [backed.indexes, ← later.indexes] at roomy
  exact ⟨compact, spacious, roomy⟩

end Call

section InMemory

variable {dict : FieldDictionary} {id payload : Bytes} {doc : Cson.Document}

def memoryShape (dict : FieldDictionary) (id payload : Bytes) :
    Shape Memory where
  contents :=
    { dict := dict
      ids := Function.update (fun _ => none) id (some 1)
      records := Memory.recordMap ⟨[(1, payload)], 2⟩ }
  primary := [[⟨Index.encodeString id, Index.recordBytes 1⟩]]
  indexes := []

theorem memoryOf_backed (dict : FieldDictionary) (id payload : Bytes)
    {spare : Nat} (small : spare < 2 ^ 63) :
    Backed (memoryOf dict id payload) spare (memoryShape dict id payload) := by
  refine ⟨rfl, rfl, ?_, ?_⟩
  · have put := Index.PrimaryIndex.lists_empty.put id 1
    have same : (memoryShape dict id payload).primary.keyMap =
        Function.update (fun _ => none) (Index.encodeString id)
          (some (Index.recordBytes 1)) := by
      funext key
      by_cases own : key = Index.encodeString id
      · simp [memoryShape, Leaves.keyMap, BTree.bindings, own]
      · simp [memoryShape, Leaves.keyMap, BTree.bindings, own, Ne.symm own]
    rw [same]
    exact put
  · refine ⟨?_, rfl, ?_, ?_⟩
    · intro entry member
      rw [memoryShape, List.map_nil, List.mem_singleton] at member
      subst member
      exact ⟨.inl rfl, List.pairwise_singleton _ _⟩
    · intro record member
      rw [memoryOf, List.mem_singleton] at member
      subst member
      show 1 < 2
      decide
    · show 2 + spare < 2 ^ 64
      omega

theorem memoryOf_sound {runtime : Runtime}
    (encoded : Encoded dict payload doc) (wellFormed : dict.WellFormed) :
    (memoryShape dict id payload).Sound runtime := by
  refine ⟨wellFormed, ?_, ?_, List.nodup_nil, nofun⟩
  · intro recID other listed
    have own : recID = 1 ∧ payload = other := by
      by_cases first : recID = 1
      · simpa [memoryShape, Memory.recordMap, first] using listed
      · simp [memoryShape, Memory.recordMap, Ne.symm first] at listed
    obtain ⟨_, rfl⟩ := own
    exact ⟨doc, encoded⟩
  · intro other recID known
    have own : recID = 1 := by
      by_cases same : other = id
      · subst same
        simpa [memoryShape, eq_comm] using known
      · simp [memoryShape, same] at known
    subst own
    exact ⟨payload, rfl⟩

end InMemory

/-- Adds 1 to the field `a`. -/
def bump : List UpdateOp := [.increment [0x61] 1]

def updated (value : Scalar) (ops : List UpdateOp) :
    Except DocumentError Unit × Collection Memory :=
  (memoryOf singleDict [0x70] (itemPayload value)).update plainRuntime
    ⟨.listed, .listed _, .listed _⟩ [0x70] ops

theorem bump_affords : Affords ⟨.listed, .listed _, .listed _⟩
    (Collection.withID (bump.foldl (applyOp plainRuntime)
      (item (.int64 5))) [0x70])
    (memoryOf singleDict [0x70] (itemPayload (.int64 5))) 100 0 := by
  refine ⟨?_, ?_, ?_⟩
  · refine ⟨?_, ?_, ?_⟩
    · decide
    · decide
    · exact ⟨trivial, trivial, trivial⟩
  · rw [FieldDictionary.Spacious]
    decide
  · intro payload grown encodes
    cases encodes
    decide

end CocoDB.Document
