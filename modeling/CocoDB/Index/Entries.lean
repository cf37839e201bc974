import CocoDB.Cson.Growth
import CocoDB.Index.Secondary

/-!
# What the entries of an index say

Documents are found by identifier: `ids` gives the record, `records` its
payload.  An index is exact when its map lists the keys of these documents and
nothing else; it owns them when no key leads to another record.
-/

namespace CocoDB.Index

open Lib Cson SecondaryIndex

section Keys

variable {runtime : Runtime} {definition : IndexDefinition}
  {dict later : FieldDictionary} {payload : Bytes} {doc : Document}

theorem keyOf_record {other : Bytes} {recID otherID : RecordID} {key : Bytes}
    (shared : definition.unique = false)
    (first : definition.keyOf runtime dict payload recID = some key)
    (second : definition.keyOf runtime dict other otherID = some key) :
    recID = otherID := by
  unfold IndexDefinition.keyOf IndexDefinition.buildKey at first second
  split at first
  · split at second
    · simp only [shared, Bool.false_eq_true, if_false,
        Option.map_eq_some_iff] at first second
      obtain ⟨components, _, rfl⟩ := first
      obtain ⟨others, _, same⟩ := second
      exact (appendRecordID_injective same).1.symm
    · cases second
  · cases first

theorem keyOf_grow (encoded : Encoded dict payload doc)
    (wellFormed : dict.WellFormed) (grows : dict.Extends later)
    (laterWellFormed : later.WellFormed) (recID : RecordID) :
    definition.keyOf runtime later payload recID =
      definition.keyOf runtime dict payload recID := by
  have same : ∀ field,
      valueOf ⟨payload, later, fieldCountOf payload⟩ field =
        valueOf ⟨payload, dict, fieldCountOf payload⟩ field :=
    encoded.fieldValue_eq wellFormed grows laterWellFormed
  have components : ∀ fields,
      definition.components runtime
          ⟨payload, later, fieldCountOf payload⟩ fields =
        definition.components runtime
          ⟨payload, dict, fieldCountOf payload⟩ fields := by
    intro fields
    induction fields with
    | nil => rfl
    | cons field rest inductionHypothesis =>
        rw [IndexDefinition.components, IndexDefinition.components, same,
          inductionHypothesis]
  have covers : definition.covers runtime
        ⟨payload, later, fieldCountOf payload⟩ =
      definition.covers runtime ⟨payload, dict, fieldCountOf payload⟩ := by
    unfold IndexDefinition.covers
    rw [same]
  unfold IndexDefinition.keyOf IndexDefinition.buildKey
  rw [components, covers]

end Keys

/-! ## Owned and exact maps -/

/-- The documents and what is stored for them. -/
structure Contents where
  dict : FieldDictionary
  ids : Bytes → Option RecordID
  records : RecordMap

def Contents.Live (contents : Contents) (id : Bytes) (recID : RecordID)
    (payload : Bytes) : Prop :=
  contents.ids id = some recID ∧ contents.records recID = some payload

def Contents.Separate (contents : Contents) : Prop :=
  ∀ ⦃id other recID⦄, contents.ids id = some recID →
    contents.ids other = some recID → id = other

def Contents.Stored (contents : Contents) : Prop :=
  ∀ ⦃id recID⦄, contents.ids id = some recID →
    ∃ payload doc, contents.records recID = some payload ∧
      Encoded contents.dict payload doc

def Owned (runtime : Runtime) (definition : IndexDefinition)
    (contents : Contents) (map : KeyMap) : Prop :=
  ∀ ⦃id recID payload key⦄, contents.Live id recID payload →
    definition.keyOf runtime contents.dict payload recID = some key →
    map key = some (definition.entryValue recID)

def Justified (runtime : Runtime) (definition : IndexDefinition)
    (contents : Contents) (map : KeyMap) : Prop :=
  ∀ ⦃key value⦄, map key = some value →
    ∃ id recID payload, contents.Live id recID payload ∧
      definition.keyOf runtime contents.dict payload recID = some key ∧
      value = definition.entryValue recID

/-- The entries are those of the documents. -/
structure Exact (runtime : Runtime) (definition : IndexDefinition)
    (contents : Contents) (map : KeyMap) : Prop where
  owned : Owned runtime definition contents map
  justified : Justified runtime definition contents map

section Entries

variable {runtime : Runtime} {definition : IndexDefinition}
  {contents : Contents} {map : KeyMap} {id : Bytes} {recID : RecordID}
  {payload : Bytes}

theorem Owned.record_eq (owned : Owned runtime definition contents map)
    {other : Bytes} {otherID : RecordID} {otherPayload key : Bytes}
    (live : contents.Live id recID payload)
    (keyed : definition.keyOf runtime contents.dict payload recID = some key)
    (otherLive : contents.Live other otherID otherPayload)
    (otherKeyed : definition.keyOf runtime contents.dict otherPayload
      otherID = some key) : recID = otherID := by
  by_cases unique : definition.unique = true
  · have first := owned live keyed
    have second := owned otherLive otherKeyed
    rw [first] at second
    unfold IndexDefinition.entryValue at second
    rw [if_pos unique, if_pos unique] at second
    exact recordBytes_injective (Option.some.inj second)
  · exact keyOf_record (Bool.not_eq_true _ ▸ unique) keyed otherKeyed

/-! ### Removing a document -/

def Contents.without (contents : Contents) (id : Bytes) : Contents :=
  { contents with ids := Function.update contents.ids id none }

theorem Contents.ids_without {other : Bytes} {otherID : RecordID} :
    (contents.without id).ids other = some otherID ↔
      other ≠ id ∧ contents.ids other = some otherID := by
  show Function.update contents.ids id none other = some otherID ↔ _
  by_cases same : other = id
  · subst same
    simp
  · simp [same]

theorem Contents.without_eq (missing : contents.ids id = none) :
    contents.without id = contents := by
  simp only [without, ← missing, Function.update_eq_self]

theorem Contents.live_without {other : Bytes} {otherID : RecordID}
    {otherPayload : Bytes} :
    (contents.without id).Live other otherID otherPayload ↔
      other ≠ id ∧ contents.Live other otherID otherPayload := by
  unfold Live
  rw [ids_without, and_assoc]
  exact Iff.rfl

theorem Contents.Separate.without (separate : contents.Separate)
    (id : Bytes) : (contents.without id).Separate :=
  fun _ _ _ first second => separate (Contents.ids_without.mp first).2
    (Contents.ids_without.mp second).2

theorem Contents.Stored.without (stored : contents.Stored) (id : Bytes) :
    (contents.without id).Stored :=
  fun _ _ found => stored (Contents.ids_without.mp found).2

theorem Owned.remove (owned : Owned runtime definition contents map)
    (separate : contents.Separate) (live : contents.Live id recID payload) :
    Owned runtime definition (contents.without id)
      (erase (definition.keyOf runtime contents.dict payload recID) map) := by
  intro other otherID otherPayload key otherLive otherKeyed
  obtain ⟨different, otherLive⟩ := Contents.live_without.mp otherLive
  have entry := owned otherLive otherKeyed
  cases keyed : definition.keyOf runtime contents.dict payload recID with
  | none => exact entry
  | some removed =>
      have apart : key ≠ removed := by
        rintro rfl
        have same := owned.record_eq live keyed otherLive otherKeyed
        rw [← same] at otherLive
        exact different (separate otherLive.1 live.1)
      exact (Function.update_of_ne apart _ _).trans entry

theorem Justified.remove
    (justified : Justified runtime definition contents map)
    (live : contents.Live id recID payload) :
    Justified runtime definition (contents.without id)
      (erase (definition.keyOf runtime contents.dict payload recID) map) := by
  intro key value listed
  have before : map key = some value ∧
      definition.keyOf runtime contents.dict payload recID ≠ some key := by
    cases keyed : definition.keyOf runtime contents.dict payload recID with
    | none =>
        rw [keyed] at listed
        exact ⟨listed, fun absurd => nomatch absurd⟩
    | some removed =>
        rw [keyed] at listed
        by_cases same : key = removed
        · subst same
          simp only [erase, Function.update_self] at listed
          cases listed
        · simp only [erase, Function.update_of_ne same] at listed
          exact ⟨listed, fun equal => same (Option.some.inj equal).symm⟩
  obtain ⟨other, otherID, otherPayload, otherLive, otherKeyed, valued⟩ :=
    justified before.1
  refine ⟨other, otherID, otherPayload, Contents.live_without.mpr
    ⟨?_, otherLive⟩, otherKeyed, valued⟩
  rintro rfl
  have sameID : otherID = recID :=
    Option.some.inj (otherLive.1.symm.trans live.1)
  subst sameID
  have samePayload : otherPayload = payload :=
    Option.some.inj (otherLive.2.symm.trans live.2)
  subst samePayload
  exact before.2 otherKeyed

theorem Exact.remove (precise : Exact runtime definition contents map)
    (separate : contents.Separate) (live : contents.Live id recID payload) :
    Exact runtime definition (contents.without id)
      (erase (definition.keyOf runtime contents.dict payload recID) map) :=
  ⟨precise.owned.remove separate live, precise.justified.remove live⟩

/-! ### Adding a document -/

/-- The documents with one more, in a record that no other document has. -/
def Contents.with (contents : Contents) (id : Bytes) (recID : RecordID)
    (payload : Bytes) : Contents :=
  { contents with
    ids := Function.update contents.ids id (some recID)
    records := Function.update contents.records recID (some payload) }

def Contents.Unused (contents : Contents) (recID : RecordID) : Prop :=
  ∀ id, contents.ids id ≠ some recID

theorem Contents.live_with (unused : contents.Unused recID) {other : Bytes}
    {otherID : RecordID} {otherPayload : Bytes} :
    (contents.with id recID payload).Live other otherID otherPayload ↔
      (other = id ∧ otherID = recID ∧ otherPayload = payload) ∨
        (other ≠ id ∧ otherID ≠ recID ∧
          contents.Live other otherID otherPayload) := by
  unfold Live Contents.with
  by_cases same : other = id
  · subst same
    simp only [Function.update_self, Option.some.injEq, true_and, ne_eq,
      not_true_eq_false, false_and, or_false]
    constructor
    · rintro ⟨rfl, stored⟩
      rw [Function.update_self] at stored
      exact ⟨rfl, (Option.some.inj stored).symm⟩
    · rintro ⟨rfl, rfl⟩
      exact ⟨rfl, Function.update_self _ _ _⟩
  · simp only [Function.update_of_ne same, same, false_and, false_or, ne_eq,
      not_false_eq_true, true_and]
    constructor
    · rintro ⟨found, stored⟩
      have apart : otherID ≠ recID := by
        rintro rfl
        exact unused other found
      rw [Function.update_of_ne apart] at stored
      exact ⟨apart, found, stored⟩
    · rintro ⟨apart, found, stored⟩
      exact ⟨found, (Function.update_of_ne apart _ _).trans stored⟩

theorem Owned.add (owned : Owned runtime definition contents map)
    (unused : contents.Unused recID)
    (free : ∀ key, definition.keyOf runtime contents.dict payload recID =
      some key → ¬ Taken definition recID map key) :
    Owned runtime definition (contents.with id recID payload)
      (enter (definition.keyOf runtime contents.dict payload recID)
        (definition.entryValue recID) map) := by
  intro other otherID otherPayload key live keyed
  rcases (Contents.live_with unused).mp live with
    ⟨rfl, rfl, rfl⟩ | ⟨_, apart, old⟩
  · have keyedNow : definition.keyOf runtime contents.dict otherPayload
        otherID = some key := keyed
    rw [keyedNow]
    exact Function.update_self _ _ _
  · have entry := owned old keyed
    cases newKey : definition.keyOf runtime contents.dict payload recID with
    | none => exact entry
    | some added =>
        by_cases same : key = added
        · subst same
          -- the check of `Insert` would have found the other record
          by_cases unique : definition.unique = true
          · refine absurd ⟨unique, _, entry, ?_, ?_⟩ (free key newKey)
            · rw [IndexDefinition.entryValue, if_pos unique,
                recordBytes_length]
            · rw [IndexDefinition.entryValue, if_pos unique,
                recordOf_recordBytes]
              exact apart
          · exact absurd (keyOf_record (Bool.not_eq_true _ ▸ unique) keyed
              newKey) apart
        · exact (Function.update_of_ne same _ _).trans entry

theorem Justified.add (justified : Justified runtime definition contents map)
    (unused : contents.Unused recID) (new : contents.ids id = none) :
    Justified runtime definition (contents.with id recID payload)
      (enter (definition.keyOf runtime contents.dict payload recID)
        (definition.entryValue recID) map) := by
  intro key value listed
  have old : map key = some value →
      ∃ other otherID otherPayload,
        (contents.with id recID payload).Live other otherID otherPayload ∧
          definition.keyOf runtime contents.dict otherPayload otherID =
            some key ∧ value = definition.entryValue otherID := by
    intro before
    obtain ⟨other, otherID, otherPayload, live, keyed, valued⟩ :=
      justified before
    refine ⟨other, otherID, otherPayload, (Contents.live_with unused).mpr
      (.inr ⟨?_, ?_, live⟩), keyed, valued⟩
    · rintro rfl
      rw [live.1] at new
      cases new
    · rintro rfl
      exact unused other live.1
  cases newKey : definition.keyOf runtime contents.dict payload recID with
  | none =>
      rw [newKey] at listed
      exact old listed
  | some added =>
      rw [newKey] at listed
      by_cases same : key = added
      · subst same
        simp only [enter, Function.update_self, Option.some.injEq] at listed
        exact ⟨id, recID, payload, (Contents.live_with unused).mpr
          (.inl ⟨rfl, rfl, rfl⟩), newKey, listed.symm⟩
      · simp only [enter, Function.update_of_ne same] at listed
        exact old listed

theorem Contents.without_with :
    (contents.without id).with id recID payload =
      contents.with id recID payload := by
  simp only [without, Contents.with, Function.update_idem]

theorem Contents.with_without (missing : contents.ids id = none) :
    (contents.with id recID payload).without id =
      { contents with
        records := Function.update contents.records recID (some payload) } := by
  simp only [without, Contents.with, Function.update_idem]
  rw [← missing, Function.update_eq_self]

def Contents.release (contents : Contents) (id : Bytes) (recID : RecordID) :
    Contents :=
  { contents.without id with
    records := Function.update contents.records recID none }

theorem Contents.release_with :
    (contents.release id recID).with id recID payload =
      contents.with id recID payload := by
  simp only [release, without, Contents.with, Function.update_idem]

theorem Contents.Separate.ids_release (separate : contents.Separate)
    (known : contents.ids id = some recID) {other : Bytes}
    {otherID : RecordID}
    (listed : (contents.release id recID).ids other = some otherID) :
    other ≠ id ∧ contents.ids other = some otherID ∧ otherID ≠ recID := by
  obtain ⟨different, same⟩ := ids_without.mp listed
  refine ⟨different, same, ?_⟩
  rintro rfl
  exact different (separate same known)

theorem Contents.Separate.live_release (separate : contents.Separate)
    (known : contents.ids id = some recID) {other : Bytes}
    {otherID : RecordID} {otherPayload : Bytes} :
    (contents.without id).Live other otherID otherPayload ↔
      (contents.release id recID).Live other otherID otherPayload := by
  apply and_congr_right
  intro listed
  obtain ⟨_, _, apart⟩ := separate.ids_release known listed
  exact iff_of_eq (congrArg (· = some otherPayload)
    (Function.update_of_ne apart ..).symm)

theorem Contents.Stored.release (stored : contents.Stored)
    (separate : contents.Separate) (known : contents.ids id = some recID) :
    (contents.release id recID).Stored := by
  intro other otherID listed
  obtain ⟨_, same, apart⟩ := separate.ids_release known listed
  obtain ⟨old, oldDoc, kept, encoded⟩ := stored same
  exact ⟨old, oldDoc, (Function.update_of_ne apart ..).trans kept, encoded⟩

theorem Contents.Stored.unused (stored : contents.Stored)
    (fresh : contents.records recID = none) : contents.Unused recID := by
  intro id listed
  obtain ⟨old, _, kept, _⟩ := stored listed
  rw [fresh] at kept
  cases kept

theorem Contents.Separate.with (separate : contents.Separate)
    (unused : (contents.without id).Unused recID) :
    (contents.with id recID payload).Separate := by
  have apart : ∀ {other}, other ≠ id → contents.ids other ≠ some recID :=
    fun different listed => unused _ (ids_without.mpr ⟨different, listed⟩)
  intro one two found first second
  simp only [Contents.with] at first second
  by_cases left : one = id
  · by_cases right : two = id
    · rw [left, right]
    · rw [left, Function.update_self] at first
      rw [Function.update_of_ne right, ← first] at second
      exact absurd second (apart right)
  · rw [Function.update_of_ne left] at first
    by_cases right : two = id
    · rw [right, Function.update_self] at second
      rw [← second] at first
      exact absurd first (apart left)
    · rw [Function.update_of_ne right] at second
      exact separate first second

theorem Contents.Stored.with (stored : contents.Stored) {doc : Document}
    (encoded : Encoded contents.dict payload doc) :
    (contents.with id recID payload).Stored := by
  intro other found listed
  by_cases same : found = recID
  · exact ⟨payload, doc, by rw [same]; exact Function.update_self ..,
      encoded⟩
  · have different : other ≠ id := by
      rintro rfl
      have own : (contents.with other recID payload).ids other =
          some recID := Function.update_self ..
      exact same (Option.some.inj (own.symm.trans listed)).symm
    have before : contents.ids other = some found := by
      rw [← listed]
      exact (Function.update_of_ne different ..).symm
    obtain ⟨old, oldDoc, kept, oldEncoded⟩ := stored before
    exact ⟨old, oldDoc, (Function.update_of_ne same ..).trans kept,
      oldEncoded⟩

theorem Exact.store
    (precise : Exact runtime definition (contents.without id) map)
    (unused : (contents.without id).Unused recID)
    (free : ∀ key, definition.keyOf runtime contents.dict payload recID =
      some key → ¬ Taken definition recID map key) :
    Exact runtime definition (contents.with id recID payload)
      (enter (definition.keyOf runtime contents.dict payload recID)
        (definition.entryValue recID) map) := by
  rw [← Contents.without_with]
  exact ⟨precise.owned.add unused free,
    precise.justified.add unused (Function.update_self ..)⟩

theorem Exact.congr (precise : Exact runtime definition contents map)
    {others : Contents} (dict : others.dict = contents.dict)
    (same : ∀ {id recID payload}, contents.Live id recID payload ↔
      others.Live id recID payload) :
    Exact runtime definition others map := by
  refine ⟨fun id recID payload key live keyed => ?_, fun key value listed => ?_⟩
  · rw [dict] at keyed
    exact precise.owned (same.mpr live) keyed
  · obtain ⟨id, recID, payload, live, keyed, valued⟩ :=
      precise.justified listed
    rw [← dict] at keyed
    exact ⟨id, recID, payload, same.mp live, keyed, valued⟩

end Entries

section Growth

variable {runtime : Runtime} {definition : IndexDefinition}
  {contents : Contents} {map : KeyMap} {later : FieldDictionary}

def Contents.under (contents : Contents) (dict : FieldDictionary) :
    Contents :=
  { contents with dict := dict }

theorem Contents.Stored.under (stored : contents.Stored)
    (grows : contents.dict.Extends later) :
    (contents.under later).Stored := by
  intro id recID found
  obtain ⟨payload, doc, listed, encoded⟩ := stored found
  exact ⟨payload, doc, listed, encoded.grow grows⟩

theorem Contents.Stored.keyOf_eq (stored : contents.Stored)
    (wellFormed : contents.dict.WellFormed)
    (grows : contents.dict.Extends later) (laterWellFormed : later.WellFormed)
    {id payload : Bytes} {recID : RecordID}
    (live : contents.Live id recID payload) :
    definition.keyOf runtime later payload recID =
      definition.keyOf runtime contents.dict payload recID := by
  obtain ⟨found, doc, listed, encoded⟩ := stored live.1
  have same : found = payload := Option.some.inj (listed.symm.trans live.2)
  subst same
  exact keyOf_grow encoded wellFormed grows laterWellFormed recID

theorem Owned.under (owned : Owned runtime definition contents map)
    (stored : contents.Stored) (wellFormed : contents.dict.WellFormed)
    (grows : contents.dict.Extends later)
    (laterWellFormed : later.WellFormed) :
    Owned runtime definition (contents.under later) map := by
  intro id recID payload key live keyed
  refine owned live ?_
  rw [← stored.keyOf_eq wellFormed grows laterWellFormed live]
  exact keyed

theorem Exact.under (precise : Exact runtime definition contents map)
    (stored : contents.Stored) (wellFormed : contents.dict.WellFormed)
    (grows : contents.dict.Extends later)
    (laterWellFormed : later.WellFormed) :
    Exact runtime definition (contents.under later) map := by
  refine ⟨precise.owned.under stored wellFormed grows laterWellFormed, ?_⟩
  intro key value listed
  obtain ⟨id, recID, payload, live, keyed, valued⟩ := precise.justified listed
  refine ⟨id, recID, payload, live, ?_, valued⟩
  rw [← stored.keyOf_eq wellFormed grows laterWellFormed live] at keyed
  exact keyed

end Growth

end CocoDB.Index
