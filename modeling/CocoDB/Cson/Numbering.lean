import Mathlib.Data.Finset.Card
import Mathlib.Data.Finset.Dedup
import CocoDB.Cson.Types

/-!
# Numbering field names

Numbering a list of names gives each unknown one the next value of a 32-bit
counter.  A number is only taken over by another name when the counter comes
round to it.
-/

namespace CocoDB.Cson

open CocoDB.Lib

namespace FieldDictionary

def idOf (dict : FieldDictionary) (name : Bytes) : UInt32 :=
  (dict.getID name).getD 0

def Extends (dict later : FieldDictionary) : Prop :=
  ∀ name fieldID, dict.getID name = some fieldID →
    later.getID name = some fieldID

theorem extends_assignAll (dict : FieldDictionary) (names : List Bytes) :
    dict.Extends (dict.assignAll names) :=
  fun _ _ known => getID_assignAll_of_known names known

theorem Extends.trans {dict later last : FieldDictionary}
    (first : dict.Extends later) (second : later.Extends last) :
    dict.Extends last :=
  fun name fieldID known => second name fieldID (first name fieldID known)

theorem idOf_of_extends {dict later : FieldDictionary} {name : Bytes}
    (grown : (dict.getOrAssignID name).2.Extends later) :
    later.idOf name = (dict.getOrAssignID name).1 := by
  unfold idOf
  rw [grown name _ (getID_getOrAssignID dict name)]
  rfl

def Resolves (dict : FieldDictionary) (name : Bytes) : Prop :=
  dict.getName (dict.idOf name) = some name

/-- A name found by number has that number; this is kept even by a counter
that wraps. -/
def Faithful (dict : FieldDictionary) : Prop :=
  ∀ name fieldID, dict.getName fieldID = some name →
    dict.getID name = some fieldID

/-- The numbering is one to one and the counter is above every number. -/
structure WellFormed (dict : FieldDictionary) : Prop where
  inverse : ∀ name fieldID, dict.getID name = some fieldID ↔
    dict.getName fieldID = some name
  below : ∀ name fieldID, dict.getID name = some fieldID →
    fieldID.toNat < dict.nextID.toNat

def Covered (dict : FieldDictionary) : Prop :=
  ∀ name fieldID, dict.getID name = some fieldID →
    ∃ other, dict.getName fieldID = some other

theorem newFieldDictionary_wellFormed : newFieldDictionary.WellFormed := by
  have ids : ∀ name, newFieldDictionary.getID name =
      if name = idField then some 1 else none := by
    intro name
    by_cases same : name = idField
    · subst same
      rw [if_pos rfl]
      exact AList.lookup_insert _
    · rw [if_neg same]
      exact AList.lookup_insert_ne same
  have names : ∀ fieldID, newFieldDictionary.getName fieldID =
      if fieldID = 1 then some idField else none := by
    intro fieldID
    by_cases same : fieldID = 1
    · subst same
      rw [if_pos rfl]
      exact AList.lookup_insert _
    · rw [if_neg same]
      exact AList.lookup_insert_ne same
  constructor
  · intro name fieldID
    rw [ids, names]
    constructor
    · intro known
      split at known
      · cases known
        simp [*]
      · cases known
    · intro known
      split at known
      · cases known
        simp [*]
      · cases known
  · intro name fieldID known
    rw [ids] at known
    split at known
    · cases known
      decide
    · cases known

theorem Faithful.getOrAssignID {dict : FieldDictionary}
    (faithful : dict.Faithful) (name : Bytes) :
    (dict.getOrAssignID name).2.Faithful := by
  cases found : dict.getID name with
  | some fieldID =>
      rw [getOrAssignID_of_known found]
      exact faithful
  | none =>
      rw [getOrAssignID_of_fresh found]
      intro other fieldID listed
      by_cases same : fieldID = dict.nextID
      · subst same
        rw [getName_assign_self] at listed
        cases listed
        exact getID_assign_self dict name
      · rw [getName_assign_ne dict name same] at listed
        have known := faithful other fieldID listed
        rw [getID_assign_ne dict (by
          rintro rfl
          rw [known] at found
          cases found)]
        exact known

theorem Covered.getOrAssignID {dict : FieldDictionary}
    (covered : dict.Covered) (name : Bytes) :
    (dict.getOrAssignID name).2.Covered := by
  cases found : dict.getID name with
  | some fieldID =>
      rw [getOrAssignID_of_known found]
      exact covered
  | none =>
      rw [getOrAssignID_of_fresh found]
      intro other fieldID known
      by_cases last : fieldID = dict.nextID
      · exact ⟨name, last ▸ getName_assign_self dict name⟩
      · rw [getName_assign_ne dict name last]
        by_cases same : other = name
        · subst same
          rw [getID_assign_self] at known
          exact absurd (Option.some.inj known).symm last
        · rw [getID_assign_ne dict same] at known
          exact covered other fieldID known

theorem Faithful.assignAll {dict : FieldDictionary}
    (faithful : dict.Faithful) (names : List Bytes) :
    (dict.assignAll names).Faithful := by
  induction names generalizing dict with
  | nil => exact faithful
  | cons name rest inductionHypothesis =>
      exact inductionHypothesis (faithful.getOrAssignID name)

theorem Covered.assignAll {dict : FieldDictionary}
    (covered : dict.Covered) (names : List Bytes) :
    (dict.assignAll names).Covered := by
  induction names generalizing dict with
  | nil => exact covered
  | cons name rest inductionHypothesis =>
      exact inductionHypothesis (covered.getOrAssignID name)

theorem known_assignAll {names : List Bytes} {name : Bytes}
    (member : name ∈ names) (dict : FieldDictionary) :
    ∃ fieldID, (dict.assignAll names).getID name = some fieldID := by
  induction names generalizing dict with
  | nil => cases member
  | cons head rest inductionHypothesis =>
      rcases List.mem_cons.mp member with rfl | later
      · exact ⟨_, getID_assignAll_of_known rest
          (getID_getOrAssignID dict name)⟩
      · exact inductionHypothesis later _

/-! ## When the counter comes round -/

def freshNames (dict : FieldDictionary) (names : List Bytes) :
    Finset Bytes :=
  names.toFinset.filter fun name => dict.getID name = none

theorem freshNames_of_known {dict : FieldDictionary} {name : Bytes}
    {fieldID : UInt32} (rest : List Bytes)
    (known : dict.getID name = some fieldID) :
    dict.freshNames (name :: rest) = dict.freshNames rest := by
  unfold freshNames
  rw [List.toFinset_cons, Finset.filter_insert, if_neg (by simp [known])]

theorem card_freshNames_of_fresh {dict : FieldDictionary} {name : Bytes}
    (rest : List Bytes) (fresh : dict.getID name = none) :
    (dict.freshNames (name :: rest)).card =
      ((dict.assign name).freshNames rest).card + 1 := by
  have others : dict.freshNames (name :: rest) =
      insert name ((dict.assign name).freshNames rest) := by
    ext other
    unfold freshNames
    simp only [Finset.mem_filter, List.mem_toFinset, List.mem_cons,
      Finset.mem_insert]
    by_cases same : other = name
    · simp [same, fresh]
    · simp [same, getID_assign_ne dict same]
  rw [others, Finset.card_insert_of_notMem]
  unfold freshNames
  simp [getID_assign_self]

theorem not_resolves_assignAll {dict : FieldDictionary} {name : Bytes}
    {fieldID : UInt32} (names : List Bytes)
    (known : dict.getID name = some fieldID)
    (lost : dict.getName fieldID ≠ some name) :
    ¬(dict.assignAll names).Resolves name := by
  induction names generalizing dict with
  | nil =>
      unfold Resolves idOf
      rw [assignAll_nil, known]
      exact lost
  | cons head rest inductionHypothesis =>
      rw [assignAll_cons]
      refine inductionHypothesis (getID_getOrAssignID_of_known head known) ?_
      cases found : dict.getID head with
      | some headID =>
          rw [getOrAssignID_of_known found]
          exact lost
      | none =>
          rw [getOrAssignID_of_fresh found]
          by_cases same : fieldID = dict.nextID
          · subst same
            rw [getName_assign_self]
            intro taken
            cases taken
            rw [known] at found
            cases found
          · rw [getName_assign_ne dict head same]
            exact lost

theorem toNat_sub_succ {fieldID counter : UInt32}
    (different : fieldID ≠ counter) :
    (fieldID - counter).toNat = (fieldID - (counter + 1)).toNat + 1 := by
  have apart : fieldID.toNat ≠ counter.toNat := fun same =>
    different (UInt32.toNat.inj same)
  have fieldSmall := fieldID.toNat_lt
  have counterSmall := counter.toNat_lt
  rw [UInt32.toNat_sub, UInt32.toNat_sub, UInt32.toNat_add]
  simp only [UInt32.reduceToNat]
  omega

theorem toNat_sub_self_succ (counter : UInt32) :
    (counter - (counter + 1)).toNat = 2 ^ 32 - 1 := by
  have small := counter.toNat_lt
  rw [UInt32.toNat_sub, UInt32.toNat_add]
  simp only [UInt32.reduceToNat]
  omega

/-- A numbered name keeps its number to itself exactly while fewer names are
numbered than the counter has values left before reaching it. -/
theorem resolves_assignAll_iff {dict : FieldDictionary} {name : Bytes}
    {fieldID : UInt32} (names : List Bytes)
    (known : dict.getID name = some fieldID)
    (listed : dict.getName fieldID = some name) :
    (dict.assignAll names).Resolves name ↔
      (dict.freshNames names).card ≤ (fieldID - dict.nextID).toNat := by
  induction names generalizing dict with
  | nil =>
      have resolves : dict.Resolves name := by
        unfold Resolves idOf
        rw [known]
        exact listed
      simp [resolves, freshNames]
  | cons head rest inductionHypothesis =>
      rw [assignAll_cons]
      cases found : dict.getID head with
      | some headID =>
          rw [getOrAssignID_of_known found, freshNames_of_known rest found]
          exact inductionHypothesis known listed
      | none =>
          have stillKnown := getID_getOrAssignID_of_known head known
          rw [getOrAssignID_of_fresh found] at stillKnown ⊢
          rw [card_freshNames_of_fresh rest found]
          by_cases taken : fieldID = dict.nextID
          · subst taken
            have lost : (dict.assign head).getName dict.nextID ≠
                some name := by
              rw [getName_assign_self]
              intro same
              cases same
              rw [known] at found
              cases found
            have never := not_resolves_assignAll rest stillKnown lost
            simp [never]
          · have still : (dict.assign head).getName fieldID = some name := by
              rw [getName_assign_ne dict head taken]
              exact listed
            have later := inductionHypothesis stillKnown still
            simp only at later ⊢
            rw [later]
            have closer : (fieldID - dict.nextID).toNat =
                (fieldID - (dict.nextID + 1)).toNat + 1 :=
              toNat_sub_succ taken
            rw [closer]
            change _ ≤ (fieldID - (dict.nextID + 1)).toNat ↔ _
            omega

theorem resolves_assignAll_of_fresh {dict : FieldDictionary} {name : Bytes}
    {names : List Bytes} (member : name ∈ names)
    (fresh : dict.getID name = none)
    (few : (dict.freshNames names).card ≤ 2 ^ 32) :
    (dict.assignAll names).Resolves name := by
  induction names generalizing dict with
  | nil => cases member
  | cons head rest inductionHypothesis =>
      rw [assignAll_cons]
      cases found : dict.getID head with
      | some headID =>
          have different : name ≠ head := by
            rintro rfl
            rw [fresh] at found
            cases found
          rw [freshNames_of_known rest found] at few
          rw [getOrAssignID_of_known found]
          exact inductionHypothesis
            ((List.mem_cons.mp member).resolve_left different) fresh few
      | none =>
          rw [card_freshNames_of_fresh rest found] at few
          rw [getOrAssignID_of_fresh found]
          by_cases same : name = head
          · subst same
            rw [resolves_assignAll_iff rest (getID_assign_self dict name)
              (getName_assign_self dict name)]
            have distance : (dict.nextID - (dict.assign name).nextID).toNat =
                2 ^ 32 - 1 := toNat_sub_self_succ dict.nextID
            rw [distance]
            omega
          · have stillFresh : (dict.assign head).getID name = none := by
              rw [getID_assign_ne dict same]
              exact fresh
            have fewer : ((dict.assign head).freshNames rest).card ≤
                2 ^ 32 := by omega
            exact inductionHypothesis
              ((List.mem_cons.mp member).resolve_left same) stillFresh fewer

/-- Numbering the new names of a list does not bring the counter round to the
number of one it already has. -/
def Unclashed (dict : FieldDictionary) (names : List Bytes) : Prop :=
  ∀ name ∈ names, ∀ fieldID, dict.getID name = some fieldID →
    dict.nextID.toNat + (dict.freshNames names).card ≤
      fieldID.toNat + 2 ^ 32

theorem resolves_iff_unclashed {dict : FieldDictionary}
    (wellFormed : dict.WellFormed) {names : List Bytes}
    (few : (dict.freshNames names).card ≤ 2 ^ 32) :
    (∀ name ∈ names, (dict.assignAll names).Resolves name) ↔
      dict.Unclashed names := by
  have distance : ∀ name fieldID, dict.getID name = some fieldID →
      (fieldID - dict.nextID).toNat =
        fieldID.toNat + 2 ^ 32 - dict.nextID.toNat := by
    intro name fieldID known
    have below := wellFormed.below name fieldID known
    have small := dict.nextID.toNat_lt
    rw [UInt32.toNat_sub]
    omega
  constructor
  · intro resolves name member fieldID known
    have kept := (resolves_assignAll_iff names known
      ((wellFormed.inverse name fieldID).mp known)).mp (resolves name member)
    have below := wellFormed.below name fieldID known
    have small := dict.nextID.toNat_lt
    rw [distance name fieldID known] at kept
    omega
  · intro unclashed name member
    cases found : dict.getID name with
    | none => exact resolves_assignAll_of_fresh member found few
    | some fieldID =>
        rw [resolves_assignAll_iff names found
          ((wellFormed.inverse name fieldID).mp found),
          distance name fieldID found]
        have bound := unclashed name member fieldID found
        omega

end FieldDictionary

end CocoDB.Cson
