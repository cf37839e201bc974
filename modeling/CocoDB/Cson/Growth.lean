import CocoDB.Cson.Lookup

/-!
# The growth of a dictionary

Encoding numbers the names of a document, also when it fails half way.  The
dictionary stays one to one as long as its counter does not come round.
-/

namespace CocoDB.Cson

open CocoDB.Lib

namespace FieldDictionary

def Spacious (dict : FieldDictionary) (names : List Bytes) : Prop :=
  dict.nextID.toNat + (dict.freshNames names).card < 2 ^ 32

theorem WellFormed.assign {dict : FieldDictionary}
    (wellFormed : dict.WellFormed) {name : Bytes}
    (fresh : dict.getID name = none) (room : dict.nextID.toNat + 1 < 2 ^ 32) :
    (dict.assign name).WellFormed := by
  have next : (dict.assign name).nextID.toNat = dict.nextID.toNat + 1 := by
    show (dict.nextID + 1).toNat = _
    rw [UInt32.toNat_add]
    exact Nat.mod_eq_of_lt room
  have unused : ∀ other fieldID, dict.getID other = some fieldID →
      fieldID ≠ dict.nextID := by
    intro other fieldID known same
    have below := wellFormed.below other fieldID known
    rw [same] at below
    exact Nat.lt_irrefl _ below
  constructor
  · intro other fieldID
    by_cases sameName : other = name
    · subst sameName
      rw [getID_assign_self]
      by_cases sameID : fieldID = dict.nextID
      · subst sameID
        rw [getName_assign_self]
        exact ⟨fun _ => rfl, fun _ => rfl⟩
      · rw [getName_assign_ne dict other sameID]
        constructor
        · intro equal
          exact absurd (Option.some.inj equal).symm sameID
        · intro listed
          rw [(wellFormed.inverse other fieldID).mpr listed] at fresh
          cases fresh
    · rw [getID_assign_ne dict sameName]
      by_cases sameID : fieldID = dict.nextID
      · subst sameID
        rw [getName_assign_self]
        constructor
        · intro known
          exact absurd rfl (unused other _ known)
        · intro equal
          exact absurd (Option.some.inj equal).symm sameName
      · rw [getName_assign_ne dict name sameID]
        exact wellFormed.inverse other fieldID
  · intro other fieldID known
    rw [next]
    by_cases sameName : other = name
    · subst sameName
      rw [getID_assign_self] at known
      cases known
      exact Nat.lt_succ_self _
    · rw [getID_assign_ne dict sameName] at known
      exact Nat.lt_succ_of_lt (wellFormed.below other fieldID known)

theorem WellFormed.assignAll {dict : FieldDictionary}
    (wellFormed : dict.WellFormed) {names : List Bytes}
    (spacious : dict.Spacious names) : (dict.assignAll names).WellFormed := by
  induction names generalizing dict with
  | nil => exact wellFormed
  | cons name rest inductionHypothesis =>
      unfold Spacious at spacious
      rw [assignAll_cons]
      cases found : dict.getID name with
      | some fieldID =>
          rw [getOrAssignID_of_known found]
          rw [freshNames_of_known rest found] at spacious
          exact inductionHypothesis wellFormed spacious
      | none =>
          rw [getOrAssignID_of_fresh found]
          rw [card_freshNames_of_fresh rest found] at spacious
          have next : (dict.assign name).nextID.toNat =
              dict.nextID.toNat + 1 := by
            show (dict.nextID + 1).toNat = _
            rw [UInt32.toNat_add]
            exact Nat.mod_eq_of_lt (by
              show dict.nextID.toNat + 1 < 2 ^ 32
              omega)
          have remaining : (dict.assign name).Spacious rest := by
            unfold Spacious
            rw [next]
            omega
          exact inductionHypothesis (wellFormed.assign found (by omega))
            remaining

theorem Spacious.mono {dict : FieldDictionary} {names fewer : List Bytes}
    (spacious : dict.Spacious names) (within : fewer ⊆ names) :
    dict.Spacious fewer := by
  have included : dict.freshNames fewer ⊆ dict.freshNames names := by
    unfold freshNames
    refine Finset.filter_subset_filter _ fun name member => ?_
    rw [List.mem_toFinset] at member ⊢
    exact within member
  have fewerNames := Finset.card_le_card included
  unfold Spacious at spacious ⊢
  omega

end FieldDictionary

/-! ## The dictionary after encoding -/

def GrownBy (listed : List Bytes) (dict grown : FieldDictionary) : Prop :=
  ∃ taken, taken ⊆ listed ∧ grown = dict.assignAll taken

theorem GrownBy.refl (listed : List Bytes) (dict : FieldDictionary) :
    GrownBy listed dict dict :=
  ⟨[], List.nil_subset _, rfl⟩

theorem GrownBy.mono {listed more : List Bytes}
    {dict grown : FieldDictionary} (growth : GrownBy listed dict grown)
    (within : listed ⊆ more) : GrownBy more dict grown := by
  obtain ⟨taken, subset, rfl⟩ := growth
  exact ⟨taken, List.Subset.trans subset within, rfl⟩

theorem GrownBy.trans {listed : List Bytes}
    {dict middle grown : FieldDictionary} (first : GrownBy listed dict middle)
    (second : GrownBy listed middle grown) : GrownBy listed dict grown := by
  obtain ⟨front, frontSubset, rfl⟩ := first
  obtain ⟨back, backSubset, rfl⟩ := second
  exact ⟨front ++ back, List.append_subset.mpr ⟨frontSubset, backSubset⟩,
    (dict.assignAll_append front back).symm⟩

theorem encodeItems_grown {items : List Value}
    (each : ∀ item ∈ items, ∀ dict,
      GrownBy (names item) dict (encodeValueFast item dict).2) :
    ∀ dict, GrownBy (namesOfItems items) dict (encodeItems items dict).2 := by
  induction items with
  | nil =>
      intro dict
      rw [encodeItems]
      exact GrownBy.refl _ dict
  | cons item rest inductionHypothesis =>
      intro dict
      obtain ⟨first, others⟩ := List.forall_mem_cons.mp each
      have head : GrownBy (namesOfItems (item :: rest)) dict
          (encodeValueFast item dict).2 := by
        rw [namesOfItems]
        exact (first dict).mono (List.subset_append_left _ _)
      have tail : ∀ middle, GrownBy (namesOfItems (item :: rest)) middle
          (encodeItems rest middle).2 := by
        intro middle
        rw [namesOfItems]
        exact (inductionHypothesis others middle).mono
          (List.subset_append_right _ _)
      rw [encodeItems]
      rcases outcome : encodeValueFast item dict with ⟨result, grown⟩
      rw [outcome] at head
      cases result with
      | error cause => exact head
      | ok written =>
          have rested := tail grown
          simp only
          rcases others : encodeItems rest grown with ⟨result, final⟩
          rw [others] at rested
          cases result with
          | error cause => exact head.trans rested
          | ok body => exact head.trans rested

theorem encodeFields_grown {fields : List (Bytes × Value)}
    (each : ∀ field ∈ fields, ∀ dict,
      GrownBy (names field.2) dict (encodeValueFast field.2 dict).2) :
    ∀ dict, GrownBy (namesOfFields fields) dict
      (encodeFields fields dict).2 := by
  induction fields with
  | nil =>
      intro dict
      rw [encodeFields]
      exact GrownBy.refl _ dict
  | cons field rest inductionHypothesis =>
      intro dict
      obtain ⟨name, value⟩ := field
      obtain ⟨first, others⟩ := List.forall_mem_cons.mp each
      have named : GrownBy (namesOfFields ((name, value) :: rest)) dict
          (dict.getOrAssignID name).2 := by
        refine ⟨[name], ?_, rfl⟩
        rw [namesOfFields]
        exact List.cons_subset_cons name (List.nil_subset _)
      have head : ∀ middle, GrownBy (namesOfFields ((name, value) :: rest))
          middle (encodeValueFast value middle).2 := by
        intro middle
        rw [namesOfFields]
        exact (first middle).mono fun _ member =>
          List.mem_cons_of_mem _ (List.mem_append_left _ member)
      have tail : ∀ middle, GrownBy (namesOfFields ((name, value) :: rest))
          middle (encodeFields rest middle).2 := by
        intro middle
        rw [namesOfFields]
        exact (inductionHypothesis others middle).mono fun _ member =>
          List.mem_cons_of_mem _ (List.mem_append_right _ member)
      have valued := named.trans (head (dict.getOrAssignID name).2)
      rw [encodeFields]
      rcases outcome : encodeValueFast value (dict.getOrAssignID name).2 with
        ⟨result, grown⟩
      rw [outcome] at valued
      cases result with
      | error cause => exact valued
      | ok written =>
          have rested := tail grown
          simp only
          rcases others : encodeFields rest grown with ⟨result, final⟩
          rw [others] at rested
          cases result with
          | error cause => exact valued.trans rested
          | ok rawFields => exact valued.trans rested

theorem encodeValueFast_grown (value : Value) :
    ∀ dict, GrownBy (names value) dict (encodeValueFast value dict).2 := by
  induction value using Value.nested with
  | scalar value =>
      intro dict
      rw [encodeValueFast]
      exact GrownBy.refl _ dict
  | unsupported typeName =>
      intro dict
      rw [encodeValueFast]
      exact GrownBy.refl _ dict
  | array items inductionHypothesis =>
      intro dict
      have body := encodeItems_grown inductionHypothesis dict
      rw [encodeValueFast, names]
      rcases outcome : encodeItems items dict with ⟨result, grown⟩
      rw [outcome] at body
      cases result with
      | error cause => exact body
      | ok bytes => exact body
  | object fields inductionHypothesis =>
      intro dict
      have body := encodeFields_grown inductionHypothesis dict
      rw [encodeValueFast, names]
      rcases outcome : encodeFields fields dict with ⟨result, grown⟩
      rw [outcome] at body
      cases result with
      | error cause => exact body
      | ok rawFields => exact body

theorem encode_grown (doc : Document) (dict : FieldDictionary) :
    GrownBy (names (.object doc)) dict (encode doc dict).2 := by
  have body := @encodeFields_grown doc
    (fun field _ => encodeValueFast_grown field.2) dict
  rw [names, encode]
  rcases outcome : encodeFields doc dict with ⟨result, grown⟩
  rw [outcome] at body
  cases result with
  | error cause => exact body
  | ok rawFields => exact body

theorem GrownBy.extends {listed : List Bytes} {dict grown : FieldDictionary}
    (growth : GrownBy listed dict grown) : dict.Extends grown := by
  obtain ⟨taken, _, rfl⟩ := growth
  exact dict.extends_assignAll taken

theorem GrownBy.wellFormed {listed : List Bytes}
    {dict grown : FieldDictionary} (growth : GrownBy listed dict grown)
    (wellFormed : dict.WellFormed) (spacious : dict.Spacious listed) :
    grown.WellFormed := by
  obtain ⟨taken, subset, rfl⟩ := growth
  exact wellFormed.assignAll (spacious.mono subset)

end CocoDB.Cson
