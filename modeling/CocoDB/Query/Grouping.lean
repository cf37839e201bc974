import CocoDB.Query.Tally
import CocoDB.Query.WeakOrder

/-!
# When groups separate what is different

The key of a group is what the values of the group fields print, each followed
by a bar.  So two documents share a group when the texts between the bars are
the same, of whatever values they come.
-/

namespace CocoDB.Query

open Lib Cson
open Index (Runtime)

/-- Both values are missing, or they are equal and of the same type; zeros of
both signs are equal. -/
def SameValue : Option Value → Option Value → Prop
  | none, none => True
  | some (.scalar (.float64 one)), some (.scalar (.float64 two)) =>
      one = two ∨ Binary64.equal one two = true
  | some one, some two => one = two
  | _, _ => False

def AgreeOn (groupFields : List Bytes) (one two : DocumentView) : Prop :=
  ∀ field ∈ groupFields, SameValue (valueAt one field) (valueAt two field)

/-- A reported value is that of a document, or nil for a missing one. -/
def Shows (shown : Value) : Option Value → Prop
  | none => shown = .scalar .null
  | some value => SameValue (some shown) (some value)

/-- Documents share a group if and only if they agree, and the group reports
their values. -/
structure Separates (runtime : Runtime) (groupFields : List Bytes)
    (items : List Item) (groups : Groups) : Prop where
  apart : ∀ one ∈ items, ∀ two ∈ items,
    keyOf runtime groupFields one.view = keyOf runtime groupFields two.view ↔
      AgreeOn groupFields one.view two.view
  reports : ∀ item ∈ items, ∃ group,
    groups.lookup (keyOf runtime groupFields item.view) = some group ∧
      ∀ field ∈ groupFields, ∃ shown, group.keyMap field = some shown ∧
        Shows shown (valueAt item.view field)

def pieces (runtime : Runtime) (groupFields : List Bytes)
    (view : DocumentView) : List Bytes :=
  groupFields.flatMap fun gf => (runtime.sprint (shownAt view gf)).splitOn 0x7C

section Keys

variable {runtime : Runtime} {groupFields : List Bytes}

theorem splitOn_keyOf (view : DocumentView) :
    (keyOf runtime groupFields view).splitOn 0x7C =
      pieces runtime groupFields view ++ [[]] := by
  induction groupFields with
  | nil => rfl
  | cons gf rest inductionHypothesis =>
      rw [keyOf] at inductionHypothesis
      rw [keyOf, pieces, List.flatMap_cons, List.flatMap_cons,
        List.append_assoc, List.singleton_append,
        List.splitOn_append_cons_self, inductionHypothesis, pieces,
        List.append_assoc]

theorem keyOf_eq_iff (one two : DocumentView) :
    keyOf runtime groupFields one = keyOf runtime groupFields two ↔
      pieces runtime groupFields one = pieces runtime groupFields two := by
  constructor
  · intro same
    have split := congrArg (List.splitOn 0x7C) same
    rw [splitOn_keyOf, splitOn_keyOf] at split
    exact List.append_cancel_right split
  · intro same
    have joined := @List.intercalate_splitOn _
      (keyOf runtime groupFields one) _ _ 0x7C
    rw [splitOn_keyOf, same, ← splitOn_keyOf] at joined
    exact joined.symm.trans (List.intercalate_splitOn 0x7C)

theorem shows_of_sameValue {first second : Option Value}
    (same : SameValue first second) :
    Shows (first.getD (.scalar .null)) second := by
  unfold SameValue at same
  split at same
  · rfl
  · exact same
  · next value _ other =>
    subst same
    rw [Option.getD_some, Shows, SameValue]
    exact other
  · exact same.elim

theorem separates_iff {aggs : List AggDef} {items : List Item}
    {groups : Groups}
    (gathered : Gathered runtime groupFields aggs items groups) :
    Separates runtime groupFields items groups ↔
      ∀ one ∈ items, ∀ two ∈ items,
        (pieces runtime groupFields one.view =
            pieces runtime groupFields two.view ↔
          AgreeOn groupFields one.view two.view) := by
  constructor
  · intro separates one member two other
    rw [← keyOf_eq_iff]
    exact separates.apart one member two other
  · intro conditions
    constructor
    · intro one member two other
      rw [keyOf_eq_iff]
      exact conditions one member two other
    · intro item member
      cases found : groups.lookup (keyOf runtime groupFields item.view) with
      | none =>
          have empty := (gathered.lookup_iff _).mp found
          have listed : item ∈ groupAt runtime groupFields items
              (keyOf runtime groupFields item.view) :=
            List.mem_filter.mpr ⟨member, decide_eq_true rfl⟩
          rw [empty] at listed
          cases listed
      | some group =>
          obtain ⟨first, listed, shown⟩ := gathered.keyed _ group found
          obtain ⟨earlier, own⟩ := List.mem_filter.mp listed
          have agree := (conditions first earlier item member).mp
            ((keyOf_eq_iff _ _).mp (of_decide_eq_true own))
          refine ⟨group, rfl, fun field known =>
            ⟨shownAt first.view field, ?_, ?_⟩⟩
          · rw [shown, keyMapOf, if_pos known]
          · exact shows_of_sameValue (agree field known)

end Keys

/-- What `%v` prints for null, truth values and strings. -/
def printing : Runtime where
  sprint
    | .scalar .null => [0x3C, 0x6E, 0x69, 0x6C, 0x3E]
    | .scalar (.bool true) => [0x74, 0x72, 0x75, 0x65]
    | .scalar (.bool false) => [0x66, 0x61, 0x6C, 0x73, 0x65]
    | .scalar (.string text) => text
    | _ => []
  same _ _ := false
  truncate _ := 0

def emptyItem : Item :=
  ⟨viewOf singleDict (written singleDict (.object [])).2, 2⟩

theorem null_reads : Reads (singleItem .null).view [0x61]
    (some (.scalar .null)) := by
  refine @single_reads .null ⟨0, 22, 0⟩ ?_ (by decide) (by decide) rfl
    (by decide)
  rw [DocumentView.searchField]
  rfl

theorem empty_encoded :
    Encoded singleDict (written singleDict (.object [])).2 [] := by
  refine ⟨by simp [Valid, ValidFields], ?_, rfl, by decide⟩
  intro name member
  simp [names, namesOfFields] at member

theorem empty_reads : Reads emptyItem.view [0x61] none := by
  apply reads_missing
  have known : singleDict.getID [0x61] = some 2 := by decide
  rw [DocumentView.getFieldLoc]
  simp only [emptyItem, viewOf, known]
  rw [DocumentView.searchField]
  rfl

theorem both_readable : ∀ item ∈ [singleItem .null, emptyItem],
    Readable item.view := by
  intro item member
  rw [List.mem_pair] at member
  rcases member with rfl | rfl
  · exact singleItem_readable (by decide)
  · exact readable_encoded empty_encoded single_wellFormed

end CocoDB.Query
