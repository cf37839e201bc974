import CocoDB.Query.Tally
import CocoDB.Query.WeakOrder
import Mathlib.Algebra.Order.Field.Rat
import Mathlib.Tactic.FieldSimp

/-!
# When aggregates are what their names say

A sum counts every value once for each definition that reads the field, an
average divides by all documents of the group, and unsigned integers are not
read.  Where that makes no difference, and where no other definition reports
under the same key, the values are those of the definitions.
-/

namespace CocoDB.Query

open Lib Cson
open Index (Runtime)

/-! ## Definitions of the aggregates -/

def unsignedOf : Option Value → Option ℚ
  | some (.scalar (.uint64 value)) => some value.toNat
  | _ => none

def numericOf (stored : Option Value) : Option ℚ :=
  (readingOf stored).or (unsignedOf stored)

def unsigneds (field : Bytes) (docs : List Item) : List ℚ :=
  docs.filterMap fun item => unsignedOf (valueAt item.view field)

def numbers (field : Bytes) (docs : List Item) : List ℚ :=
  docs.filterMap fun item => numericOf (valueAt item.view field)

def AggType.known : AggType → Bool
  | .other _ => false
  | _ => true

/-- What the value of a definition has to be in a group; a mean or an extreme of
no numbers may be anything. -/
def Defines (docs : List Item) (agg : AggDef) (value : AggValue) : Prop :=
  match agg.type with
  | .count => value = .count docs.length
  | .sum => value = .number (numbers agg.field docs).sum
  | .avg => numbers agg.field docs ≠ [] →
      value = .number ((numbers agg.field docs).sum /
        (numbers agg.field docs).length)
  | .min => numbers agg.field docs ≠ [] → ∃ least, value = .number least ∧
      Best (· ≤ ·) (numbers agg.field docs) (some least)
  | .max => numbers agg.field docs ≠ [] → ∃ most, value = .number most ∧
      Best (· ≥ ·) (numbers agg.field docs) (some most)
  | .other _ => True

def reported (aggs : List AggDef) (groups : Groups) (key name : Bytes) :
    Option AggValue :=
  (groups.lookup key).bind fun group => (group.result aggs).values name

/-- Every definition has its value in every group, and it has the same value
when it is requested alone and the documents come in another order. -/
structure MeetsDefinitions (runtime : Runtime) (groupFields : List Bytes)
    (aggs : List AggDef) (items : List Item) (groups : Groups) : Prop where
  defined : ∀ key group, groups.lookup key = some group →
    ∀ agg ∈ aggs, agg.type.known = true →
      ∃ value, (group.result aggs).values agg.aliasName = some value ∧
        Defines (groupAt runtime groupFields items key) agg value
  independent : ∀ agg ∈ aggs, agg.type.known = true →
    ∀ other alone, other.Perm items →
      gather runtime groupFields [agg] other ∅ = .ok alone →
      ∀ key, reported aggs groups key agg.aliasName =
        reported [agg] alone key agg.aliasName

/-! ## The conditions -/

/-- What a definition comes to in a group when its field is read by a number of
definitions. -/
def figure (docs : List Item) (number : Nat) (agg : AggDef) :
    Option AggValue :=
  match agg.type with
  | .count => some (.count docs.length)
  | .sum => some (.number (number * (readings agg.field docs).sum))
  | .avg =>
      some (.number (number * (readings agg.field docs).sum / docs.length))
  | .min => some (.number ((bestOf lower (readings agg.field docs)).getD 0))
  | .max => some (.number ((bestOf higher (readings agg.field docs)).getD 0))
  | .other _ => none

/-- An extreme of the numbers is among those that are read, or is the zero that
stands for none. -/
def ReadsExtreme (le : ℚ → ℚ → Prop) (docs : List Item) (field : Bytes) :
    Prop :=
  numbers field docs = [] ∨ ∃ extreme,
    Best le (numbers field docs) (some extreme) ∧
      (extreme ∈ readings field docs ∨
        readings field docs = [] ∧ extreme = 0)

/-- Leaving out the unsigned integers, and dividing by all documents, makes no
difference in a group. -/
def Exact (docs : List Item) (agg : AggDef) : Prop :=
  match agg.type with
  | .count => True
  | .sum => (unsigneds agg.field docs).sum = 0
  | .avg => numbers agg.field docs = [] ∨
      (readings agg.field docs).sum * (numbers agg.field docs).length =
        (numbers agg.field docs).sum * docs.length
  | .min => ReadsExtreme (· ≤ ·) docs agg.field
  | .max => ReadsExtreme (· ≥ ·) docs agg.field
  | .other _ => True

/-- The definition whose value is reported under a key: the last one. -/
def answering (aggs : List AggDef) (name : Bytes) : Option AggDef :=
  (aggs.filter fun agg => agg.type.known && agg.aliasName == name).getLast?

def SameFigure (one two : AggDef) : Prop :=
  one.type = two.type ∧ (one.type = .count ∨ one.field = two.field)

instance (one two : AggDef) : Decidable (SameFigure one two) :=
  inferInstanceAs (Decidable (_ ∧ _))

/-- The other definitions make no difference in a group: the one that reports
under the same key is of the same type and field, or comes to the same, and a
sum that is not zero is accumulated once. -/
def Undisturbed (aggs : List AggDef) (docs : List Item) (agg : AggDef) :
    Prop :=
  ∃ last, answering aggs agg.aliasName = some last ∧
    if SameFigure last agg then
      agg.type = .sum ∨ agg.type = .avg →
        times aggs agg.field = 1 ∨ (readings agg.field docs).sum = 0
    else figure docs (times aggs last.field) last = figure docs 1 agg

section Numbers

variable {docs others : List Item} {field : Bytes}

theorem numeric_cases (stored : Option Value) :
    readingOf stored = none ∨ unsignedOf stored = none := by
  unfold unsignedOf
  split
  · exact .inl rfl
  · exact .inr rfl

theorem numbers_sum : (numbers field docs).sum =
    (readings field docs).sum + (unsigneds field docs).sum := by
  induction docs with
  | nil => simp [numbers, readings, unsigneds]
  | cons item rest inductionHypothesis =>
      simp only [numbers, readings, unsigneds, numericOf,
        List.filterMap_cons] at inductionHypothesis ⊢
      have either := numeric_cases (valueAt item.view field)
      cases reading : readingOf (valueAt item.view field) with
      | none =>
          cases unsigned : unsignedOf (valueAt item.view field) with
          | none => simpa using inductionHypothesis
          | some value =>
              simp only [Option.none_or, List.sum_cons, inductionHypothesis]
              ring
      | some value =>
          rw [reading] at either
          have unsigned := either.resolve_left (Option.some_ne_none value)
          simp only [unsigned, Option.some_or, List.sum_cons,
            inductionHypothesis]
          ring

theorem readings_subset {value : ℚ} (member : value ∈ readings field docs) :
    value ∈ numbers field docs := by
  obtain ⟨item, listed, reading⟩ := List.mem_filterMap.mp member
  refine List.mem_filterMap.mpr ⟨item, listed, ?_⟩
  rw [numericOf, reading, Option.some_or]

theorem readings_perm (perm : others.Perm docs) :
    (readings field others).Perm (readings field docs) :=
  perm.filterMap _

theorem figure_perm (perm : others.Perm docs) (number : Nat) (agg : AggDef) :
    figure others number agg = figure docs number agg := by
  have sums := (@readings_perm _ _ agg.field perm).sum_eq
  have members : ∀ value, value ∈ readings agg.field others ↔
      value ∈ readings agg.field docs := fun value =>
    (readings_perm perm).mem_iff
  unfold figure
  rw [perm.length_eq, sums, bestOf_congr lower_decides members,
    bestOf_congr higher_decides members]

theorem readsExtreme_iff {better : ℚ → ℚ → Bool} {le : ℚ → ℚ → Prop}
    (decides : Decides better le) :
    (numbers field docs ≠ [] → Best le (numbers field docs)
        (some ((bestOf better (readings field docs)).getD 0))) ↔
      ReadsExtreme le docs field := by
  have best := bestOf_best decides (readings field docs)
  rw [ReadsExtreme]
  by_cases empty : numbers field docs = []
  · simp [empty]
  · simp only [empty, ne_eq, not_false_eq_true, forall_const, false_or]
    generalize bestOf better (readings field docs) = kept at best
    cases kept with
    | none =>
        rw [Best] at best
        simp only [best, Option.getD_none, List.not_mem_nil, false_or,
          true_and]
        constructor
        · intro zero
          exact ⟨0, zero, rfl⟩
        · rintro ⟨extreme, found, rfl⟩
          exact found
    | some kept =>
        simp only [Option.getD_some]
        constructor
        · intro found
          exact ⟨kept, found, .inl best.1⟩
        · rintro ⟨extreme, found, member⟩
          cases member with
          | inl listed =>
              have below := best.2 extreme listed
              have above := found.2 kept (readings_subset best.1)
              rw [decides.antisymm below above]
              exact found
          | inr nothing =>
              rw [nothing.1] at best
              exact absurd best.1 List.not_mem_nil

end Numbers

section Values

variable {aggs : List AggDef} {docs : List Item} {accum : GroupAccum}
  {agg : AggDef}

theorem aggValue_none_iff : aggValue accum agg = none ↔
    agg.type.known = false := by
  rw [aggValue]
  cases agg.type with
  | avg => simp only [AggType.known]; split <;> simp
  | _ => simp [AggType.known]

theorem aggValues_eq (accum : GroupAccum) (aggs : List AggDef) (name : Bytes) :
    aggValues accum aggs name =
      (answering aggs name).bind (aggValue accum) := by
  induction aggs using List.reverseRecOn with
  | nil => rfl
  | append_singleton rest agg inductionHypothesis =>
      rw [aggValues, List.foldl_append, List.foldl_cons, List.foldl_nil,
        answering, List.filter_append]
      rw [aggValues, answering] at inductionHypothesis
      cases value : aggValue accum agg with
      | none =>
          have unknown := aggValue_none_iff.mp value
          simp [unknown, inductionHypothesis]
      | some found =>
          have known : agg.type.known = true := by
            cases known : agg.type.known with
            | true => rfl
            | false => rw [aggValue_none_iff.mpr known] at value; cases value
          by_cases own : agg.aliasName = name
          · simp [known, own, value]
          · simp [known, own, Ne.symm own, inductionHypothesis]

theorem answering_mem {name : Bytes} {last : AggDef}
    (found : answering aggs name = some last) :
    last ∈ aggs ∧ last.type.known = true ∧ last.aliasName = name := by
  have member := List.mem_of_getLast? found
  simpa using member

theorem times_pos (member : agg ∈ aggs) (reads : agg.type ≠ .count) :
    0 < times aggs agg.field := by
  rw [times, List.countP_pos_iff]
  exact ⟨agg, member, by simp [reads]⟩

theorem aggValue_eq (tallied : Tallied aggs docs accum) (filled : docs ≠ [])
    (member : agg ∈ aggs) :
    aggValue accum agg = figure docs (times aggs agg.field) agg := by
  have positive := @times_pos aggs agg member
  unfold aggValue figure
  cases type : agg.type with
  | count => simp only [tallied.count]
  | sum => simp only [tallied.sums]
  | avg =>
      have documents := List.length_pos_iff.mpr filled
      simp only [tallied.count, tallied.sums, if_pos documents]
  | min =>
      have best := bestOf_best lower_decides (readings agg.field docs)
      have kept := tallied.mins agg.field (positive (by rw [type]; nofun))
      rw [best.unique lower_decides kept fun _ => Iff.rfl]
  | max =>
      have best := bestOf_best higher_decides (readings agg.field docs)
      have kept := tallied.maxs agg.field (positive (by rw [type]; nofun))
      rw [best.unique higher_decides kept fun _ => Iff.rfl]
  | other code => rfl

theorem figure_same {last : AggDef} (same : SameFigure last agg)
    (number : Nat) : figure docs number last = figure docs number agg := by
  obtain ⟨types, fields⟩ := same
  unfold figure
  rw [types]
  cases fields with
  | inl counts =>
      rw [types] at counts
      simp only [counts]
  | inr fields => rw [fields]

/-- A definition that is read by several comes to the same as alone if it is no
sum, if it is the only one, or if the sum is zero. -/
theorem figure_times_iff (filled : docs ≠ []) (number : Nat) :
    figure docs number agg = figure docs 1 agg ↔
      (agg.type = .sum ∨ agg.type = .avg →
        number = 1 ∨ (readings agg.field docs).sum = 0) := by
  have documents : (docs.length : ℚ) ≠ 0 := by
    simpa using filled
  unfold figure
  cases type : agg.type with
  | sum =>
      simp only [Option.some.injEq, AggValue.number.injEq, Nat.cast_one,
        true_or, forall_const, mul_eq_mul_right_iff, Nat.cast_eq_one]
  | avg =>
      simp only [Option.some.injEq, AggValue.number.injEq, Nat.cast_one,
        or_true, forall_const]
      rw [div_left_inj' documents, mul_eq_mul_right_iff, Nat.cast_eq_one]
  | _ => simp

theorem undisturbed_iff (tallied : Tallied aggs docs accum)
    (filled : docs ≠ []) (member : agg ∈ aggs)
    (known : agg.type.known = true) :
    aggValues accum aggs agg.aliasName = figure docs 1 agg ↔
      Undisturbed aggs docs agg := by
  rw [aggValues_eq, Undisturbed]
  cases found : answering aggs agg.aliasName with
  | none =>
      rw [answering, List.getLast?_eq_none_iff, List.filter_eq_nil_iff] at found
      have excluded := found agg member
      simp [known] at excluded
  | some last =>
      simp only [Option.bind_some, Option.some.injEq, exists_eq_left']
      rw [aggValue_eq tallied filled (answering_mem found).1]
      by_cases same : SameFigure last agg
      · rw [if_pos same, figure_same same, figure_times_iff filled]
        obtain ⟨types, fields⟩ := same
        cases fields with
        | inl counts =>
            rw [types] at counts
            simp [counts]
        | inr fields => rw [fields]
      · rw [if_neg same]

theorem exact_iff (filled : docs ≠ []) (known : agg.type.known = true) :
    (∃ value, figure docs 1 agg = some value ∧ Defines docs agg value) ↔
      Exact docs agg := by
  have documents : (docs.length : ℚ) ≠ 0 := by
    simpa using filled
  unfold figure Defines Exact
  cases type : agg.type with
  | count => simp
  | sum =>
      simp only [Option.some.injEq, exists_eq_left', AggValue.number.injEq,
        Nat.cast_one, one_mul, numbers_sum]
      exact left_eq_add
  | avg =>
      simp only [Option.some.injEq, exists_eq_left', AggValue.number.injEq,
        Nat.cast_one, one_mul, ne_eq]
      rw [← or_iff_not_imp_left]
      apply or_congr_right'
      intro present
      have size : ((numbers agg.field docs).length : ℚ) ≠ 0 := by
        simpa using present
      exact div_eq_div_iff documents size
  | min =>
      simp only [Option.some.injEq, exists_eq_left', AggValue.number.injEq]
      exact readsExtreme_iff lower_decides
  | max =>
      simp only [Option.some.injEq, exists_eq_left', AggValue.number.injEq]
      exact readsExtreme_iff higher_decides
  | other code =>
      rw [type] at known
      cases known

end Values

section Results

variable {runtime : Runtime} {groupFields : List Bytes} {aggs : List AggDef}
  {items : List Item} {groups : Groups}

theorem reported_alone {agg : AggDef} (known : agg.type.known = true)
    {other : List Item} (perm : other.Perm items)
    (gathered : Gathered runtime groupFields [agg] other groups) {key : Bytes}
    (filled : groupAt runtime groupFields items key ≠ []) :
    reported [agg] groups key agg.aliasName =
      figure (groupAt runtime groupFields items key) 1 agg := by
  have same : (groupAt runtime groupFields other key).Perm
      (groupAt runtime groupFields items key) := perm.filter _
  have others : groupAt runtime groupFields other key ≠ [] := by
    intro empty
    rw [empty] at same
    exact filled same.nil_eq.symm
  cases found : groups.lookup key with
  | none => exact absurd ((gathered.lookup_iff key).mp found) others
  | some group =>
      have single : answering [agg] agg.aliasName = some agg := by
        simp [answering, known]
      have once : figure (groupAt runtime groupFields other key)
          (times [agg] agg.field) agg =
          figure (groupAt runtime groupFields other key) 1 agg := by
        by_cases counts : agg.type = .count
        · simp [figure, counts]
        · simp [times, counts]
      rw [reported, found, Option.bind_some, Group.result]
      simp only
      rw [aggValues_eq, single, Option.bind_some,
        aggValue_eq (gathered.tallied key group found) others
          (List.mem_singleton_self agg), once, figure_perm same]

theorem meetsDefinitions_iff (readable : ∀ item ∈ items, Readable item.view)
    (gathered : Gathered runtime groupFields aggs items groups) :
    MeetsDefinitions runtime groupFields aggs items groups ↔
      ∀ item ∈ items, ∀ agg ∈ aggs, agg.type.known = true →
        Exact (groupAt runtime groupFields items
          (keyOf runtime groupFields item.view)) agg ∧
        Undisturbed aggs (groupAt runtime groupFields items
          (keyOf runtime groupFields item.view)) agg := by
  constructor
  · intro meets item member agg requested known
    generalize key_eq : keyOf runtime groupFields item.view = key
    have filled : groupAt runtime groupFields items key ≠ [] :=
      List.ne_nil_of_mem (List.mem_filter.mpr ⟨member, decide_eq_true key_eq⟩)
    cases found : groups.lookup key with
    | none => exact absurd ((gathered.lookup_iff key).mp found) filled
    | some group =>
        obtain ⟨alone, gathers, single⟩ := gather_eq readable
          (@gathered_empty runtime groupFields [agg])
        have same := meets.independent agg requested known items alone
          (.refl items) gathers key
        rw [reported_alone known (.refl items) single filled, reported, found,
          Option.bind_some, Group.result] at same
        obtain ⟨value, reports, defines⟩ :=
          meets.defined key group found agg requested known
        rw [Group.result] at reports
        simp only at same reports
        constructor
        · rw [← exact_iff filled known]
          exact ⟨value, same.symm.trans reports, defines⟩
        · rw [← undisturbed_iff (gathered.tallied key group found) filled
            requested known]
          exact same
  · intro conditions
    -- a group has a document, whose conditions are those of the group
    have holds : ∀ key group, groups.lookup key = some group →
        ∀ agg ∈ aggs, agg.type.known = true →
        groupAt runtime groupFields items key ≠ [] ∧
        Exact (groupAt runtime groupFields items key) agg ∧
        aggValues group.accum aggs agg.aliasName =
          figure (groupAt runtime groupFields items key) 1 agg := by
      intro key group found agg requested known
      obtain ⟨item, member, _⟩ := gathered.keyed key group found
      have filled := List.ne_nil_of_mem member
      obtain ⟨listed, own⟩ := List.mem_filter.mp member
      have both := conditions item listed agg requested known
      rw [of_decide_eq_true own] at both
      refine ⟨filled, both.1, ?_⟩
      rw [undisturbed_iff (gathered.tallied key group found) filled requested
        known]
      exact both.2
    constructor
    · intro key group found agg requested known
      obtain ⟨filled, exactly, same⟩ := holds key group found agg requested known
      obtain ⟨value, figured, defines⟩ := (exact_iff filled known).mpr exactly
      exact ⟨value, same.trans figured, defines⟩
    · intro agg requested known other alone perm gathers key
      obtain ⟨_, again, single⟩ := gather_eq (fun item member =>
        readable item (perm.mem_iff.mp member))
        (@gathered_empty runtime groupFields [agg])
      rw [gathers] at again
      cases again
      cases found : groups.lookup key with
      | some group =>
          obtain ⟨filled, _, same⟩ := holds key group found agg requested known
          rw [reported_alone known perm single filled, reported, found]
          exact same
      | none =>
          have empty := (gathered.lookup_iff key).mp found
          have nothing : groupAt runtime groupFields other key = [] := by
            apply List.Perm.eq_nil
            rw [← empty]
            exact perm.filter _
          rw [reported, reported, found,
            (single.lookup_iff key).mpr nothing]
          rfl

end Results

/-! A document with the number 5 in the field `a`, and definitions that report
under `s` and `v`. -/

def sumOfA : AggDef := ⟨.sum, [0x61], [0x73]⟩

def avgOfA : AggDef := ⟨.avg, [0x61], [0x76]⟩

theorem five_readable : ∀ item ∈ [singleItem (.int64 5)],
    Readable item.view := by
  intro item member
  rw [List.mem_singleton.mp member]
  exact singleItem_readable (by decide)

theorem five_readings :
    readings [0x61] [singleItem (.int64 5)] = [5] := by
  have five : valueAt (singleItem (.int64 5)).view [0x61] =
      some (.scalar (.int64 5)) := five_reads.valueAt_eq
  simp only [readings, List.filterMap_cons, five, readingOf]
  rfl

end CocoDB.Query
