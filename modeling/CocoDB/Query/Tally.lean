import CocoDB.Query.Aggregation
import CocoDB.Query.Stream
import Mathlib.Tactic.Ring

/-!
# What a group accumulates

After the loop over the documents a group holds, for its documents, their number
and for every field the sum of its values, once for each definition that reads
the field, and the least and the greatest of them.
-/

namespace CocoDB.Query

open Lib Cson
open Index (Runtime)

/-! ## Groups of documents -/

def shownAt (view : DocumentView) (field : Bytes) : Value :=
  (valueAt view field).getD (.scalar .null)

def keyOf (runtime : Runtime) (groupFields : List Bytes)
    (view : DocumentView) : Bytes :=
  groupFields.flatMap fun gf => runtime.sprint (shownAt view gf) ++ [0x7C]

local instance bytesLawful : LawfulBEq Bytes := inferInstance

def keyMapOf (groupFields : List Bytes) (view : DocumentView) (field : Bytes) :
    Option Value :=
  if field ∈ groupFields then some (shownAt view field) else none

def groupAt (runtime : Runtime) (groupFields : List Bytes) (items : List Item)
    (key : Bytes) : List Item :=
  items.filter fun item => keyOf runtime groupFields item.view = key

def readingOf : Option Value → Option ℚ
  | some (.scalar (.int64 value)) => some value.toInt
  | some (.scalar (.float64 bits)) => some (exactFloat bits)
  | _ => none

def readings (field : Bytes) (items : List Item) : List ℚ :=
  items.filterMap fun item => readingOf (valueAt item.view field)

def times (aggs : List AggDef) (field : Bytes) : Nat :=
  aggs.countP fun agg => agg.type ≠ .count ∧ agg.field = field

structure Tallied (aggs : List AggDef) (docs : List Item)
    (accum : GroupAccum) : Prop where
  count : accum.count = docs.length
  sums : ∀ field, (accum.sums field).getD 0 =
    times aggs field * (readings field docs).sum
  mins : ∀ field, 0 < times aggs field →
    Best (· ≤ ·) (readings field docs) (accum.mins field)
  maxs : ∀ field, 0 < times aggs field →
    Best (· ≥ ·) (readings field docs) (accum.maxs field)

theorem lower_decides : Decides lower (· ≤ ·) := decides_lt

theorem higher_decides : Decides higher (· ≥ ·) := decides_gt

section Reading

variable {stored : Option Value}

theorem readingOf_float (absent : integerOf stored = none) :
    readingOf stored = (numberOf stored).map exactFloat := by
  unfold integerOf at absent
  split at absent
  · cases absent
  · cases absent
  · next int64 uint64 =>
    unfold readingOf
    split
    · next value => exact absurd rfl (int64 value)
    · rfl
    · next other float =>
      unfold numberOf
      split
      · next bits => exact absurd rfl (float bits)
      · next value => exact absurd rfl (other value)
      · rfl

theorem readingOf_integer
    (same : numberOf stored = (integerOf stored).map Binary64.ofInt64) :
    readingOf stored =
      (integerOf stored).map fun value => (value.toInt : ℚ) := by
  unfold integerOf at same ⊢
  split at same
  · rfl
  · cases same
  · next int64 uint64 =>
    unfold readingOf
    split
    · next value => exact absurd rfl (int64 value)
    · cases same
    · rfl

theorem readingOf_other (absent : numberOf stored = none) :
    readingOf stored = none := by
  unfold readingOf
  split
  · cases absent
  · cases absent
  · rfl

variable {view : DocumentView} {field : Bytes}

theorem exactFloat64_reads (reads : Reads view field stored) :
    exactFloat64 view field = .ok (readingOf stored) := by
  have number := reads.number
  have integer := reads.integer
  simp only [DocumentView.float64] at number
  simp only [exactFloat64]
  cases located : view.getFieldLoc field with
  | error cause => simp [located] at number
  | panic => simp [located] at number
  | exhausted => simp [located] at number
  | ok found =>
      simp only [located, Outcome.ok_bind, Outcome.pure_eq] at number ⊢
      cases found with
      | none =>
          simp only [Outcome.ok.injEq] at number ⊢
          exact (readingOf_other number.symm).symm
      | some loc =>
          simp only at number ⊢
          split at number
          · next float =>
            -- a float is no integer
            rw [if_pos float, number]
            have absent : integerOf stored = none := by
              simpa [DocumentView.int64, DocumentView.word, located, float,
                ValueType.toByte] using integer.symm
            simp only [Outcome.ok_bind, readingOf_float absent]
          · next notFloat =>
            rw [if_neg notFloat]
            split at number
            · next int64 =>
              rw [if_pos int64, integer]
              rw [integer] at number
              simp only [Outcome.ok_bind, Outcome.ok.injEq] at number ⊢
              exact (readingOf_integer number.symm).symm
            · next notInt64 =>
              rw [if_neg notInt64]
              simp only [Outcome.ok.injEq] at number ⊢
              exact (readingOf_other number.symm).symm

end Reading

/-- What the loop over the definitions does with the maps at a field. -/
def Added (aggs : List AggDef) (field : Bytes) (accum after : GroupAccum) :
    Option ℚ → Prop
  | none => after.sums field = accum.sums field ∧
      after.mins field = accum.mins field ∧
      after.maxs field = accum.maxs field
  | some value =>
      (after.sums field).getD 0 =
        (accum.sums field).getD 0 + times aggs field * value ∧
      (∀ values, Best (· ≤ ·) values (accum.mins field) →
        Best (· ≤ ·) (values ++ List.replicate (times aggs field) value)
          (after.mins field)) ∧
      ∀ values, Best (· ≥ ·) values (accum.maxs field) →
        Best (· ≥ ·) (values ++ List.replicate (times aggs field) value)
          (after.maxs field)

section Document

variable {view : DocumentView} (readable : Readable view)
include readable

theorem groupKey_eq (runtime : Runtime) (fields : List Bytes) (key : Bytes)
    (map : Bytes → Option Value) :
    ∃ after, groupKey runtime view fields key map =
        .ok (key ++ keyOf runtime fields view, after) ∧
      ∀ field, after field =
        if field ∈ fields then some (shownAt view field) else map field := by
  induction fields generalizing key map with
  | nil =>
      refine ⟨map, ?_, fun field => by simp⟩
      simp [groupKey, keyOf]
  | cons gf rest inductionHypothesis =>
      obtain ⟨after, found, holds⟩ := inductionHypothesis
        (key ++ (runtime.sprint (shownAt view gf) ++ [0x7C]))
        (Function.update map gf (some (shownAt view gf)))
      refine ⟨after, ?_, ?_⟩
      · rw [groupKey, (readable.reads gf).get, Outcome.ok_bind]
        rw [shownAt] at found
        rw [found, keyOf, keyOf, List.flatMap_cons, shownAt, List.append_assoc]
      · intro field
        rw [holds, Function.update_apply]
        by_cases same : field = gf <;> simp [same]

theorem addAggs_eq (aggs : List AggDef) (accum : GroupAccum) :
    ∃ after, addAggs view aggs accum = .ok after ∧
      after.count = accum.count ∧
      ∀ field, Added aggs field accum after
        (readingOf (valueAt view field)) := by
  induction aggs generalizing accum with
  | nil =>
      refine ⟨accum, rfl, rfl, fun field => ?_⟩
      cases readingOf (valueAt view field) with
      | none => exact ⟨rfl, rfl, rfl⟩
      | some value => simp [Added, times]
  | cons agg rest inductionHypothesis =>
      by_cases counts : agg.type = .count
      · obtain ⟨after, found, count, each⟩ := inductionHypothesis accum
        refine ⟨after, by rw [addAggs, if_pos counts, found], count, ?_⟩
        intro field
        have same : times (agg :: rest) field = times rest field := by
          simp [times, counts]
        have later := each field
        unfold Added at later ⊢
        rw [same]
        exact later
      · have read := exactFloat64_reads (readable.reads agg.field)
        cases reading : readingOf (valueAt view agg.field) with
        | none =>
            obtain ⟨after, found, count, each⟩ := inductionHypothesis accum
            refine ⟨after, ?_, count, ?_⟩
            · rw [addAggs, if_neg counts, read, reading, Outcome.ok_bind]
              exact found
            · intro field
              have later := each field
              by_cases own : agg.field = field
              · rw [← own, reading] at later ⊢
                exact later
              · have same : times (agg :: rest) field = times rest field := by
                  simp [times, own]
                unfold Added at later ⊢
                rw [same]
                exact later
        | some fVal =>
            obtain ⟨after, found, count, each⟩ :=
              inductionHypothesis (accum.add agg.field fVal)
            refine ⟨after, ?_, count, ?_⟩
            · rw [addAggs, if_neg counts, read, reading, Outcome.ok_bind]
              exact found
            · intro field
              have later := each field
              by_cases own : field = agg.field
              · have more : times (agg :: rest) field =
                    times rest field + 1 := by
                  simp [times, counts, own]
                subst own
                rw [reading] at later ⊢
                simp only [Added, GroupAccum.add, Function.update_self,
                  Option.getD_some] at later ⊢
                obtain ⟨sum, least, greatest⟩ := later
                rw [more]
                refine ⟨?_, ?_, ?_⟩
                · rw [sum]
                  push_cast
                  ring
                · intro values best
                  have next := least _ (best.keepBetter lower_decides fVal)
                  rw [List.append_assoc, List.singleton_append] at next
                  exact next
                · intro values best
                  have next := greatest _ (best.keepBetter higher_decides fVal)
                  rw [List.append_assoc, List.singleton_append] at next
                  exact next
              · have same : times (agg :: rest) field = times rest field := by
                  simp [times, Ne.symm own]
                unfold Added at later ⊢
                rw [same]
                simpa only [GroupAccum.add, Function.update_of_ne own]
                  using later

end Document

theorem Tallied.add {aggs : List AggDef} {docs : List Item}
    {accum after : GroupAccum} (tallied : Tallied aggs docs accum)
    {item : Item} (count : after.count = docs.length + 1)
    (each : ∀ field, Added aggs field accum after
      (readingOf (valueAt item.view field))) :
    Tallied aggs (docs ++ [item]) after := by
  have more : ∀ field, readings field (docs ++ [item]) =
      readings field docs ++
        (readingOf (valueAt item.view field)).toList := by
    intro field
    rw [readings, List.filterMap_append, readings]
    cases reading : readingOf (valueAt item.view field) <;> simp [reading]
  have same : ∀ (values : List ℚ) (value : ℚ) {number : Nat}, 0 < number →
      ∀ other, other ∈ values ++ [value] ↔
        other ∈ values ++ List.replicate number value := by
    intro values value number positive other
    simp [positive.ne']
  constructor
  · rw [count, List.length_append]
    rfl
  · intro field
    have added := each field
    rw [more field, List.sum_append]
    cases reading : readingOf (valueAt item.view field) with
    | none =>
        rw [reading] at added
        rw [added.1, tallied.sums]
        simp
    | some value =>
        rw [reading] at added
        rw [added.1, tallied.sums]
        simp only [Option.toList_some, List.sum_singleton]
        ring
  · intro field positive
    have added := each field
    rw [more field]
    cases reading : readingOf (valueAt item.view field) with
    | none =>
        rw [reading] at added
        rw [added.2.1, Option.toList_none, List.append_nil]
        exact tallied.mins field positive
    | some value =>
        rw [reading] at added
        exact (added.2.1 _ (tallied.mins field positive)).of_mem_iff
          (same _ value positive)
  · intro field positive
    have added := each field
    rw [more field]
    cases reading : readingOf (valueAt item.view field) with
    | none =>
        rw [reading] at added
        rw [added.2.2, Option.toList_none, List.append_nil]
        exact tallied.maxs field positive
    | some value =>
        rw [reading] at added
        exact (added.2.2 _ (tallied.maxs field positive)).of_mem_iff
          (same _ value positive)

/-! ## All documents -/

def gather (runtime : Runtime) (groupFields : List Bytes)
    (aggs : List AggDef) : List Item → Groups → Outcome Groups
  | [], groups => .ok groups
  | item :: rest, groups => do
      let groups ← addView runtime groupFields aggs item.view groups
      gather runtime groupFields aggs rest groups

structure Gathered (runtime : Runtime) (groupFields : List Bytes)
    (aggs : List AggDef) (docs : List Item) (groups : Groups) : Prop where
  missing : ∀ key, groups.lookup key = none →
    groupAt runtime groupFields docs key = []
  tallied : ∀ key group, groups.lookup key = some group →
    Tallied aggs (groupAt runtime groupFields docs key) group.accum
  keyed : ∀ key group, groups.lookup key = some group →
    ∃ item ∈ groupAt runtime groupFields docs key,
      group.keyMap = keyMapOf groupFields item.view

section Groups

variable {runtime : Runtime} {groupFields : List Bytes} {aggs : List AggDef}

theorem tallied_new : Tallied aggs [] GroupAccum.new where
  count := rfl
  sums field := by simp [GroupAccum.new, readings]
  mins field _ := rfl
  maxs field _ := rfl

theorem gathered_empty : Gathered runtime groupFields aggs [] ∅ where
  missing key _ := rfl
  tallied key group found := by
    rw [AList.lookup_empty] at found
    cases found
  keyed key group found := by
    rw [AList.lookup_empty] at found
    cases found

def found (groups : Groups) (key : Bytes) (map : Bytes → Option Value) :
    Group :=
  (groups.lookup key).getD ⟨GroupAccum.new, map⟩

theorem Gathered.found {docs : List Item} {groups : Groups}
    (gathered : Gathered runtime groupFields aggs docs groups) {item : Item}
    {key : Bytes} (own : keyOf runtime groupFields item.view = key) :
    Tallied aggs (groupAt runtime groupFields docs key)
      (found groups key (keyMapOf groupFields item.view)).accum ∧
    ∃ first ∈ groupAt runtime groupFields (docs ++ [item]) key,
      (found groups key (keyMapOf groupFields item.view)).keyMap =
        keyMapOf groupFields first.view := by
  rw [Query.found]
  cases here : groups.lookup key with
  | none =>
      constructor
      · rw [gathered.missing key here]
        exact tallied_new
      · exact ⟨item, by simp [groupAt, own], rfl⟩
  | some group =>
      obtain ⟨first, member, same⟩ := gathered.keyed key group here
      refine ⟨gathered.tallied key group here, first, ?_, same⟩
      rw [groupAt, List.filter_append]
      exact List.mem_append_left _ member

theorem addView_eq {item : Item} (readable : Readable item.view)
    {docs : List Item} {groups : Groups}
    (gathered : Gathered runtime groupFields aggs docs groups) :
    ∃ after, addView runtime groupFields aggs item.view groups = .ok after ∧
      Gathered runtime groupFields aggs (docs ++ [item]) after := by
  obtain ⟨map, printed, mapped⟩ := groupKey_eq readable runtime groupFields []
    fun _ => none
  have keyMap : map = keyMapOf groupFields item.view := funext mapped
  rw [List.nil_append, keyMap] at printed
  obtain ⟨before, keyed⟩ := gathered.found (Eq.refl
    (keyOf runtime groupFields item.view))
  obtain ⟨accum, added, count, each⟩ := addAggs_eq readable aggs
    { (found groups (keyOf runtime groupFields item.view)
        (keyMapOf groupFields item.view)).accum with
      count := (found groups (keyOf runtime groupFields item.view)
        (keyMapOf groupFields item.view)).accum.count + 1 }
  refine ⟨groups.insert (keyOf runtime groupFields item.view)
    { found groups (keyOf runtime groupFields item.view)
        (keyMapOf groupFields item.view) with accum := accum }, ?_, ?_⟩
  · rw [addView, printed, Outcome.ok_bind]
    simp only
    rw [found] at added ⊢
    rw [added]
    rfl
  · have others : ∀ key, key ≠ keyOf runtime groupFields item.view →
        groupAt runtime groupFields (docs ++ [item]) key =
          groupAt runtime groupFields docs key := by
      intro key other
      simp [groupAt, List.filter_append, Ne.symm other]
    have own : groupAt runtime groupFields (docs ++ [item])
        (keyOf runtime groupFields item.view) =
        groupAt runtime groupFields docs
          (keyOf runtime groupFields item.view) ++ [item] := by
      simp [groupAt, List.filter_append]
    have size := count.trans (congrArg (· + 1) before.count)
    have tallied := before.add size each
    constructor
    · intro key absent
      by_cases same : key = keyOf runtime groupFields item.view
      · rw [same, AList.lookup_insert] at absent
        cases absent
      · rw [AList.lookup_insert_ne same] at absent
        rw [others key same]
        exact gathered.missing key absent
    · intro key group present
      by_cases same : key = keyOf runtime groupFields item.view
      · rw [same, AList.lookup_insert] at present
        cases present
        rw [same, own]
        exact tallied
      · rw [AList.lookup_insert_ne same] at present
        rw [others key same]
        exact gathered.tallied key group present
    · intro key group present
      by_cases same : key = keyOf runtime groupFields item.view
      · rw [same, AList.lookup_insert] at present
        cases present
        rw [same]
        exact keyed
      · rw [AList.lookup_insert_ne same] at present
        rw [others key same]
        exact gathered.keyed key group present

theorem gather_eq {items : List Item}
    (readable : ∀ item ∈ items, Readable item.view) {docs : List Item}
    {groups : Groups}
    (gathered : Gathered runtime groupFields aggs docs groups) :
    ∃ after, gather runtime groupFields aggs items groups = .ok after ∧
      Gathered runtime groupFields aggs (docs ++ items) after := by
  induction items generalizing docs groups with
  | nil =>
      rw [List.append_nil]
      exact ⟨groups, rfl, gathered⟩
  | cons item rest inductionHypothesis =>
      obtain ⟨next, added, further⟩ :=
        addView_eq (readable item (List.mem_cons_self ..)) gathered
      obtain ⟨after, rest, last⟩ := inductionHypothesis
        (fun other member => readable other (List.mem_cons_of_mem _ member))
        further
      rw [List.append_assoc] at last
      refine ⟨after, ?_, last⟩
      rw [gather, added]
      exact rest

theorem addViews_eq {op : Operator} {rel : op.State → List Item → Prop}
    (follows : Follows op rel) {state : op.State} {items : List Item}
    (here : rel state items) {fuel : Nat} (enough : items.length < fuel)
    {groups after : Groups}
    (left : gather runtime groupFields aggs items groups = .ok after) :
    ∃ final, addViews runtime groupFields aggs op fuel state groups =
        .ok (after, final) ∧ op.err final = none := by
  induction items generalizing state fuel groups with
  | nil =>
      obtain ⟨fuel, rfl⟩ := Nat.exists_eq_succ_of_ne_zero (by omega :
        fuel ≠ 0)
      obtain ⟨final, ended, last⟩ := follows.done here
      rw [gather] at left
      cases left
      exact ⟨final, by simp [addViews, ended], follows.fine last⟩
  | cons item rest inductionHypothesis =>
      rw [List.length_cons] at enough
      obtain ⟨fuel, rfl⟩ := Nat.exists_eq_succ_of_ne_zero (by omega :
        fuel ≠ 0)
      obtain ⟨next, found, view, -, there⟩ := follows.more here
      rw [gather] at left
      cases added : addView runtime groupFields aggs item.view groups with
      | ok groups =>
          rw [added, Outcome.ok_bind] at left
          obtain ⟨final, ran, fine⟩ := inductionHypothesis there
            (by omega : rest.length < fuel) left
          exact ⟨final, by simp [addViews, found, view, added, ran], fine⟩
      | error cause => simp [added] at left
      | panic => simp [added] at left
      | exhausted => simp [added] at left

theorem Gathered.lookup_iff {items : List Item} {groups : Groups}
    (gathered : Gathered runtime groupFields aggs items groups) (key : Bytes) :
    groups.lookup key = none ↔ groupAt runtime groupFields items key = [] := by
  constructor
  · exact gathered.missing key
  · intro empty
    cases found : groups.lookup key with
    | none => rfl
    | some group =>
        obtain ⟨item, member, _⟩ := gathered.keyed key group found
        rw [empty] at member
        cases member

theorem Gathered.mem_iff {items : List Item} {groups : Groups}
    (gathered : Gathered runtime groupFields aggs items groups) (key : Bytes) :
    key ∈ groups ↔
      ∃ item ∈ items, keyOf runtime groupFields item.view = key := by
  rw [← not_iff_not, ← AList.lookup_eq_none, gathered.lookup_iff, groupAt,
    List.filter_eq_nil_iff]
  simp

theorem computeAggregation_eq {pipeline : Pipeline} {items : List Item}
    (streams : pipeline.Streams items)
    (readable : ∀ item ∈ items, Readable item.view) {fuel : Nat}
    (enough : items.length < fuel)
    (order : Shuffle (Sigma fun _ : Bytes => Group)) :
    ∃ groups, computeAggregation runtime fuel order pipeline groupFields aggs =
        .ok (.ok ((order.arrange groups.entries).map fun entry =>
          entry.2.result aggs)) ∧
      Gathered runtime groupFields aggs items groups := by
  obtain ⟨rel, follows, here⟩ := streams
  obtain ⟨groups, gathers, gathered⟩ := gather_eq readable
    (@gathered_empty runtime groupFields aggs)
  obtain ⟨final, ran, fine⟩ := addViews_eq follows here enough gathers
  refine ⟨groups, ?_, gathered⟩
  rw [computeAggregation, ran, Outcome.ok_bind]
  simp only [fine]
  rfl

end Groups

end CocoDB.Query
