import CocoDB.Query.Integers
import CocoDB.TimeSeries.Points

/-!
# Which points a range selects

A bound is compared with the time of a point as a float.  A range selects the
points between its bounds, and pruning deletes those before the cutoff, unless
a point and the bound on whose other side it lies become the same float.
-/

namespace CocoDB.TimeSeries

open Lib Cson CocoDB.Query Document
open Index (Runtime DocumentError)

/-! ## Points -/

def timeAt (item : Item) : Int64 :=
  match valueAt item.view tsField with
  | some (.scalar (.int64 nanos)) => nanos
  | _ => 0

def idAt (item : Item) : Bytes :=
  match lookup (documentOf item) idField with
  | some (.scalar (.string id)) => id
  | _ => []

structure IsPoint (item : Item) : Prop where
  stamped : ∃ nanos, valueAt item.view tsField = some (.scalar (.int64 nanos))
  named : ∃ id, lookup (documentOf item) idField =
    some (.scalar (.string id)) ∧ id ≠ []

theorem IsPoint.time_eq {item : Item} (point : IsPoint item) :
    valueAt item.view tsField = some (.scalar (.int64 (timeAt item))) := by
  obtain ⟨nanos, stamped⟩ := point.stamped
  rw [timeAt, stamped]

theorem IsPoint.id_eq {item : Item} (point : IsPoint item) :
    lookup (documentOf item) idField = some (.scalar (.string (idAt item))) ∧
      idAt item ≠ [] := by
  obtain ⟨id, named, filled⟩ := point.named
  rw [idAt, named]
  exact ⟨rfl, filled⟩

def tagged (runtime : Runtime) (query : TimeQuery) (item : Item) : Bool :=
  query.tags.all fun tag =>
    selects runtime (.eq (tagField tag.1) (.scalar (.string tag.2))) item.view

/-- `start <= time <= end`, where a bound may be missing -/
def inRange (query : TimeQuery) (item : Item) : Bool :=
  (query.start.all fun start => start ≤ timeAt item) &&
    query.finish.all fun finish => timeAt item ≤ finish

def Before (query : TimeQuery) (item : Item) : Prop :=
  ∃ start, query.start = some start ∧ timeAt item < start ∧
    Separate (timeAt item) start

def After (query : TimeQuery) (item : Item) : Prop :=
  ∃ finish, query.finish = some finish ∧ finish < timeAt item ∧
    Separate (timeAt item) finish

def Distinguishes (query : TimeQuery) (item : Item) : Prop :=
  inRange query item = true ∨ Before query item ∨ After query item

section Selects

variable {runtime : Runtime} {item : Item} (readable : Readable item.view)
  (point : IsPoint item)
include readable point

theorem stamped_reads : Reads item.view tsField
    (some (.scalar (.int64 (timeAt item)))) := by
  have reads := readable.reads tsField
  rw [point.time_eq] at reads
  exact reads

theorem selects_gte (start : Int64) :
    selects runtime (.gte tsField (.scalar (.int64 start))) item.view =
      Binary64.atMost (Binary64.ofInt64 start)
        (Binary64.ofInt64 (timeAt item)) := by
  rw [selects, evaluate_gte (stamped_reads readable point)]
  rfl

theorem selects_lte (finish : Int64) :
    selects runtime (.lte tsField (.scalar (.int64 finish))) item.view =
      Binary64.atMost (Binary64.ofInt64 (timeAt item))
        (Binary64.ofInt64 finish) := by
  rw [selects, evaluate_lte (stamped_reads readable point)]
  rfl

theorem selects_lt (cutoff : Int64) :
    selects runtime (.lt tsField (.scalar (.int64 cutoff))) item.view =
      Binary64.less (Binary64.ofInt64 (timeAt item))
        (Binary64.ofInt64 cutoff) := by
  rw [selects, evaluate_lt (stamped_reads readable point)]
  rfl

end Selects

theorem atMost_exact_iff (first second : Int64) :
    Binary64.atMost (Binary64.ofInt64 first) (Binary64.ofInt64 second) = true ↔
      ¬ (second < first ∧ Separate second first) := by
  constructor
  · rintro floats ⟨above, separate⟩
    have below := (atMost_float_iff separate).mp floats
    exact absurd above (Int64.not_lt.mpr below)
  · intro neither
    by_cases above : second < first
    · have collide : ¬ Separate second first := fun separate =>
        neither ⟨above, separate⟩
      rw [Separate, not_or, Bool.not_eq_false] at collide
      have same := (Binary64.equal_iff (Binary64.isNaN_ofInt64 _)
        (Binary64.isNaN_ofInt64 _)).mp collide.2
      exact (Binary64.atMost_iff (Binary64.isNaN_ofInt64 _)
        (Binary64.isNaN_ofInt64 _)).mpr same.ge
    · exact atMost_of_le (Int64.not_lt.mp above)

theorem less_exact_iff (first second : Int64) :
    (first < second → Binary64.less (Binary64.ofInt64 first)
      (Binary64.ofInt64 second) = true) ↔
      (first < second → Separate first second) := by
  constructor
  · intro exactly below
    apply separate_of_less
    · exact exactly
    · intro above
      exact absurd (Int64.lt_trans below above) Int64.lt_irrefl
  · intro separate below
    exact (less_float_iff (separate below)).mpr below

/-- A wider filter keeps the same elements, up to their order, if it keeps no
other ones. -/
theorem filter_perm_iff {α β : Type} {items : List α} {narrow wide : α → Bool}
    (inside : ∀ item ∈ items, narrow item = true → wide item = true)
    (read : α → β) :
    ((items.filter wide).map read).Perm ((items.filter narrow).map read) ↔
      ∀ item ∈ items, wide item = true → narrow item = true := by
  constructor
  · intro perm item member kept
    have sublist : (items.filter narrow).Sublist (items.filter wide) := by
      have both : items.filter narrow = (items.filter wide).filter narrow := by
        rw [List.filter_filter]
        apply List.filter_congr
        intro item member
        cases found : narrow item with
        | false => rfl
        | true => rw [inside item member found]; rfl
      rw [both]
      exact List.filter_sublist
    have length := perm.length_eq
    rw [List.length_map, List.length_map] at length
    have equal := sublist.eq_of_length length.symm
    have listed : item ∈ items.filter wide := List.mem_filter.mpr ⟨member, kept⟩
    rw [← equal] at listed
    exact (List.mem_filter.mp listed).2
  · intro only
    have same : items.filter wide = items.filter narrow := by
      apply List.filter_congr
      intro item member
      rw [Bool.eq_iff_iff]
      exact ⟨only item member, inside item member⟩
    rw [same]

/-! ## Ranges -/

theorem predicates_addTags (tags : List (Bytes × Bytes))
    (query : Document.Query) :
    (addTags tags query).predicates = query.predicates ++
      tags.map fun tag => .eq (tagField tag.1) (.scalar (.string tag.2)) := by
  induction tags generalizing query with
  | nil => simp [addTags]
  | cons tag rest inductionHypothesis =>
      have next := inductionHypothesis (query.satisfying
        (.eq (tagField tag.1) (.scalar (.string tag.2))))
      rw [addTags] at next ⊢
      rw [List.foldl_cons, next, Query.satisfying, List.append_assoc]
      rfl

theorem fields_addTags (tags : List (Bytes × Bytes)) (query : Document.Query) :
    (addTags tags query).sortFields = query.sortFields ∧
      (addTags tags query).limitVal = query.limitVal ∧
      (addTags tags query).offsetVal = query.offsetVal := by
  induction tags generalizing query with
  | nil => exact ⟨rfl, rfl, rfl⟩
  | cons tag rest inductionHypothesis =>
      exact inductionHypothesis (query.satisfying
        (.eq (tagField tag.1) (.scalar (.string tag.2))))

section Queries

variable {setting : Setting} {scan : Pipeline} {items : List Item}
  (scans : Scans setting scan items)
include scans

theorem selected_iff {item : Item} (member : item ∈ items)
    (point : IsPoint item) (query : TimeQuery) :
    (query.toQuery.predicates.all fun expr =>
      selects setting.runtime expr item.view) =
      ((query.start.all fun start =>
          Binary64.atMost (Binary64.ofInt64 start)
            (Binary64.ofInt64 (timeAt item))) &&
        (query.finish.all fun finish =>
          Binary64.atMost (Binary64.ofInt64 (timeAt item))
            (Binary64.ofInt64 finish)) &&
        tagged setting.runtime query item) := by
  have readable := scans.readable item member
  have predicates : query.toQuery.predicates =
      (addTags query.tags (addBound query.finish .lte
        (addBound query.start .gte newQuery))).predicates := by
    rw [TimeQuery.toQuery]
    split <;> rfl
  rw [predicates, predicates_addTags, List.all_append, List.all_map, tagged]
  cases start : query.start with
  | none =>
      cases finish : query.finish with
      | none => simp [addBound, newQuery, Function.comp_def]
      | some finish =>
          simp [addBound, newQuery, Query.satisfying,
            selects_lte readable point, Function.comp_def]
  | some start =>
      cases finish : query.finish with
      | none =>
          simp [addBound, newQuery, Query.satisfying,
            selects_gte readable point, Function.comp_def]
      | some finish =>
          simp [addBound, newQuery, Query.satisfying,
            selects_gte readable point, selects_lte readable point,
            Function.comp_def, Bool.and_assoc]

theorem documents_eq {query : TimeQuery} (unlimited : query.limit ≤ 0) :
    ∃ docs, query.documents setting scan = .ok (docs, none) ∧
      docs.Perm ((query.toQuery.filtered setting.runtime items).map
        documentOf) := by
  obtain ⟨_, readable⟩ := scans.filtered_subset query.toQuery
  obtain ⟨sorts, limit, offset⟩ := fields_addTags query.tags
    (addBound query.finish .lte (addBound query.start .gte newQuery))
  have bare : ∀ bound predicate (inner : Document.Query),
      (addBound bound predicate inner).sortFields = inner.sortFields ∧
      (addBound bound predicate inner).limitVal = inner.limitVal ∧
      (addBound bound predicate inner).offsetVal = inner.offsetVal := by
    intro bound predicate inner
    cases bound <;> exact ⟨rfl, rfl, rfl⟩
  have start := bare query.start .gte newQuery
  have finish := bare query.finish .lte (addBound query.start .gte newQuery)
  have noLimit : query.toQuery.limitVal = 0 := by
    rw [TimeQuery.toQuery, if_neg (by omega)]
    exact limit.trans (finish.2.1.trans start.2.1)
  have noOffset : query.toQuery.offsetVal = 0 := by
    rw [TimeQuery.toQuery, if_neg (by omega)]
    exact offset.trans (finish.2.2.trans start.2.2)
  have sorted : query.toQuery.sortFields = [⟨tsField, query.descending⟩] := by
    rw [TimeQuery.toQuery, if_neg (by omega), Query.orderBy, sorts, finish.1,
      start.1]
    rfl
  have answer : query.toQuery.answer setting items =
      arrange setting.slice query.toQuery.sortFields
        (query.toQuery.filtered setting.runtime items) := by
    rw [Query.answer, noLimit, noOffset]
    simp only [sorted, List.isEmpty_cons, Bool.false_eq_true, if_false]
    simp [cut]
  refine ⟨(query.toQuery.answer setting items).map documentOf, ?_, ?_⟩
  · rw [TimeQuery.documents, scans.all_eq, if_pos (by omega)]
  · rw [answer]
    exact (arrange_spec scans.lawful _ readable).2.1.map documentOf

/-- A range selects the points between its bounds exactly when no other point
becomes the float of a bound. -/
theorem range_iff (points : ∀ item ∈ items, IsPoint item) {query : TimeQuery}
    (unlimited : query.limit ≤ 0) :
    ∃ docs, query.documents setting scan = .ok (docs, none) ∧
      (docs.Perm ((items.filter fun item =>
          inRange query item && tagged setting.runtime query item).map
            documentOf) ↔
        ∀ item ∈ items, tagged setting.runtime query item = true →
          Distinguishes query item) := by
  obtain ⟨docs, found, perm⟩ := documents_eq scans unlimited
  refine ⟨docs, found, ?_⟩
  have compares : ∀ one two : List Cson.Document, docs.Perm one →
      (docs.Perm two ↔ one.Perm two) := fun one two same =>
    ⟨fun other => same.symm.trans other, fun other => same.trans other⟩
  rw [compares _ _ perm, Query.filtered, filter_perm_iff]
  · apply forall₂_congr
    intro item member
    rw [selected_iff scans member (points item member)]
    cases tags : tagged setting.runtime query item with
    | false => simp
    | true =>
        simp only [Bool.and_true, forall_const]
        have outside : ((query.start.all fun start =>
              Binary64.atMost (Binary64.ofInt64 start)
                (Binary64.ofInt64 (timeAt item))) &&
            query.finish.all fun finish =>
              Binary64.atMost (Binary64.ofInt64 (timeAt item))
                (Binary64.ofInt64 finish)) = true ↔
            ¬ Before query item ∧ ¬ After query item := by
          rw [Bool.and_eq_true, Before, After]
          apply and_congr
          · cases query.start with
            | none => simp
            | some start => simp [atMost_exact_iff]
          · cases query.finish with
            | none => simp
            | some finish =>
                have flip : Separate finish (timeAt item) ↔
                    Separate (timeAt item) finish :=
                  ⟨Separate.symm, Separate.symm⟩
                simp [atMost_exact_iff, flip]
        rw [outside, Distinguishes]
        tauto
  · intro item member
    rw [selected_iff scans member (points item member)]
    simp only [Bool.and_eq_true, inRange]
    rintro ⟨⟨start, finish⟩, tags⟩
    refine ⟨⟨?_, ?_⟩, tags⟩
    · cases bound : query.start with
      | none => rfl
      | some nanos =>
          rw [bound] at start
          exact atMost_of_le (of_decide_eq_true start)
    · cases bound : query.finish with
      | none => rfl
      | some nanos =>
          rw [bound] at finish
          exact atMost_of_le (of_decide_eq_true finish)

end Queries

end CocoDB.TimeSeries
