import CocoDB.Query.Operator

/-!
# Operators that run through a list

An operator runs through a list when each call of `Next` brings the next element
until none is left, and no call after that brings one.  Filter, sort and limit
turn an operator that runs through a list into one that runs through the list
filtered, sorted and cut.
-/

namespace CocoDB.Query

open Lib Cson
open Index (Runtime)

structure Follows (op : Operator) (rel : op.State → List Item → Prop) :
    Prop where
  more : ∀ {state item rest}, rel state (item :: rest) →
    ∃ after, op.next state = .ok (true, after) ∧
      op.view after = some item.view ∧ op.recordID after = item.recID ∧
      rel after rest
  done : ∀ {state}, rel state [] →
    ∃ after, op.next state = .ok (false, after) ∧ rel after []
  fine : ∀ {state items}, rel state items → op.err state = none

def Pipeline.Streams (pipeline : Pipeline) (items : List Item) : Prop :=
  ∃ rel, Follows pipeline.op rel ∧ rel pipeline.state items

def listScan (items : List Item) : Pipeline where
  op :=
    { State := List Item × Option Item
      next := fun
        | ([], current) => .ok (false, [], current)
        | (item :: rest, _) => .ok (true, rest, some item)
      view := fun state => state.2.map Item.view
      recordID := fun state => (state.2.map Item.recID).getD 0
      err := fun _ => none }
  state := (items, none)

theorem listScan_streams (items : List Item) :
    (listScan items).Streams items := by
  refine ⟨fun state left => state.1 = left, ?_, rfl⟩
  constructor
  · rintro ⟨_, current⟩ item rest rfl
    exact ⟨(rest, some item), rfl, rfl, rfl, rfl⟩
  · rintro ⟨_, current⟩ rfl
    exact ⟨([], current), rfl, rfl⟩
  · intro state items _
    rfl

section Operators

variable {runtime : Runtime} {child : Operator}
  {rel : child.State → List Item → Prop} (follows : Follows child rel)
include follows

/-! ## Filter -/

theorem filterNext_spec {expr : Expression} {state : child.State}
    {items : List Item} (here : rel state items)
    (readable : ∀ item ∈ items, Readable item.view) {fuel : Nat}
    (enough : items.length < fuel) :
    ∃ after later, rel after later ∧ later <:+ items ∧
      match items.filter fun item => selects runtime expr item.view with
      | [] => filterNext runtime child expr fuel state = .ok (false, after) ∧
          later = []
      | item :: rest =>
          filterNext runtime child expr fuel state = .ok (true, after) ∧
            child.view after = some item.view ∧
            child.recordID after = item.recID ∧
            rest = later.filter fun item =>
              selects runtime expr item.view := by
  induction items generalizing state fuel with
  | nil =>
      obtain ⟨fuel, rfl⟩ := Nat.exists_eq_succ_of_ne_zero (by omega :
        fuel ≠ 0)
      obtain ⟨after, ended, last⟩ := follows.done here
      refine ⟨after, [], last, List.suffix_refl _, ?_⟩
      simp [filterNext, ended]
  | cons item rest inductionHypothesis =>
      rw [List.length_cons] at enough
      obtain ⟨fuel, rfl⟩ := Nat.exists_eq_succ_of_ne_zero (by omega :
        fuel ≠ 0)
      obtain ⟨next, found, view, recID, there⟩ := follows.more here
      have value := (readable item (List.mem_cons_self ..)).evaluate_eq
        runtime expr
      have turn : filterNext runtime child expr (fuel + 1) state =
          if selects runtime expr item.view then .ok (true, next)
          else filterNext runtime child expr fuel next := by
        simp [filterNext, found, view, value]
      rw [turn]
      cases chosen : selects runtime expr item.view with
      | true =>
          refine ⟨next, rest, there, List.suffix_cons _ _, ?_⟩
          simp [chosen, view, recID]
      | false =>
          have later := inductionHypothesis there
            (fun other member => readable other
              (List.mem_cons_of_mem _ member)) (by omega : rest.length < fuel)
          obtain ⟨after, left, further, suffix, result⟩ := later
          refine ⟨after, left, further, suffix.trans (List.suffix_cons _ _), ?_⟩
          simpa [chosen] using result

def Filtered (runtime : Runtime) (expr : Expression) (fuel : Nat)
    (rel : child.State → List Item → Prop) (state : child.State)
    (out : List Item) : Prop :=
  ∃ items, rel state items ∧ (∀ item ∈ items, Readable item.view) ∧
    items.length < fuel ∧
    out = items.filter fun item => selects runtime expr item.view

theorem follows_filter (expr : Expression) (fuel : Nat) :
    Follows (filter runtime fuel child expr)
      (Filtered runtime expr fuel rel) := by
  have kept : ∀ {state items after later}, rel state items →
      (∀ item ∈ items, Readable item.view) → items.length < fuel →
      rel after later → later <:+ items →
      Filtered runtime expr fuel rel after
        (later.filter fun item => selects runtime expr item.view) := by
    intro state items after later _ readable enough there suffix
    exact ⟨later, there, fun item member =>
      readable item (suffix.subset member),
      Nat.lt_of_le_of_lt suffix.length_le enough, rfl⟩
  constructor
  · rintro state item rest ⟨items, here, readable, enough, out⟩
    obtain ⟨after, later, there, suffix, result⟩ :=
      @filterNext_spec runtime child rel follows expr state items here readable
        fuel enough
    rw [← out] at result
    obtain ⟨found, view, recID, rest⟩ := result
    refine ⟨after, found, view, recID, ?_⟩
    rw [rest]
    exact kept here readable enough there suffix
  · rintro state ⟨items, here, readable, enough, out⟩
    obtain ⟨after, later, there, suffix, result⟩ :=
      @filterNext_spec runtime child rel follows expr state items here readable
        fuel enough
    rw [← out] at result
    obtain ⟨ended, empty⟩ := result
    refine ⟨after, ended, ?_⟩
    have last := kept here readable enough there suffix
    rw [empty] at last
    exact last
  · rintro state out ⟨items, here, -⟩
    exact follows.fine here

/-! ## Limit -/

/-- The part of a list between an offset and a limit, some elements of which
have been passed over or taken. -/
def window (limit offset seen yielded : Int) (items : List Item) :
    List Item :=
  let rest := items.drop (offset - seen).toNat
  if 0 < limit then rest.take (limit - yielded).toNat else rest

theorem skip_spec (count : Nat) {state : LimitState child.State}
    {items : List Item} (here : rel state.child items) :
    ∃ after, rel after.child (items.drop count) ∧
      after.yielded = state.yielded ∧
      skip child count state = .ok (decide (count ≤ items.length), after) ∧
      after.seen = state.seen + min count items.length := by
  induction count generalizing state items with
  | zero => exact ⟨state, here, rfl, rfl, by simp⟩
  | succ count inductionHypothesis =>
      cases items with
      | nil =>
          obtain ⟨next, ended, there⟩ := follows.done here
          refine ⟨{ state with child := next }, there, rfl, ?_, by simp⟩
          simp [skip, ended]
      | cons item rest =>
          obtain ⟨next, found, view, recID, there⟩ := follows.more here
          obtain ⟨after, last, yielded, skipped, seen⟩ :=
            @inductionHypothesis
              { state with child := next, seen := state.seen + 1 } rest there
          refine ⟨after, last, yielded, ?_, ?_⟩
          · simp [skip, found, skipped]
          · rw [seen]
            simp only [List.length_cons]
            omega

def Cut (limit offset : Int) (rel : child.State → List Item → Prop)
    (state : LimitState child.State) (out : List Item) : Prop :=
  ∃ items, rel state.child items ∧
    out = window limit offset state.seen state.yielded items

theorem limitNext_spec {limit offset : Int} {state : LimitState child.State}
    {items : List Item} (here : rel state.child items) :
    ∃ after, Cut limit offset rel after
        (window limit offset state.seen state.yielded items).tail ∧
      match window limit offset state.seen state.yielded items with
      | [] => limitNext child limit offset state = .ok (false, after)
      | item :: _ => limitNext child limit offset state = .ok (true, after) ∧
          child.view after.child = some item.view ∧
          child.recordID after.child = item.recID := by
  obtain ⟨reached, there, yielded, skipped, seen⟩ :=
    skip_spec follows (offset - state.seen).toNat here
  by_cases far : items.length < (offset - state.seen).toNat
  · -- the list ends before the offset
    have short : ¬ (offset - state.seen).toNat ≤ items.length := by omega
    have gone : items.drop (offset - state.seen).toNat = [] :=
      List.drop_eq_nil_of_le (by omega)
    have empty : window limit offset state.seen state.yielded items = [] := by
      simp [window, gone]
    rw [gone] at there
    rw [empty]
    refine ⟨reached, ⟨[], there, by simp [window]⟩, ?_⟩
    simp [limitNext, skipped, short]
  · have enough : (offset - state.seen).toNat ≤ items.length := by omega
    have arrived : (offset - reached.seen).toNat = 0 := by
      rw [seen, Nat.min_eq_left enough]
      omega
    -- from here on nothing more is passed over
    have same : window limit offset state.seen state.yielded items =
        window limit offset reached.seen reached.yielded
          (items.drop (offset - state.seen).toNat) := by
      simp only [window, arrived, yielded, List.drop_zero]
    rw [same]
    generalize items.drop (offset - state.seen).toNat = left at there
    by_cases full : 0 < limit ∧ limit ≤ reached.yielded
    · have none : (limit - reached.yielded).toNat = 0 := by omega
      have empty : window limit offset reached.seen reached.yielded left =
          [] := by
        simp [window, full.1, none]
      rw [empty]
      refine ⟨reached, ⟨left, there, empty.symm⟩, ?_⟩
      simp [limitNext, skipped, enough, full]
    · cases left with
      | nil =>
          obtain ⟨next, ended, last⟩ := follows.done there
          have empty : ∀ seen yielded,
              window limit offset seen yielded [] = [] := by
            intro seen yielded
            simp [window]
          rw [empty]
          refine ⟨{ reached with child := next },
            ⟨[], last, (empty _ _).symm⟩, ?_⟩
          simp [limitNext, skipped, enough, full, ended]
      | cons item rest =>
          obtain ⟨next, found, view, recID, last⟩ := follows.more there
          have front : window limit offset reached.seen reached.yielded
              (item :: rest) = item ::
                window limit offset reached.seen (reached.yielded + 1) rest := by
            simp only [window, arrived, List.drop_zero]
            split
            · next limited =>
              have room : (limit - reached.yielded).toNat =
                  (limit - (reached.yielded + 1)).toNat + 1 := by
                omega
              rw [room, List.take_succ_cons]
            · rfl
          rw [front]
          refine ⟨{ reached with
              child := next
              yielded := reached.yielded + 1 }, ⟨rest, last, rfl⟩, ?_⟩
          simp [limitNext, skipped, enough, full, found, view, recID]

theorem follows_limit (limit offset : Int) :
    Follows (Query.limit child limit offset) (Cut limit offset rel) := by
  constructor
  · rintro state item rest ⟨items, here, out⟩
    obtain ⟨after, there, result⟩ :=
      @limitNext_spec child rel follows limit offset state items here
    rw [← out] at there result
    exact ⟨after, result.1, result.2.1, result.2.2, there⟩
  · rintro state ⟨items, here, out⟩
    obtain ⟨after, there, result⟩ :=
      @limitNext_spec child rel follows limit offset state items here
    rw [← out] at there result
    exact ⟨after, result, there⟩
  · rintro state out ⟨items, here, -⟩
    exact follows.fine here

/-! ## Sort -/

theorem materialize_spec {state : child.State} {items : List Item}
    (here : rel state items) {fuel : Nat} (enough : items.length < fuel) :
    ∃ after, materialize child fuel state = .ok (items, after) ∧
      rel after [] := by
  induction items generalizing state fuel with
  | nil =>
      obtain ⟨fuel, rfl⟩ := Nat.exists_eq_succ_of_ne_zero (by omega :
        fuel ≠ 0)
      obtain ⟨after, ended, last⟩ := follows.done here
      exact ⟨after, by simp [materialize, ended], last⟩
  | cons item rest inductionHypothesis =>
      rw [List.length_cons] at enough
      obtain ⟨fuel, rfl⟩ := Nat.exists_eq_succ_of_ne_zero (by omega :
        fuel ≠ 0)
      obtain ⟨next, found, view, recID, there⟩ := follows.more here
      obtain ⟨after, gathered, last⟩ :=
        inductionHypothesis there (by omega : rest.length < fuel)
      exact ⟨after, by simp [materialize, found, view, gathered, recID], last⟩

inductive Sorted (fuel : Nat) (slice : Slice) (fields : List SortField)
    (rel : child.State → List Item → Prop) :
    SortState child.State → List Item → Prop where
  | fresh {state : child.State} {items out : List Item}
      (here : rel state items) (enough : items.length < fuel)
      (sorted : slice (lessItems fields) items = .ok out) :
      Sorted fuel slice fields rel ⟨state, [], -1, false, none⟩ out
  | begun {state : child.State} {items : List Item} (idx : Nat) :
      Sorted fuel slice fields rel ⟨state, items, (idx : Int) - 1, true, none⟩
        (items.drop idx)

omit follows in
theorem advance_spec {state : child.State} {items : List Item} (idx : Nat)
    (fuel : Nat) (slice : Slice) (fields : List SortField) :
    ∃ after, advance (⟨state, items, (idx : Int) - 1, true, none⟩ :
        SortState child.State) = (decide (idx < items.length), after) ∧
      Sorted fuel slice fields rel after (items.drop (idx + 1)) ∧
      after.current = items[idx]? := by
  refine ⟨⟨state, items, ((idx + 1 : Nat) : Int) - 1, true, none⟩, ?_,
    .begun (idx + 1), ?_⟩
  · simp [advance]
  · simp [SortState.current]

theorem sortNext_spec {fuel : Nat} {slice : Slice} {fields : List SortField}
    {state : SortState child.State} {out : List Item}
    (here : Sorted fuel slice fields rel state out) :
    ∃ after, sortNext fuel slice child fields state =
        .ok (decide (out ≠ []), after) ∧
      Sorted fuel slice fields rel after out.tail ∧
      after.current = out.head? := by
  cases here with
  | @fresh state items out here enough sorted =>
      obtain ⟨next, gathered, last⟩ := materialize_spec follows here enough
      obtain ⟨after, moved, there, current⟩ :=
        @advance_spec child rel next out 0 fuel slice fields
      refine ⟨after, ?_, ?_, ?_⟩
      · have begun : start fuel slice child fields
            ⟨state, [], -1, false, none⟩ =
              .ok ⟨next, out, -1, true, none⟩ := by
          simp [start, gathered, follows.fine last, sorted]
        simp only [sortNext, begun, Bool.false_eq_true, if_false,
          Outcome.ok_bind, Option.isSome_none]
        simp only [Nat.cast_zero, zero_sub] at moved
        rw [moved]
        simp [List.length_pos_iff]
      · simpa [List.drop_one] using there
      · simpa [List.head?_eq_getElem?] using current
  | @begun state items idx =>
      obtain ⟨after, moved, there, current⟩ :=
        @advance_spec child rel state items idx fuel slice fields
      refine ⟨after, ?_, ?_, ?_⟩
      · simp [sortNext, moved]
      · simpa [List.tail_drop] using there
      · simpa [List.head?_drop] using current

theorem follows_sort (fuel : Nat) (slice : Slice) (fields : List SortField) :
    Follows (Query.sort fuel slice child fields)
      (Sorted fuel slice fields rel) := by
  constructor
  · intro state item rest here
    obtain ⟨after, found, there, current⟩ := sortNext_spec follows here
    have view : after.current = some item := current
    have moved : sortNext fuel slice child fields state = .ok (true, after) :=
      found
    refine ⟨after, moved, ?_, ?_, there⟩
    · simp [Query.sort, view]
    · simp [Query.sort, view]
  · intro state here
    obtain ⟨after, found, there, _⟩ := sortNext_spec follows here
    have moved : sortNext fuel slice child fields state =
        .ok (false, after) := found
    exact ⟨after, moved, there⟩
  · intro state out here
    cases here <;> rfl

end Operators

section Pipelines

variable {pipeline : Pipeline} {items : List Item}

theorem Pipeline.Streams.filter (streams : pipeline.Streams items)
    (runtime : Runtime) (expr : Expression)
    (readable : ∀ item ∈ items, Readable item.view) {fuel : Nat}
    (enough : items.length < fuel) :
    Pipeline.Streams ⟨Query.filter runtime fuel pipeline.op expr,
      pipeline.state⟩
      (items.filter fun item => selects runtime expr item.view) := by
  obtain ⟨rel, follows, here⟩ := streams
  exact ⟨_, follows_filter follows expr fuel, items, here, readable, enough,
    rfl⟩

theorem Pipeline.Streams.limit (streams : pipeline.Streams items)
    (limit offset : Int) :
    Pipeline.Streams ⟨Query.limit pipeline.op limit offset,
      (⟨pipeline.state, 0, 0⟩ : LimitState pipeline.op.State)⟩
      (window limit offset 0 0 items) := by
  obtain ⟨rel, follows, here⟩ := streams
  exact ⟨_, follows_limit follows limit offset, items, here, rfl⟩

theorem Pipeline.Streams.sort (streams : pipeline.Streams items)
    (slice : Slice) (fields : List SortField) {fuel : Nat}
    (enough : items.length < fuel) {out : List Item}
    (sorted : slice (lessItems fields) items = .ok out) :
    Pipeline.Streams ⟨Query.sort fuel slice pipeline.op fields,
      (⟨pipeline.state, [], -1, false, none⟩ : SortState pipeline.op.State)⟩
      out := by
  obtain ⟨rel, follows, here⟩ := streams
  exact ⟨_, follows_sort follows fuel slice fields, .fresh here enough sorted⟩

end Pipelines

end CocoDB.Query
