import CocoDB.Index.Secondary
import CocoDB.Query.Sorting
import CocoDB.Query.Derived

/-!
# Queries

`document/query.go`: the pipeline of a query over a scan, and what `All`,
`First` and `Count` make of it.
-/

namespace CocoDB.Document

open Lib Cson CocoDB.Query
open Index (Runtime DocumentError)

/-- `Query`, without what vector searches use -/
structure Query where
  predicates : List Expression
  sortFields : List SortField
  limitVal : Int
  offsetVal : Int

/-- What a query runs with: the turns a loop may make, `sort.Slice`, and the
largest capacity for which `make` gives a slice of documents. -/
structure Setting where
  runtime : Runtime
  fuel : Nat
  slice : Slice
  slots : Nat

/-! ## Builders -/

def newQuery : Query := ⟨[], [], 0, 0⟩

/-- `Where` and a method of `WhereClause`, which appends its predicate -/
def Query.satisfying (expr : Expression) (query : Query) : Query :=
  { query with predicates := query.predicates ++ [expr] }

def Query.orderBy (field : Bytes) (desc : Bool) (query : Query) : Query :=
  { query with sortFields := query.sortFields ++ [⟨field, desc⟩] }

def Query.limit (limit : Int) (query : Query) : Query :=
  { query with limitVal := limit }

def Query.offset (offset : Int) (query : Query) : Query :=
  { query with offsetVal := offset }

section Scan

variable {σ : Type} [Kernel σ]

/-- `CollectionScan`: the pairs that the cursor has not come to, and the
current document -/
structure ScanState (σ : Type) where
  ahead : List (Bytes × Bytes)
  kernel : σ
  current : Option Item

/-- `CollectionScan.Next`, which passes over what it cannot read -/
def scanNext (dict : FieldDictionary) (current : Option Item) :
    List (Bytes × Bytes) → σ → Bool × ScanState σ
  | [], kernel => (false, ⟨[], kernel, current⟩)
  | (_, val) :: ahead, kernel =>
      if val.length < 8 then scanNext dict current ahead kernel
      else
        let recID := Index.recordOf val
        match Kernel.readRecord recID kernel with
        | (.error _, next) => scanNext dict current ahead next
        | (.ok payload, next) =>
            match newDocumentView payload dict with
            | .error _ => scanNext dict current ahead next
            | .ok view => (true, ⟨ahead, next, some ⟨view, recID⟩⟩)

def collectionScan (σ : Type) [Kernel σ] (dict : FieldDictionary) :
    Operator where
  State := ScanState σ
  next state := .ok (scanNext dict state.current state.ahead state.kernel)
  view state := state.current.map Item.view
  recordID state := (state.current.map Item.recID).getD 0
  err _ := none

end Scan

/-! ## Running -/

def combined : List Expression → Expression
  | [expr] => expr
  | exprs => .and exprs

/-- `Filter`, if there are predicates -/
def addFilter (setting : Setting) (predicates : List Expression)
    (scan : Pipeline) : Pipeline :=
  if predicates.isEmpty then scan
  else ⟨filter setting.runtime setting.fuel scan.op (combined predicates),
    scan.state⟩

/-- `NewSort`, if there are fields to sort by -/
def addSort (setting : Setting) (fields : List SortField)
    (pipeline : Pipeline) : Pipeline :=
  if fields.isEmpty then pipeline
  else ⟨sort setting.fuel setting.slice pipeline.op fields,
    (⟨pipeline.state, [], -1, false, none⟩ : SortState pipeline.op.State)⟩

/-- `NewLimit`, if one of the two is positive -/
def addLimit (limitVal offsetVal : Int) (pipeline : Pipeline) : Pipeline :=
  if 0 < limitVal ∨ 0 < offsetVal then
    ⟨CocoDB.Query.limit pipeline.op limitVal offsetVal,
      (⟨pipeline.state, 0, 0⟩ : LimitState pipeline.op.State)⟩
  else pipeline

/-- `Plan`, from the scan on -/
def Query.plan (setting : Setting) (scan : Pipeline) (query : Query) :
    Pipeline :=
  addLimit query.limitVal query.offsetVal
    (addSort setting query.sortFields
      (addFilter setting query.predicates scan))

/-- The loop of `All` -/
def collect (op : Operator) : Nat → op.State →
    Outcome (List Document × op.State)
  | 0, _ => .exhausted
  | fuel + 1, state => do
      let (more, state) ← op.next state
      if more then
        match op.view state with
        | none => .panic
        | some view => do
            let doc ← toMap view
            let (rest, final) ← collect op fuel state
            return (doc :: rest, final)
      else return ([], state)

/-- `All`, which makes room for as many documents as the limit allows -/
def Query.all (setting : Setting) (scan : Pipeline) (query : Query) :
    Outcome (List Document × Option Error) :=
  if 0 < query.limitVal ∧ (setting.slots : Int) < query.limitVal then .panic
  else do
    let planned := query.plan setting scan
    let (results, final) ← collect planned.op setting.fuel planned.state
    return (results, planned.op.err final)

def Query.first (setting : Setting) (scan : Pipeline) (query : Query) :
    Outcome (Except DocumentError Document) := do
  let (results, err) ← (query.limit 1).all setting scan
  match err with
  | some cause => return .error (.storage cause)
  | none =>
      match results with
      | [] => return .error .docNotFound
      | doc :: _ => return .ok doc

/-- The loop of `Count` -/
def tally (op : Operator) : Nat → op.State → Outcome (Nat × op.State)
  | 0, _ => .exhausted
  | fuel + 1, state => do
      let (more, state) ← op.next state
      if more then
        let (rest, final) ← tally op fuel state
        return (rest + 1, final)
      else return (0, state)

def Query.count (setting : Setting) (scan : Pipeline) (query : Query) :
    Outcome (Nat × Option Error) := do
  let planned := query.plan setting scan
  let (count, final) ← tally planned.op setting.fuel planned.state
  return (count, planned.op.err final)

end CocoDB.Document

/-! ## The pipeline of a query

A query over a scan that runs through a list of stored documents filters the
list, sorts it and cuts it, whenever there is room for the result.
-/

namespace CocoDB.Document

open Lib Cson CocoDB.Query
open Index (Runtime DocumentError)

/-- The document that `ToMap` gives. -/
def documentOf (item : Item) : Document :=
  match toMap item.view with
  | .ok doc => doc
  | _ => []

/-- The elements after `offset` of them, up to `limit`; neither counts unless it
is positive. -/
def cut (limit offset : Int) (items : List Item) : List Item :=
  let rest := items.drop offset.toNat
  if 0 < limit then rest.take limit.toNat else rest

def Query.filtered (runtime : Runtime) (query : Query) (items : List Item) :
    List Item :=
  items.filter fun item =>
    query.predicates.all fun expr => selects runtime expr item.view

def Query.answer (setting : Setting) (query : Query) (items : List Item) :
    List Item :=
  let filtered := query.filtered setting.runtime items
  let sorted :=
    if query.sortFields.isEmpty then filtered
    else arrange setting.slice query.sortFields filtered
  cut query.limitVal query.offsetVal sorted

section Plan

variable {setting : Setting} {scan : Pipeline} {items : List Item}

theorem window_eq_cut (limit offset : Int) (items : List Item) :
    window limit offset 0 0 items = cut limit offset items := by
  simp only [window, cut, sub_zero]

theorem selects_combined (runtime : Runtime) {exprs : List Expression}
    {view : DocumentView} (readable : Readable view) :
    selects runtime (combined exprs) view =
      exprs.all fun expr => selects runtime expr view := by
  cases exprs with
  | nil =>
      have value := readable.evaluateAll_eq runtime []
      rw [combined, selects, evaluate, value]
      intro _ clash
      cases clash
  | cons first rest =>
      cases rest with
      | nil => simp [combined]
      | cons second rest =>
          have value :=
            readable.evaluateAll_eq runtime (first :: second :: rest)
          rw [combined, selects, evaluate, value]
          intro _ clash
          cases clash

theorem addFilter_streams (streams : scan.Streams items)
    (readable : ∀ item ∈ items, Readable item.view)
    (enough : items.length < setting.fuel) (exprs : List Expression) :
    (addFilter setting exprs scan).Streams
      (items.filter fun item =>
        exprs.all fun expr => selects setting.runtime expr item.view) := by
  rw [addFilter]
  split
  · next empty =>
    rw [List.isEmpty_iff.mp empty]
    simpa using streams
  · have chosen : (items.filter fun item =>
        exprs.all fun expr => selects setting.runtime expr item.view) =
        items.filter fun item =>
          selects setting.runtime (combined exprs) item.view := by
      apply List.filter_congr
      intro item member
      rw [selects_combined setting.runtime (readable item member)]
    rw [chosen]
    exact streams.filter setting.runtime (combined exprs) readable enough

theorem addSort_streams (streams : scan.Streams items)
    (readable : ∀ item ∈ items, Readable item.view)
    (lawful : LawfulSlice setting.slice)
    (enough : items.length < setting.fuel) (fields : List SortField) :
    (addSort setting fields scan).Streams
      (if fields.isEmpty then items
        else arrange setting.slice fields items) := by
  rw [addSort]
  split
  · exact streams
  · exact streams.sort setting.slice fields enough
      (arrange_spec lawful fields readable).1

theorem addLimit_streams (streams : scan.Streams items)
    (limit offset : Int) :
    (addLimit limit offset scan).Streams (cut limit offset items) := by
  rw [addLimit]
  split
  · rw [← window_eq_cut]
    exact streams.limit limit offset
  · next neither =>
    have all : cut limit offset items = items := by
      have unlimited : ¬ 0 < limit := fun positive => neither (.inl positive)
      have start : offset.toNat = 0 := by omega
      simp [cut, unlimited, start]
    rw [all]
    exact streams

end Plan

def itemOf (dict : FieldDictionary) (records : RecordMap)
    (pair : Bytes × Bytes) : Option Item :=
  if pair.2.length < 8 then none
  else
    match records (Index.recordOf pair.2) with
    | none => none
    | some payload =>
        match newDocumentView payload dict with
        | .error _ => none
        | .ok view => some ⟨view, Index.recordOf pair.2⟩

/-! ## Runs of a pipeline -/

/-- What the next calls of `Next` return. -/
def calls (op : Operator) : Nat → op.State → Outcome (List Bool)
  | 0, _ => .ok []
  | count + 1, state => do
      let (more, state) ← op.next state
      let rest ← calls op count state
      return more :: rest

section Runs

variable {op : Operator} {rel : op.State → List Item → Prop}
  (follows : Follows op rel) {state : op.State} {items : List Item}
  (here : rel state items)
include follows here

theorem calls_eq (count : Nat) :
    calls op count state = .ok (List.replicate (min count items.length) true ++
      List.replicate (count - items.length) false) := by
  induction count generalizing state items with
  | zero => simp [calls]
  | succ count inductionHypothesis =>
      cases items with
      | nil =>
          obtain ⟨after, ended, last⟩ := follows.done here
          have rest := inductionHypothesis last
          simp only [calls, ended, Outcome.ok_bind, rest]
          simp [List.replicate_succ]
      | cons item rest =>
          obtain ⟨after, found, -, -, there⟩ := follows.more here
          have later := inductionHypothesis there
          simp only [calls, found, Outcome.ok_bind, later]
          simp [Nat.succ_min_succ, List.replicate_succ]

theorem collect_eq (readable : ∀ item ∈ items, Readable item.view) {fuel : Nat}
    (enough : items.length < fuel) :
    ∃ after, collect op fuel state = .ok (items.map documentOf, after) ∧
      op.err after = none := by
  induction items generalizing state fuel with
  | nil =>
      obtain ⟨fuel, rfl⟩ := Nat.exists_eq_succ_of_ne_zero (by omega :
        fuel ≠ 0)
      obtain ⟨after, ended, last⟩ := follows.done here
      exact ⟨after, by simp [collect, ended], follows.fine last⟩
  | cons item rest inductionHypothesis =>
      rw [List.length_cons] at enough
      obtain ⟨fuel, rfl⟩ := Nat.exists_eq_succ_of_ne_zero (by omega :
        fuel ≠ 0)
      obtain ⟨next, found, view, -, there⟩ := follows.more here
      obtain ⟨doc, mapped⟩ := (readable item (List.mem_cons_self ..)).maps
      have document : documentOf item = doc := by
        rw [documentOf, mapped]
      obtain ⟨after, gathered, fine⟩ := inductionHypothesis there
        (fun other member => readable other (List.mem_cons_of_mem _ member))
        (by omega : rest.length < fuel)
      refine ⟨after, ?_, fine⟩
      simp [collect, found, view, mapped, gathered, document]

theorem tally_eq {fuel : Nat} (enough : items.length < fuel) :
    ∃ after, tally op fuel state = .ok (items.length, after) ∧
      op.err after = none := by
  induction items generalizing state fuel with
  | nil =>
      obtain ⟨fuel, rfl⟩ := Nat.exists_eq_succ_of_ne_zero (by omega :
        fuel ≠ 0)
      obtain ⟨after, ended, last⟩ := follows.done here
      exact ⟨after, by simp [tally, ended], follows.fine last⟩
  | cons item rest inductionHypothesis =>
      rw [List.length_cons] at enough
      obtain ⟨fuel, rfl⟩ := Nat.exists_eq_succ_of_ne_zero (by omega :
        fuel ≠ 0)
      obtain ⟨next, found, -, -, there⟩ := follows.more here
      obtain ⟨after, counted, fine⟩ :=
        inductionHypothesis there (by omega : rest.length < fuel)
      exact ⟨after, by simp [tally, found, counted], fine⟩

end Runs

/-! ## Queries -/

/-- What a query runs on: a scan of stored documents, `sort.Slice`, and more
turns for the loops than there are documents. -/
structure Scans (setting : Setting) (scan : Pipeline) (items : List Item) :
    Prop where
  streams : scan.Streams items
  readable : ∀ item ∈ items, Readable item.view
  lawful : LawfulSlice setting.slice
  enough : items.length < setting.fuel

section Queries

variable {setting : Setting} {scan : Pipeline} {items : List Item}
  (scans : Scans setting scan items)
include scans

theorem Scans.filtered_subset (query : Query) :
    (query.filtered setting.runtime items).length ≤ items.length ∧
      ∀ item ∈ query.filtered setting.runtime items, Readable item.view :=
  ⟨List.length_filter_le _ _, fun item member =>
    scans.readable item (List.mem_of_mem_filter member)⟩

theorem Scans.answer_sublist (query : Query) :
    (query.answer setting items).length ≤ items.length ∧
      ∀ item ∈ query.answer setting items, Readable item.view := by
  obtain ⟨shorter, readable⟩ := scans.filtered_subset query
  have sorted : ∀ filtered : List Item,
      (∀ item ∈ filtered, Readable item.view) →
      (if query.sortFields.isEmpty then filtered
        else arrange setting.slice query.sortFields filtered).Perm filtered := by
    intro filtered readable
    split
    · exact .refl _
    · exact (arrange_spec scans.lawful query.sortFields readable).2.1
  have within : ∀ (limit offset : Int) (items : List Item),
      cut limit offset items <:+: items := by
    intro limit offset items
    simp only [cut]
    split
    · exact (List.take_prefix _ _).isInfix.trans (List.drop_suffix _ _).isInfix
    · exact (List.drop_suffix _ _).isInfix
  have perm := sorted _ readable
  have part := within query.limitVal query.offsetVal
    (if query.sortFields.isEmpty then query.filtered setting.runtime items
      else arrange setting.slice query.sortFields
        (query.filtered setting.runtime items))
  constructor
  · exact (part.length_le.trans perm.length_eq.le).trans shorter
  · intro item member
    exact readable item (perm.mem_iff.mp (part.subset member))

theorem Scans.plan_streams (query : Query) :
    (query.plan setting scan).Streams (query.answer setting items) := by
  obtain ⟨shorter, readable⟩ := scans.filtered_subset query
  have filtered := addFilter_streams scans.streams scans.readable scans.enough
    query.predicates
  have sorted := addSort_streams filtered readable scans.lawful
    (Nat.lt_of_le_of_lt shorter scans.enough) query.sortFields
  exact addLimit_streams sorted query.limitVal query.offsetVal

theorem Scans.all_eq (query : Query) :
    query.all setting scan =
      if query.limitVal ≤ setting.slots then
        .ok ((query.answer setting items).map documentOf, none)
      else .panic := by
  obtain ⟨rel, follows, here⟩ := scans.plan_streams query
  obtain ⟨shorter, readable⟩ := scans.answer_sublist query
  obtain ⟨after, collected, fine⟩ := collect_eq follows here readable
    (Nat.lt_of_le_of_lt shorter scans.enough)
  rw [Query.all]
  by_cases room : query.limitVal ≤ setting.slots
  · have fits : ¬ (0 < query.limitVal ∧
        (setting.slots : Int) < query.limitVal) := by omega
    rw [if_neg fits, if_pos room]
    simp [collected, fine]
  · have large : 0 < query.limitVal ∧
        (setting.slots : Int) < query.limitVal := by omega
    rw [if_pos large, if_neg room]

theorem Scans.count_eq (query : Query) :
    query.count setting scan =
      .ok ((query.answer setting items).length, none) := by
  obtain ⟨rel, follows, here⟩ := scans.plan_streams query
  obtain ⟨shorter, _⟩ := scans.answer_sublist query
  obtain ⟨after, counted, fine⟩ := tally_eq follows here
    (Nat.lt_of_le_of_lt shorter scans.enough)
  rw [Query.count]
  simp [counted, fine]

/-- The head of a list of documents, or `ErrDocNotFound` -/
def headOf (items : List Item) : Except DocumentError Document :=
  match items with
  | [] => .error .docNotFound
  | item :: _ => .ok (documentOf item)

theorem Scans.first_eq (query : Query) (room : 0 < setting.slots) :
    query.first setting scan =
      .ok (headOf ((query.limit 1).answer setting items)) := by
  have one : (query.limit 1).limitVal ≤ setting.slots := by
    simp only [Query.limit]
    omega
  rw [Query.first, scans.all_eq, if_pos one]
  cases (query.limit 1).answer setting items <;> rfl

/-- `All`, `Count`, `First` and the calls of `Next` are those of the list. -/
structure Meets (setting : Setting) (scan : Pipeline) (query : Query)
    (items : List Item) : Prop where
  all : query.all setting scan =
    .ok ((query.answer setting items).map documentOf, none)
  count : query.count setting scan =
    .ok ((query.answer setting items).length, none)
  first : query.first setting scan =
    .ok (headOf ((query.limit 1).answer setting items))
  ended : ∀ count, calls (query.plan setting scan).op count
      (query.plan setting scan).state =
    .ok (List.replicate (min count (query.answer setting items).length) true ++
      List.replicate (count - (query.answer setting items).length) false)

/-- The pipeline computes on lists unless the limit is larger than the capacity
`make` accepts. -/
theorem pipeline_meets_iff (room : 0 < setting.slots) (query : Query) :
    Meets setting scan query items ↔ query.limitVal ≤ setting.slots := by
  constructor
  · intro meets
    by_contra large
    have all := meets.all
    rw [scans.all_eq, if_neg large] at all
    cases all
  · intro fits
    obtain ⟨rel, follows, here⟩ := scans.plan_streams query
    exact
      { all := by rw [scans.all_eq, if_pos fits]
        count := scans.count_eq query
        first := scans.first_eq query room
        ended := calls_eq follows here }

end Queries

/-! A scan of one document. -/

def amd64 : Setting := ⟨plainRuntime, 10, insertionSlice, 2 ^ 45⟩

def fiveItem : Item := ⟨viewOf singleDict (singlePayload (.int64 5)), 1⟩

theorem fiveItem_scans : Scans amd64 (listScan [fiveItem]) [fiveItem] where
  streams := listScan_streams _
  readable := by
    intro item member
    rw [List.mem_singleton] at member
    rw [member]
    exact readable_encoded (@single_encoded (.int64 5) (by decide))
      single_wellFormed
  lawful := insertionSlice_lawful
  enough := by decide

theorem pipeline_meets_five :
    Meets amd64 (listScan [fiveItem]) (newQuery.limit 3) [fiveItem] ↔
      (newQuery.limit 3).limitVal ≤ amd64.slots :=
  pipeline_meets_iff fiveItem_scans (by decide) _

/-- With the largest limit there is `All` panics. -/
theorem pipeline_largest_limit :
    (newQuery.limit (2 ^ 63 - 1)).all amd64 (listScan [fiveItem]) = .panic ∧
      ¬ Meets amd64 (listScan [fiveItem]) (newQuery.limit (2 ^ 63 - 1))
        [fiveItem] := by
  have panics : (newQuery.limit (2 ^ 63 - 1)).all amd64
      (listScan [fiveItem]) = .panic := by
    rw [fiveItem_scans.all_eq, if_neg (by decide)]
  refine ⟨panics, fun meets => ?_⟩
  have all := meets.all
  rw [panics] at all
  cases all

end CocoDB.Document
