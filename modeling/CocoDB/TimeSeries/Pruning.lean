import CocoDB.TimeSeries.Selection

/-!
# What pruning deletes

Without an error pruning deletes the points that are less than the cutoff as
floats.  With the comparisons and the ranges this settles where integers are
compared exactly.
-/

namespace CocoDB.TimeSeries

open Lib Cson CocoDB.Query Document
open Index (Runtime DocumentError)

section Loop

variable {σ : Type} {delete : Bytes → σ → Except DocumentError Unit × σ}

def deleteAll (delete : Bytes → σ → Except DocumentError Unit × σ)
    (ids : List Bytes) (state : σ) : σ :=
  ids.foldl (fun state id => (delete id state).2) state

theorem pruneLoop_spec {docs : List Cson.Document} {state : σ}
    (named : ∀ doc ∈ docs, ∃ id, lookup doc idField =
      some (.scalar (.string id)) ∧ id ≠ [])
    (fine : (pruneLoop delete docs state).err = none) :
    (pruneLoop delete docs state).deleted.map
        (fun id => some (.scalar (.string id))) =
          docs.map (fun doc => lookup doc idField) ∧
      (pruneLoop delete docs state).state =
        deleteAll delete (pruneLoop delete docs state).deleted state := by
  induction docs generalizing state with
  | nil => exact ⟨rfl, rfl⟩
  | cons doc rest inductionHypothesis =>
      obtain ⟨id, found, filled⟩ := named doc (List.mem_cons_self ..)
      rcases outcome : delete id state with ⟨result, after⟩
      simp only [pruneLoop, found, if_neg filled, outcome] at fine ⊢
      cases result with
      | error cause => cases fine
      | ok done =>
          simp only at fine ⊢
          obtain ⟨deleted, final⟩ := inductionHypothesis
            (fun other member => named other (List.mem_cons_of_mem _ member))
            fine
          constructor
          · rw [List.map_cons, List.map_cons, deleted, found]
          · rw [final, deleteAll, deleteAll, List.foldl_cons, outcome]

end Loop

/-! ## Points before the cutoff -/

def BeforeAsFloats (items : List Item) (cutoff : Int64) : Prop :=
  ∀ item ∈ items, timeAt item < cutoff → Separate (timeAt item) cutoff

section Cutoff

variable {setting : Setting} {scan : Pipeline} {items : List Item}
  (scans : Scans setting scan items)
include scans

theorem selected_eq (cutoff : Int64) :
    (newQuery.satisfying (.lt tsField (.scalar (.int64 cutoff)))).all setting
      scan = .ok ((items.filter fun item => selects setting.runtime
        (.lt tsField (.scalar (.int64 cutoff))) item.view).map documentOf,
        none) := by
  have unlimited : (newQuery.satisfying
      (.lt tsField (.scalar (.int64 cutoff)))).limitVal ≤ setting.slots := by
    simp only [Query.satisfying, newQuery]
    omega
  rw [scans.all_eq, if_pos unlimited]
  simp [Query.answer, Query.filtered, Query.satisfying, newQuery, cut]

theorem expired_eq (points : ∀ item ∈ items, IsPoint item) (cutoff : Int64) :
    (newQuery.satisfying (.lt tsField (.scalar (.int64 cutoff)))).all setting
      scan = .ok ((items.filter fun item =>
        Binary64.less (Binary64.ofInt64 (timeAt item))
          (Binary64.ofInt64 cutoff)).map documentOf, none) := by
  have chosen : (items.filter fun item =>
      Binary64.less (Binary64.ofInt64 (timeAt item))
        (Binary64.ofInt64 cutoff)) =
      items.filter fun item => selects setting.runtime
        (.lt tsField (.scalar (.int64 cutoff))) item.view := by
    apply List.filter_congr
    intro item member
    rw [selects_lt (scans.readable item member) (points item member)]
  rw [selected_eq scans, chosen]

variable {σ : Type} (delete : Bytes → σ → Except DocumentError Unit × σ)

theorem prune_iff (points : ∀ item ∈ items, IsPoint item) (cutoff : Int64)
    (state : σ) :
    ∃ pruned, pruneBefore delete setting scan cutoff state = .ok pruned ∧
      (pruned.err = none →
        pruned.state = deleteAll delete pruned.deleted state ∧
        (pruned.deleted.Perm ((items.filter fun item =>
            timeAt item < cutoff).map idAt) ↔
          BeforeAsFloats items cutoff)) := by
  refine ⟨_, by rw [pruneBefore, expired_eq scans points cutoff]; rfl, ?_⟩
  intro fine
  have chosen : ∀ item ∈ items.filter fun item =>
      Binary64.less (Binary64.ofInt64 (timeAt item))
        (Binary64.ofInt64 cutoff), IsPoint item := fun item member =>
    points item (List.mem_of_mem_filter member)
  obtain ⟨deleted, final⟩ := pruneLoop_spec (by
    intro doc member
    obtain ⟨item, listed, rfl⟩ := List.mem_map.mp member
    exact (chosen item listed).named) fine
  refine ⟨final, ?_⟩
  have identifiers : (pruneLoop delete ((items.filter fun item =>
      Binary64.less (Binary64.ofInt64 (timeAt item))
        (Binary64.ofInt64 cutoff)).map documentOf) state).deleted =
      (items.filter fun item => Binary64.less
        (Binary64.ofInt64 (timeAt item)) (Binary64.ofInt64 cutoff)).map
          idAt := by
    have injective : Function.Injective fun id : Bytes =>
        some (Value.scalar (.string id)) := by
      intro one two same
      injection same with same
      injection same with same
      injection same
    apply List.map_injective_iff.mpr injective
    rw [deleted, List.map_map, List.map_map]
    apply List.map_congr_left
    intro item member
    exact (chosen item member).id_eq.1
  rw [identifiers, List.perm_comm, filter_perm_iff]
  · apply forall₂_congr
    intro item member
    rw [decide_eq_true_eq]
    exact less_exact_iff (timeAt item) cutoff
  · intro item member below
    exact decide_eq_true (less_of_float below)

end Cutoff

section Exact

variable {dict : FieldDictionary} {payload : Bytes} {doc : Cson.Document}
  {runtime : Runtime} {field : Bytes} {val : Value} {stored : Int}
  {operand : Int64}

theorem comparisons_iff (encoded : Encoded dict payload doc)
    (wellFormed : dict.WellFormed)
    (integral : integerAt (fieldValue dict payload field) = some stored)
    (integer : IsInteger val operand) :
    ComparesExactly runtime (viewOf dict payload) field val stored
        operand.toInt ↔
      ∃ value, fieldValue dict payload field =
        some (.scalar (.int64 value)) ∧ Separate value operand := by
  have reads := reads_encoded encoded wellFormed field
  unfold integerAt at integral
  split at integral
  · next value found =>
    cases integral
    rw [found] at reads ⊢
    rw [comparesExactly_int64 reads integer]
    constructor
    · intro separate
      exact ⟨value, rfl, separate⟩
    · rintro ⟨_, ⟨⟩, separate⟩
      exact separate
  · next value found =>
    cases integral
    rw [found] at reads ⊢
    constructor
    · intro compares
      exact absurd compares (not_comparesExactly_uint64 reads integer)
    · rintro ⟨_, ⟨⟩, _⟩
  · cases integral

/-- Comparisons, ranges and pruning are exact where no two different integers
that they compare become the same float. -/
theorem integers_exact_iff (encoded : Encoded dict payload doc)
    (wellFormed : dict.WellFormed)
    (integral : integerAt (fieldValue dict payload field) = some stored)
    (integer : IsInteger val operand) {setting : Setting} {scan : Pipeline}
    {items : List Item} (scans : Scans setting scan items)
    (points : ∀ item ∈ items, IsPoint item) {query : TimeQuery}
    (unlimited : query.limit ≤ 0) (cutoff : Int64) {σ : Type}
    (delete : Bytes → σ → Except DocumentError Unit × σ) (state : σ) :
    (ComparesExactly runtime (viewOf dict payload) field val stored
        operand.toInt ↔
      ∃ value, fieldValue dict payload field =
        some (.scalar (.int64 value)) ∧ Separate value operand) ∧
    (∃ docs, query.documents setting scan = .ok (docs, none) ∧
      (docs.Perm ((items.filter fun item =>
          inRange query item && tagged setting.runtime query item).map
            documentOf) ↔
        ∀ item ∈ items, tagged setting.runtime query item = true →
          Distinguishes query item)) ∧
    ∃ pruned, pruneBefore delete setting scan cutoff state = .ok pruned ∧
      (pruned.err = none →
        pruned.state = deleteAll delete pruned.deleted state ∧
        (pruned.deleted.Perm ((items.filter fun item =>
            timeAt item < cutoff).map idAt) ↔
          BeforeAsFloats items cutoff)) := by
  refine ⟨comparisons_iff encoded wellFormed integral integer,
    range_iff scans points unlimited,
    prune_iff scans delete points cutoff state⟩

end Exact

/-! A series of one point, at nanosecond 5. -/

def pointDict : FieldDictionary :=
  FieldDictionary.newFieldDictionary.assign tsField

def pointPayload (nanos : Int64) : Bytes :=
  (written pointDict (.object [(idField, .scalar (.string [0x70])),
    (tsField, .scalar (.int64 nanos))])).2

def pointItem : Item := ⟨viewOf pointDict (pointPayload 5), 1⟩

theorem point_wellFormed : pointDict.WellFormed :=
  FieldDictionary.newFieldDictionary_wellFormed.assign (by decide) (by decide)

theorem point_encoded : Encoded pointDict (pointPayload 5)
    [(idField, .scalar (.string [0x70])), (tsField, .scalar (.int64 5))] := by
  refine ⟨?_, ?_, rfl, by decide⟩
  · simp [Valid, ValidFields, idField, tsField]
  · intro name member
    have same : name = idField ∨ name = tsField := by
      simpa [names, namesOfFields] using member
    cases same with
    | inl id => exact ⟨1, by rw [id]; decide⟩
    | inr stamp => exact ⟨2, by rw [stamp]; decide⟩

theorem point_located :
    (viewOf pointDict (pointPayload 5)).searchField 2 0 2 =
      .ok (some ⟨2, 37, 8⟩) := by
  have right : (viewOf pointDict (pointPayload 5)).searchField 2 1 2 =
      .ok (some ⟨2, 37, 8⟩) := by
    rw [DocumentView.searchField]
    rfl
  rw [DocumentView.searchField]
  exact right

theorem point_reads : Reads pointItem.view tsField
    (some (.scalar (.int64 5))) := by
  have known : pointDict.getID tsField = some 2 := by decide
  have found : (viewOf pointDict (pointPayload 5)).getFieldLoc tsField =
      .ok (some ⟨2, 37, 8⟩) := by
    rw [DocumentView.getFieldLoc]
    simp only [viewOf, known]
    exact point_located
  exact @reads_scalar _ _ _ found (by decide) (Nat.not_le.mpr (by decide))
    (.int64 5) rfl (by decide)

theorem pointItem_isPoint : IsPoint pointItem where
  stamped := ⟨5, point_reads.valueAt_eq⟩
  named := ⟨[0x70], by rfl, nofun⟩

theorem pointItem_scans :
    Scans amd64 (listScan [pointItem]) [pointItem] where
  streams := listScan_streams _
  readable := by
    intro item member
    rw [List.mem_singleton] at member
    rw [member]
    exact readable_encoded point_encoded point_wellFormed
  lawful := insertionSlice_lawful
  enough := by decide

/-- At 5 the field `_ts` compares as the integer, the range from 3 to 9 selects
the point, and so does pruning before 9. -/
theorem integers_exact_five :
    (ComparesExactly plainRuntime (viewOf pointDict (pointPayload 5)) tsField
        (.scalar (.int 3)) 5 (3 : Int64).toInt ↔
      ∃ value, fieldValue pointDict (pointPayload 5) tsField =
        some (.scalar (.int64 value)) ∧ Separate value 3) ∧
    (∃ docs, TimeQuery.documents amd64 (listScan [pointItem])
        ⟨some 3, some 9, [], 0, false⟩ = .ok (docs, none) ∧
      (docs.Perm (([pointItem].filter fun item =>
          inRange ⟨some 3, some 9, [], 0, false⟩ item &&
            tagged plainRuntime ⟨some 3, some 9, [], 0, false⟩ item).map
              documentOf) ↔
        ∀ item ∈ [pointItem],
          tagged plainRuntime ⟨some 3, some 9, [], 0, false⟩ item = true →
            Distinguishes ⟨some 3, some 9, [], 0, false⟩ item)) ∧
    ∃ pruned, pruneBefore (fun id ids => (.ok (), id :: ids)) amd64
        (listScan [pointItem]) 9 [] = .ok pruned ∧
      (pruned.err = none →
        pruned.state = deleteAll (fun id ids => (.ok (), id :: ids))
          pruned.deleted [] ∧
        (pruned.deleted.Perm (([pointItem].filter fun item =>
            timeAt item < 9).map idAt) ↔
          BeforeAsFloats [pointItem] 9)) := by
  apply integers_exact_iff point_encoded point_wellFormed
  · rw [point_reads.fieldValue_eq]
    rfl
  · exact .inl rfl
  · exact pointItem_scans
  · intro item member
    rw [List.mem_singleton.mp member]
    exact pointItem_isPoint
  · exact Int.le_refl 0

theorem large_reads :
    Reads (viewOf singleDict (singlePayload (.int64 9007199254740993)))
      [0x61] (some (.scalar (.int64 9007199254740993))) := by
  refine @single_reads (.int64 9007199254740993) ⟨2, 22, 8⟩ ?_ (by decide)
    (by decide) rfl (by decide)
  rw [DocumentView.searchField]
  rfl

/-- The integer 2^53 + 1 is not greater than 2^53. -/
theorem integers_large_equal :
    integerAt (fieldValue singleDict (singlePayload (.int64 9007199254740993))
      [0x61]) = some 9007199254740993 ∧
    evaluate plainRuntime
      (viewOf singleDict (singlePayload (.int64 9007199254740993)))
      (.gt [0x61] (.scalar (.int64 9007199254740992))) = .ok false ∧
    ¬ ComparesExactly plainRuntime
      (viewOf singleDict (singlePayload (.int64 9007199254740993))) [0x61]
      (.scalar (.int64 9007199254740992)) 9007199254740993
      9007199254740992 := by
  have equal : evaluate plainRuntime
      (viewOf singleDict (singlePayload (.int64 9007199254740993)))
      (.gt [0x61] (.scalar (.int64 9007199254740992))) = .ok false := by
    rw [evaluate_gt large_reads]
    rfl
  refine ⟨?_, equal, ?_⟩
  · rw [large_reads.fieldValue_eq]
    rfl
  · intro compares
    have greater := compares.gt
    rw [equal] at greater
    cases greater

end CocoDB.TimeSeries
