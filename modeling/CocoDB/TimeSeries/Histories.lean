import CocoDB.Query.Grouping
import CocoDB.TimeSeries.Deletions

/-!
# Histories of a series

The number in an identifier is that of the process: it starts again when the
database is opened again.  The points of a history stay apart exactly when no
number comes back at the same nanosecond; otherwise the later point takes the
place of the earlier one.
-/

namespace CocoDB.TimeSeries

open Lib BTree Cson CocoDB.Query Document
open Index (Runtime DocumentError)

/-! ## Runs -/

/-- A series and the `timeSeriesSequence` of the process; the identifiers that
were returned in the whole history, the times and the numbers that they were made
of, and how many points were pruned. -/
structure Series (σ : Type) [Kernel σ] where
  coll : Collection σ
  sequence : UInt64
  written : List Bytes
  stamps : List (Int64 × UInt64)
  pruned : Nat

/-- What happens to a series.  A call that fails is rolled back, but it has
counted its points. -/
inductive Event (σ : Type) [Kernel σ] where
  | write (call : PointCall σ)
  | writeMany (calls : List (PointCall σ))
  | failed (calls : List (PointCall σ)) (next : Collection σ)
  | prune (setting : Setting)
      (orders : Bytes → Shuffle (Index.SecondaryIndex σ)) (cutoff : Int64)
  | elsewhere (next : Collection σ)
  | reopened (next : Collection σ)

section Runs

variable {σ : Type} [Kernel σ] (runtime : Runtime)

def Series.opened (coll : Collection σ) : Series σ := ⟨coll, 0, [], [], 0⟩

def Series.commit (calls : List (PointCall σ)) (result : WriteResult σ)
    (series : Series σ) : Option (Series σ) :=
  match result.err with
  | some _ => none
  | none =>
      some
        { series with
          coll := result.coll
          sequence := result.sequence
          written := series.written ++ result.ids
          stamps := series.stamps ++ stampsOf calls series.sequence }

def Series.step (series : Series σ) : Event σ → Option (Series σ)
  | .write call =>
      series.commit [call] (write runtime call series.sequence series.coll)
  | .writeMany calls =>
      series.commit calls
        (writeMany runtime calls series.sequence series.coll)
  | .failed calls next =>
      some
        { series with
          coll := next
          sequence :=
            (writeMany runtime calls series.sequence series.coll).sequence }
  | .prune setting orders cutoff =>
      match series.coll.scan with
      | .error _ => none
      | .ok scan =>
          match pruneCollection orders setting scan cutoff series.coll with
          | .ok ⟨deleted, none, next⟩ =>
              some
                { series with
                  coll := next
                  pruned := series.pruned + deleted.length }
          | _ => none
  | .elsewhere next => some { series with coll := next }
  | .reopened next => some { series with coll := next, sequence := 0 }

def Series.run : List (Event σ) → Series σ → Option (Series σ)
  | [], series => some series
  | event :: rest, series => (series.step runtime event).bind (run rest)

end Runs

section Histories

variable {σ : Type} [Kernel σ] [ReopenedKernel σ] {runtime : Runtime}

/-- No identifier was returned twice, and a query without bounds returns the
points that were written and not pruned. -/
structure Series.Intact (series : Series σ) : Prop where
  distinct : series.written.Nodup
  counted : ∀ setting : Setting, LawfulSlice setting.slice →
    series.written.length < setting.fuel → ∀ ofFloat, ∃ scan points,
      series.coll.scan = .ok scan ∧
      everything.all ofFloat setting scan = .ok (points, none) ∧
      points.length + series.pruned = series.written.length

def HandsOver (coll next : Collection σ) : Prop :=
  ∀ live, Holding coll live → Holding next live

/-- The documents of a call fit the format, pruning selects points that are alone
under their own identifiers, and everything else leaves the points alone. -/
def Series.Allows (runtime : Runtime) (series : Series σ) : Event σ → Prop
  | .write call => AllFit runtime [call] series.sequence series.coll
  | .writeMany calls => AllFit runtime calls series.sequence series.coll
  | .failed _ next => HandsOver series.coll next
  | .prune setting _ cutoff =>
      LawfulSlice setting.slice ∧ series.written.length < setting.fuel ∧
        ∀ leaves ids records,
          Served IsStamped series.coll leaves ids records →
          Prunable setting cutoff series.coll leaves ids records
  | .elsewhere next => HandsOver series.coll next
  | .reopened next => HandsOver series.coll next

def Series.AllowsAll (runtime : Runtime) : List (Event σ) → Series σ → Prop
  | [], _ => True
  | event :: rest, series =>
      series.Allows runtime event ∧
        ∀ next, series.step runtime event = some next →
          AllowsAll runtime rest next

end Histories

section Made

variable {σ : Type} [Kernel σ] {runtime : Runtime} {series next : Series σ}

def Series.Made (series : Series σ) : Prop :=
  series.written = series.stamps.map fun stamp => pointID stamp.1 stamp.2

theorem pointID_injective :
    Function.Injective fun stamp : Int64 × UInt64 =>
      pointID stamp.1 stamp.2 := by
  intro one two same
  obtain ⟨nanos, seq⟩ := pointID_eq_iff.mp same
  exact Prod.ext nanos seq

theorem Series.Made.distinct_iff (made : series.Made) :
    series.written.Nodup ↔ series.stamps.Nodup := by
  rw [made]
  exact List.nodup_map_iff pointID_injective

theorem commit_eq {calls : List (PointCall σ)} {result : WriteResult σ}
    (committed : series.commit calls result = some next) :
    result.err = none ∧ next =
      { series with
        coll := result.coll
        sequence := result.sequence
        written := series.written ++ result.ids
        stamps := series.stamps ++ stampsOf calls series.sequence } := by
  unfold Series.commit at committed
  split at committed
  · cases committed
  · next done => exact ⟨done, (Option.some.inj committed).symm⟩

theorem step_prune_keeps {setting : Setting}
    {orders : Bytes → Shuffle (Index.SecondaryIndex σ)} {cutoff : Int64}
    (pruned : series.step runtime (.prune setting orders cutoff) =
      some next) :
    next.written = series.written ∧ next.stamps = series.stamps := by
  simp only [Series.step] at pruned
  split at pruned
  · cases pruned
  split at pruned
  · cases pruned
    exact ⟨rfl, rfl⟩
  · cases pruned

variable (prints : ∀ text, runtime.sprint (.scalar (.string text)) = text)
include prints

theorem Series.Made.commit (made : series.Made)
    {calls : List (PointCall σ)}
    (committed : series.commit calls
      (TimeSeries.writeMany runtime calls series.sequence series.coll) =
        some next) : next.Made := by
  obtain ⟨done, rfl⟩ := commit_eq committed
  have ids := writeMany_ids prints done
  rw [Series.Made] at made ⊢
  rw [List.map_append, ← ids, ← made]

theorem Series.Made.step (made : series.Made) {event : Event σ}
    (stepped : series.step runtime event = some next) : next.Made := by
  cases event with
  | write call =>
      rw [Series.step, write_eq] at stepped
      exact made.commit prints stepped
  | writeMany calls => exact made.commit prints stepped
  | failed calls coll =>
      cases stepped
      exact made
  | prune setting orders cutoff =>
      obtain ⟨written, stamps⟩ := step_prune_keeps stepped
      rw [Series.Made, written, stamps]
      exact made
  | elsewhere coll =>
      cases stepped
      exact made
  | reopened coll =>
      cases stepped
      exact made

theorem Series.Made.run (made : series.Made) {events : List (Event σ)}
    (ran : series.run runtime events = some next) : next.Made := by
  induction events generalizing series with
  | nil =>
      cases ran
      exact made
  | cons event rest inductionHypothesis =>
      rw [Series.run, Option.bind_eq_some_iff] at ran
      obtain ⟨middle, stepped, ran⟩ := ran
      exact inductionHypothesis (made.step prints stepped) ran

end Made

section Steps

variable {σ : Type} [Kernel σ] [ReopenedKernel σ] {runtime : Runtime}
  {series next : Series σ}

/-- As long as the times and numbers are different, there are as many points as
were written and not pruned. -/
structure Series.Tracked (series : Series σ) : Prop where
  made : series.Made
  points : series.stamps.Nodup → ∃ live, Holding series.coll live ∧
    live ⊆ series.written.toFinset ∧
    live.card + series.pruned = series.written.length

theorem Series.Tracked.handOver (tracked : series.Tracked)
    {coll : Collection σ} (hands : HandsOver series.coll coll)
    (sequence : UInt64) :
    Series.Tracked { series with coll := coll, sequence := sequence } := by
  refine ⟨tracked.made, ?_⟩
  intro distinct
  obtain ⟨live, holding, rest⟩ := tracked.points distinct
  exact ⟨live, hands live holding, rest⟩

theorem step_prune {setting : Setting}
    {orders : Bytes → Shuffle (Index.SecondaryIndex σ)} {cutoff : Int64}
    {live : Finset Bytes} (holding : Holding series.coll live)
    (enough : live.card ≤ series.written.length)
    (allowed : series.Allows runtime (.prune setting orders cutoff))
    (pruned : series.step runtime (.prune setting orders cutoff) =
      some next) :
    ∃ names : List Bytes, names.Nodup ∧ names.toFinset ⊆ live ∧
      Holding next.coll (live \ names.toFinset) ∧
      next.pruned = series.pruned + names.length := by
  obtain ⟨lawful, room, prunable⟩ := allowed
  obtain ⟨scan, names, after, scanned, gone, distinct, within, rest⟩ :=
    @Holding.prunes σ _ _ series.coll live setting orders cutoff holding
      lawful (by omega) prunable
  simp only [Series.step, scanned, gone] at pruned
  cases pruned
  exact ⟨names, distinct, within, rest, rfl⟩

theorem Series.Tracked.prune (tracked : series.Tracked) {setting : Setting}
    {orders : Bytes → Shuffle (Index.SecondaryIndex σ)} {cutoff : Int64}
    (allowed : series.Allows runtime (.prune setting orders cutoff))
    (pruned : series.step runtime (.prune setting orders cutoff) =
      some next) : next.Tracked := by
  obtain ⟨written, stamps⟩ := step_prune_keeps pruned
  constructor
  · rw [Series.Made, written, stamps]
    exact tracked.made
  · intro distinct
    rw [stamps] at distinct
    obtain ⟨live, holding, inside, counted⟩ := tracked.points distinct
    obtain ⟨names, single, within, rest, count⟩ :=
      step_prune holding (by omega) allowed pruned
    refine ⟨live \ names.toFinset, rest, ?_, ?_⟩
    · rw [written]
      exact Finset.sdiff_subset.trans inside
    · have fewer := Finset.card_le_card within
      have left := Finset.card_sdiff_of_subset within
      rw [List.toFinset_card_of_nodup single] at fewer left
      rw [written, count, left]
      omega

section Write

variable (prints : ∀ text, runtime.sprint (.scalar (.string text)) = text)
include prints

theorem Series.Tracked.commit (tracked : series.Tracked)
    {calls : List (PointCall σ)}
    (fit : AllFit runtime calls series.sequence series.coll)
    (committed : series.commit calls
      (TimeSeries.writeMany runtime calls series.sequence series.coll) =
        some next) : next.Tracked := by
  have made := tracked.made.commit prints committed
  refine ⟨made, ?_⟩
  intro distinct
  have whole := made.distinct_iff.mpr distinct
  obtain ⟨done, rfl⟩ := commit_eq committed
  obtain ⟨_, fresh, apart⟩ := List.nodup_append.mp whole
  obtain ⟨live, holding, within, counted⟩ :=
    tracked.points (List.nodup_append.mp distinct).1
  refine ⟨_, holding.writeMany prints fit done, ?_, ?_⟩
  · rw [List.toFinset_append]
    exact Finset.union_subset_union_left within
  · have disjoint : Disjoint live (TimeSeries.writeMany runtime calls
        series.sequence series.coll).ids.toFinset := by
      rw [Finset.disjoint_left]
      intro id before after
      exact apart id (List.mem_toFinset.mp (within before)) id
        (List.mem_toFinset.mp after) rfl
    rw [Finset.card_union_of_disjoint disjoint,
      List.toFinset_card_of_nodup fresh, List.length_append, ← counted]
    exact Nat.add_right_comm ..

theorem Series.Tracked.step (tracked : series.Tracked) {event : Event σ}
    (allowed : series.Allows runtime event)
    (stepped : series.step runtime event = some next) : next.Tracked := by
  cases event with
  | write call =>
      rw [Series.step, write_eq] at stepped
      exact tracked.commit prints allowed stepped
  | writeMany calls => exact tracked.commit prints allowed stepped
  | failed calls coll =>
      cases stepped
      exact tracked.handOver allowed _
  | prune setting orders cutoff => exact tracked.prune allowed stepped
  | elsewhere coll =>
      cases stepped
      exact tracked.handOver allowed series.sequence
  | reopened coll =>
      cases stepped
      exact tracked.handOver allowed 0

theorem Series.Tracked.run (tracked : series.Tracked)
    {events : List (Event σ)} (allowed : series.AllowsAll runtime events)
    (ran : series.run runtime events = some next) : next.Tracked := by
  induction events generalizing series with
  | nil =>
      cases ran
      exact tracked
  | cons event rest inductionHypothesis =>
      obtain ⟨first, later⟩ := allowed
      rw [Series.run, Option.bind_eq_some_iff] at ran
      obtain ⟨middle, stepped, ran⟩ := ran
      exact inductionHypothesis (tracked.step prints first stepped)
        (later middle stepped) ran

end Write

theorem Series.Tracked.intact_iff (tracked : series.Tracked) :
    series.Intact ↔ series.stamps.Nodup := by
  constructor
  · intro intact
    exact tracked.made.distinct_iff.mp intact.distinct
  · intro distinct
    refine ⟨tracked.made.distinct_iff.mpr distinct, ?_⟩
    intro setting lawful enough ofFloat
    obtain ⟨live, holding, _, counted⟩ := tracked.points distinct
    obtain ⟨scan, points, scanned, found, number⟩ :=
      holding.all lawful (by omega) ofFloat
    exact ⟨scan, points, scanned, found, by omega⟩

theorem opened_tracked {coll : Collection σ} (fresh : Holding coll ∅) :
    (Series.opened coll).Tracked :=
  ⟨rfl, fun _ => ⟨∅, fresh, Finset.empty_subset _, rfl⟩⟩

/-- In every state of a history the identifiers are different exactly when no
number has come back at the same nanosecond, and as far as the points are left
alone otherwise, none is lost exactly then. -/
theorem points_intact_iff
    (prints : ∀ text, runtime.sprint (.scalar (.string text)) = text)
    {coll : Collection σ} (fresh : Holding coll ∅)
    {events : List (Event σ)}
    (ran : (Series.opened coll).run runtime events = some series) :
    (series.written.Nodup ↔ series.stamps.Nodup) ∧
      ((Series.opened coll).AllowsAll runtime events →
        (series.Intact ↔ series.stamps.Nodup)) := by
  have tracked := opened_tracked fresh
  constructor
  · exact (tracked.made.run prints ran).distinct_iff
  · intro allowed
    exact (tracked.run prints allowed ran).intact_iff

end Steps

/-! Two processes that write a point each, into a collection in memory. -/

def pointAt (nanos : Int64) : PointCall Memory :=
  ⟨⟨some nanos, [], []⟩, 0, 0, ⟨.listed, .listed _, .listed _⟩, []⟩

def noPoints : Collection Memory :=
  ⟨FieldDictionary.newFieldDictionary, [], [], fun _ => none, Memory.empty⟩

def onePoint (nanos : Int64) : Collection Memory :=
  (write printing (pointAt nanos) 0 noPoints).coll

def reopenedMemory (coll : Collection Memory) : Collection Memory :=
  { coll with kernel := coll.kernel.reopened }

def twoProcesses (first second : Int64) : List (Event Memory) :=
  [.write (pointAt first), .reopened (reopenedMemory (onePoint first)),
    .write (pointAt second)]

theorem noPoints_holding : Holding noPoints ∅ := by
  refine ⟨[], fun _ => none, fun _ => none, ?_, by simp⟩
  exact
    { dict := FieldDictionary.newFieldDictionary_wellFormed
      indexes := rfl
      schema := fun _ => rfl
      lists := ⟨fun _ => rfl, nofun⟩
      full := .inl (Nat.zero_le 1)
      holds := ⟨.inr ⟨rfl, rfl⟩, List.Pairwise.nil, rfl⟩
      stored := nofun }

theorem reopenedMemory_handsOver (coll : Collection Memory) :
    HandsOver coll (reopenedMemory coll) := by
  rintro live ⟨leaves, ids, records, served, listed⟩
  refine ⟨leaves, ids, records, ?_, listed⟩
  exact { served with
    holds := ⟨served.holds.listed, served.holds.sorted, served.holds.kept⟩ }

theorem fits_noPoints : FitsFormat (pointAt 5).orders
    (newDocument 5 1 (pointAt 5).point) noPoints := by
  refine ⟨⟨?_, ?_, trivial, trivial, trivial⟩, ?_, ?_⟩
  · decide
  · decide
  · rw [FieldDictionary.Spacious]
    decide
  · intro payload grown encodes
    cases encodes
    decide

theorem fits_onePoint {second : Int64} (listed : second = 5 ∨ second = 6) :
    FitsFormat (pointAt second).orders
      (newDocument second 1 (pointAt second).point)
      (reopenedMemory (onePoint 5)) := by
  rcases listed with rfl | rfl
  all_goals
    refine ⟨⟨?_, ?_, trivial, trivial, trivial⟩, ?_, ?_⟩
    · decide
    · decide
    · rw [FieldDictionary.Spacious]
      decide
    · intro payload grown encodes
      cases encodes
      decide

theorem twoProcesses_allowed {second : Int64}
    (listed : second = 5 ∨ second = 6) :
    (Series.opened noPoints).AllowsAll printing (twoProcesses 5 second) := by
  refine ⟨⟨fits_noPoints, trivial⟩, ?_⟩
  intro one wrote
  cases wrote
  refine ⟨reopenedMemory_handsOver _, ?_⟩
  intro two opened
  cases opened
  exact ⟨⟨fits_onePoint listed, trivial⟩, fun _ _ => trivial⟩

/-- At the nanoseconds 5 and 6 both points are there. -/
theorem points_intact_apart : ∃ series,
    (Series.opened noPoints).run printing (twoProcesses 5 6) = some series ∧
      series.Intact :=
  ⟨_, rfl, ((points_intact_iff (fun _ => rfl) noPoints_holding rfl).2
    (twoProcesses_allowed (.inr rfl))).mpr (by decide)⟩

/-- At the nanosecond 5 the second process takes the identifier of the first one,
and of two points one is left. -/
theorem points_collide : ∃ series,
    (Series.opened noPoints).run printing (twoProcesses 5 5) = some series ∧
      ¬ series.Intact ∧ series.written.length = 2 ∧ series.pruned = 0 ∧
      ∃ scan points, series.coll.scan = .ok scan ∧
        everything.all (fun _ => 0) ⟨printing, 10, insertionSlice, 2 ^ 45⟩
          scan = .ok (points, none) ∧ points.length = 1 := by
  have prints : ∀ text, printing.sprint (.scalar (.string text)) = text :=
    fun _ => rfl
  have one : Holding (onePoint 5) {pointID 5 1} :=
    @Holding.writeMany Memory _ _ noPoints ∅ printing 0 prints
      noPoints_holding [pointAt 5] ⟨fits_noPoints, trivial⟩ rfl
  have two := @Holding.writeMany Memory _ _ (reopenedMemory (onePoint 5))
    {pointID 5 1} printing 0 prints (reopenedMemory_handsOver _ _ one)
    [pointAt 5] ⟨fits_onePoint (.inl rfl), trivial⟩ rfl
  refine ⟨_, rfl, ?_, rfl, rfl, ?_⟩
  · intro intact
    have distinct := intact.distinct
    revert distinct
    decide
  · exact two.all insertionSlice_lawful (by decide) (fun _ => 0)

end CocoDB.TimeSeries
