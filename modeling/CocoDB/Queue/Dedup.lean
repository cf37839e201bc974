import CocoDB.Lib.Buffer
import CocoDB.Lib.Sweep
import Mathlib.Data.List.AList

/-!
# Deduplication

`internal/queue/dedup.go`: the identifiers seen lately and the time until which
each of them is a duplicate.  A cleanup visits the entries in any order.
-/

namespace CocoDB.Queue

open Lib

/-- `Deduplicator`: when the entry of an identifier expires -/
structure Deduplicator where
  entries : AList fun _ : Bytes => Int64

namespace Deduplicator

def newDeduplicator : Deduplicator := ⟨∅⟩

def cleanupLocked (now : Int64) (dedup : Deduplicator) : Deduplicator where
  entries := dedup.entries.entries.foldl
    (fun entries entry =>
      if entry.2 ≤ now then entries.erase entry.1 else entries)
    dedup.entries

def record (dedupID : Bytes) (expireAt now : Int64) (dedup : Deduplicator) :
    Deduplicator :=
  let recorded : Deduplicator := ⟨dedup.entries.insert dedupID expireAt⟩
  if 1000 < recorded.entries.entries.length then recorded.cleanupLocked now
  else recorded

/-- `CheckOrSet`: whether the identifier is new -/
def checkOrSet (dedupID : Bytes) (window now : Int64) (dedup : Deduplicator) :
    Bool × Deduplicator :=
  if dedupID = [] then (true, dedup)
  else
    match dedup.entries.lookup dedupID with
    | some expireAt =>
        if now < expireAt then (false, dedup)
        else (true, dedup.record dedupID (now + window) now)
    | none => (true, dedup.record dedupID (now + window) now)

/-! ## What is remembered -/

variable {dedup : Deduplicator} {id : Bytes} {expireAt now : Int64}

theorem lookup_erased
    (entries : List (Sigma fun _ : Bytes => Int64))
    (start : AList fun _ : Bytes => Int64)
    (held : start.lookup id = some expireAt) (early : now < expireAt)
    (same : ∀ entry ∈ entries, entry.1 = id → entry.2 = expireAt) :
    (entries.foldl (fun kept entry =>
      if entry.2 ≤ now then kept.erase entry.1 else kept) start).lookup id =
      some expireAt := by
  induction entries generalizing start with
  | nil => exact held
  | cons entry rest inductionHypothesis =>
      obtain ⟨here, later⟩ := List.forall_mem_cons.mp same
      rw [List.foldl_cons]
      refine inductionHypothesis _ ?_ later
      split
      · rename_i lapsed
        have different : id ≠ entry.1 := fun equal => by
          rw [here equal.symm] at lapsed
          exact Int64.not_lt.mpr lapsed early
        rw [AList.lookup_erase_ne different]
        exact held
      · exact held

theorem lookup_cleanupLocked (held : dedup.entries.lookup id = some expireAt)
    (early : now < expireAt) :
    (dedup.cleanupLocked now).entries.lookup id = some expireAt := by
  refine lookup_erased _ _ held early fun entry member equal => ?_
  have found : dedup.entries.lookup entry.1 = some entry.2 :=
    AList.mem_lookup_iff.mpr member
  rw [equal, held] at found
  exact (Option.some.inj found).symm

theorem lookup_record_self (early : now < expireAt) :
    (dedup.record id expireAt now).entries.lookup id = some expireAt := by
  unfold record
  simp only
  split
  · exact lookup_cleanupLocked (AList.lookup_insert _) early
  · exact AList.lookup_insert _

theorem lookup_record_other {other : Bytes} {until' : Int64}
    (different : id ≠ other) (held : dedup.entries.lookup id = some expireAt)
    (early : now < expireAt) :
    (dedup.record other until' now).entries.lookup id = some expireAt := by
  have inserted : (dedup.entries.insert other until').lookup id =
      some expireAt := by
    rw [AList.lookup_insert_ne different]
    exact held
  unfold record
  simp only
  split
  · exact lookup_cleanupLocked inserted early
  · exact inserted

theorem checkOrSet_held (given : id ≠ [])
    (held : dedup.entries.lookup id = some expireAt) (early : now < expireAt)
    (window : Int64) : dedup.checkOrSet id window now = (false, dedup) := by
  unfold checkOrSet
  rw [if_neg given, held]
  simp only [if_pos early]

theorem lookup_checkOrSet {other : Bytes} (different : id ≠ other)
    (held : dedup.entries.lookup id = some expireAt) (early : now < expireAt)
    (window : Int64) :
    (dedup.checkOrSet other window now).2.entries.lookup id =
      some expireAt := by
  unfold checkOrSet
  split
  · exact held
  · split
    · split
      · exact held
      · exact lookup_record_other different held early
    · exact lookup_record_other different held early

theorem lookup_checkOrSet_new {window : Int64} (given : id ≠ [])
    (isNew : (dedup.checkOrSet id window now).1 = true)
    (early : now < now + window) :
    (dedup.checkOrSet id window now).2.entries.lookup id =
      some (now + window) := by
  unfold checkOrSet at isNew ⊢
  rw [if_neg given] at isNew ⊢
  cases found : dedup.entries.lookup id with
  | none => exact lookup_record_self early
  | some expireAt =>
      rw [found] at isNew
      simp only at isNew ⊢
      split at isNew
      · cases isNew
      · rename_i lapsed
        rw [if_neg lapsed]
        exact lookup_record_self early

def Blocks (id : Bytes) (now : Int64) (dedup : Deduplicator) : Prop :=
  ∃ expireAt, dedup.entries.lookup id = some expireAt ∧ now < expireAt

theorem lookup_of_erased (entries : List (Sigma fun _ : Bytes => Int64))
    (start : AList fun _ : Bytes => Int64)
    (held : (entries.foldl (fun kept entry =>
      if entry.2 ≤ now then kept.erase entry.1 else kept) start).lookup id =
        some expireAt) :
    start.lookup id = some expireAt := by
  induction entries generalizing start with
  | nil => exact held
  | cons entry rest inductionHypothesis =>
      rw [List.foldl_cons] at held
      have earlier := inductionHypothesis _ held
      split at earlier
      · by_cases same : id = entry.1
        · rw [same, AList.lookup_erase] at earlier
          cases earlier
        · rwa [AList.lookup_erase_ne same] at earlier
      · exact earlier

/-! ## The law -/

abbrev Entry := Sigma fun _ : Bytes => Int64

/-- `cleanupLocked`, which visits the entries in some order. -/
def cleanupIn (order : Shuffle Entry) (now : Int64) (dedup : Deduplicator) :
    Deduplicator where
  entries := (order.arrange dedup.entries.entries).foldl
    (fun entries entry =>
      if entry.2 ≤ now then entries.erase entry.1 else entries)
    dedup.entries

/-- Record an identifier.  Without an order the entries are not cleaned up. -/
def recordIn (tidy : Option (Shuffle Entry)) (dedupID : Bytes)
    (expireAt now : Int64) (dedup : Deduplicator) : Deduplicator :=
  let recorded : Deduplicator := ⟨dedup.entries.insert dedupID expireAt⟩
  match tidy with
  | some order =>
      if 1000 < recorded.entries.entries.length then
        recorded.cleanupIn order now
      else recorded
  | none => recorded

structure Call where
  dedupID : Bytes
  window : Int64
  now : Int64

/-- `CheckOrSet` with the order in which a cleanup visits the entries. -/
def perform (tidy : Option (Shuffle Entry)) (call : Call)
    (dedup : Deduplicator) : Bool × Deduplicator :=
  if call.dedupID = [] then (true, dedup)
  else
    match dedup.entries.lookup call.dedupID with
    | some expireAt =>
        if call.now < expireAt then (false, dedup)
        else (true, dedup.recordIn tidy call.dedupID
          (call.now + call.window) call.now)
    | none => (true, dedup.recordIn tidy call.dedupID
        (call.now + call.window) call.now)

def history (tidy : Nat → Option (Shuffle Entry)) (calls : List Call) :
    List (Call × Bool) × Deduplicator :=
  calls.foldl
    (fun (past, dedup) call =>
      let (isNew, after) := dedup.perform (tidy past.length) call
      (past ++ [(call, isNew)], after))
    ([], newDeduplicator)

/-- Times do not go back, and a time with its window fits. -/
structure Orderly (calls : List Call) : Prop where
  times : calls.Pairwise fun one two => one.now ≤ two.now
  windows : ∀ call ∈ calls, 0 ≤ call.window
  fits : ∀ call ∈ calls, call.now.toInt + call.window.toInt < 2 ^ 63

/-- An identifier is taken at a time if an earlier call with it was accepted and
its window is not over. -/
def Taken (past : List (Call × Bool)) (id : Bytes) (now : Int64) : Prop :=
  ∃ call, (call, true) ∈ past ∧ call.dedupID = id ∧
    now.toInt < call.now.toInt + call.window.toInt

section Law

variable {past : List (Call × Bool)} {calls : List Call} {call : Call}
  {tidy : Nat → Option (Shuffle Entry)}

theorem Orderly.front (orderly : Orderly (calls ++ [call])) :
    Orderly calls where
  times := (List.pairwise_append.mp orderly.times).1
  windows one member := orderly.windows one (List.mem_append_left _ member)
  fits one member := orderly.fits one (List.mem_append_left _ member)

theorem Orderly.last_latest (orderly : Orderly (calls ++ [call])) {one : Call}
    (member : one ∈ calls) : one.now ≤ call.now :=
  (List.pairwise_append.mp orderly.times).2.2 one member call
    (List.mem_singleton_self call)

theorem toInt_expiry {one : Call} (positive : 0 ≤ one.window)
    (fits : one.now.toInt + one.window.toInt < 2 ^ 63) :
    (one.now + one.window).toInt = one.now.toInt + one.window.toInt := by
  have lower := one.now.le_toInt
  have above := Int64.le_iff_toInt_le.mp positive
  rw [Int64.toInt_zero] at above
  rw [Int64.toInt_add]
  apply Int.bmod_eq_of_le <;> omega

variable {time : Int64}

theorem blocks_cleanupIn (order : Shuffle Entry) (later : now ≤ time) :
    (dedup.cleanupIn order now).Blocks id time ↔ dedup.Blocks id time := by
  constructor
  · rintro ⟨expireAt, held, early⟩
    exact ⟨expireAt, lookup_of_erased _ _ held, early⟩
  · rintro ⟨expireAt, held, early⟩
    refine ⟨expireAt, ?_, early⟩
    apply lookup_erased _ _ held (Int64.lt_of_le_of_lt later early)
    intro entry visited equal
    have listed := (order.perm dedup.entries.entries).mem_iff.mp visited
    have found : dedup.entries.lookup entry.1 = some entry.2 :=
      AList.mem_lookup_iff.mpr listed
    rw [equal, held] at found
    exact (Option.some.inj found).symm

theorem blocks_insert (other : Bytes) :
    (Deduplicator.mk (dedup.entries.insert other expireAt)).Blocks id time ↔
      (id = other ∧ time < expireAt) ∨ (id ≠ other ∧ dedup.Blocks id time) := by
  by_cases same : id = other
  · subst same
    simp [Blocks]
  · simp only [Blocks, AList.lookup_insert_ne same, same, false_and, ne_eq,
      not_false_eq_true, true_and, false_or]

theorem blocks_recordIn (tidy : Option (Shuffle Entry)) (other : Bytes)
    (later : now ≤ time) :
    (dedup.recordIn tidy other expireAt now).Blocks id time ↔
      (id = other ∧ time < expireAt) ∨ (id ≠ other ∧ dedup.Blocks id time) := by
  rw [← blocks_insert]
  simp only [recordIn]
  cases tidy with
  | none => rfl
  | some order =>
      simp only
      split
      · exact blocks_cleanupIn order later
      · rfl

theorem perform_isNew (tidy : Option (Shuffle Entry))
    (given : call.dedupID ≠ []) :
    (dedup.perform tidy call).1 = false ↔
      dedup.Blocks call.dedupID call.now := by
  simp only [perform, if_neg given, Blocks]
  cases dedup.entries.lookup call.dedupID with
  | none => simp
  | some expireAt =>
      by_cases early : call.now < expireAt <;> simp [early]

theorem blocks_perform (tidy : Option (Shuffle Entry))
    (given : call.dedupID ≠ []) (later : call.now ≤ time) :
    (dedup.perform tidy call).2.Blocks id time ↔
      dedup.Blocks id time ∨ (dedup.perform tidy call).1 = true ∧
        call.dedupID = id ∧ time < call.now + call.window := by
  by_cases blocked : dedup.Blocks call.dedupID call.now
  · have refused := (perform_isNew tidy given).mpr blocked
    obtain ⟨expireAt, held, early⟩ := blocked
    rw [refused]
    simp only [perform, if_neg given, held, if_pos early, Bool.false_eq_true,
      false_and, or_false]
  · have accepted := eq_true_of_ne_false
      (mt (perform_isNew tidy given).mp blocked)
    have recorded : (dedup.perform tidy call).2 =
        dedup.recordIn tidy call.dedupID (call.now + call.window)
          call.now := by
      simp only [perform, if_neg given] at accepted ⊢
      cases found : dedup.entries.lookup call.dedupID with
      | none => rfl
      | some expireAt =>
          have lapsed : ¬ call.now < expireAt := fun early =>
            blocked ⟨expireAt, found, early⟩
          simp only [if_neg lapsed]
    have lapsed : ¬ dedup.Blocks call.dedupID time :=
      fun ⟨expireAt, held, early⟩ =>
        blocked ⟨expireAt, held, Int64.lt_of_le_of_lt later early⟩
    rw [recorded, accepted, blocks_recordIn tidy _ later]
    by_cases same : id = call.dedupID
    · rw [same]
      simp [lapsed]
    · simp [same, Ne.symm same]

/-- The entries that are not over are the accepted calls whose windows are not
over. -/
def Tracks (past : List (Call × Bool)) (dedup : Deduplicator) : Prop :=
  ∀ id, id ≠ [] → ∀ time, (∀ one ∈ past, one.1.now ≤ time) →
    (dedup.Blocks id time ↔ Taken past id time)

theorem tracks_newDeduplicator : Tracks [] newDeduplicator := by
  intro id given time later
  apply iff_of_false
  · intro ⟨expireAt, held, _⟩
    rw [newDeduplicator, AList.lookup_empty] at held
    cases held
  · intro ⟨one, member, _⟩
    cases member

theorem Tracks.perform (tracks : Tracks past dedup)
    (tidy : Option (Shuffle Entry)) (positive : 0 ≤ call.window)
    (fits : call.now.toInt + call.window.toInt < 2 ^ 63) :
    Tracks (past ++ [(call, (dedup.perform tidy call).1)])
      (dedup.perform tidy call).2 := by
  intro id given time later
  have before := tracks id given time fun one member =>
    later one (List.mem_append_left _ member)
  have latest := later _
    (List.mem_append_right past (List.mem_singleton_self _))
  have split : Taken (past ++ [(call, (dedup.perform tidy call).1)]) id time ↔
      Taken past id time ∨ (dedup.perform tidy call).1 = true ∧
        call.dedupID = id ∧ time < call.now + call.window := by
    rw [Int64.lt_iff_toInt_lt, toInt_expiry positive fits]
    simp only [Taken, List.mem_append, List.mem_singleton, Prod.mk.injEq]
    constructor
    · rintro ⟨one, member | ⟨rfl, isNew⟩, same, early⟩
      · exact Or.inl ⟨one, member, same, early⟩
      · exact Or.inr ⟨isNew.symm, same, early⟩
    · rintro (⟨one, member, same, early⟩ | ⟨isNew, same, early⟩)
      · exact ⟨one, Or.inl member, same, early⟩
      · exact ⟨call, Or.inr ⟨rfl, isNew.symm⟩, same, early⟩
  rw [split, ← before]
  by_cases unnamed : call.dedupID = []
  · have kept : (dedup.perform tidy call).2 = dedup := by
      simp only [Deduplicator.perform, if_pos unnamed]
    have other : call.dedupID ≠ id := unnamed ▸ Ne.symm given
    simp [kept, other]
  · exact blocks_perform tidy unnamed latest

/-! ## Histories -/

theorem history_append (tidy : Nat → Option (Shuffle Entry))
    (calls : List Call) (call : Call) :
    history tidy (calls ++ [call]) =
      ((history tidy calls).1 ++ [(call, ((history tidy calls).2.perform
          (tidy (history tidy calls).1.length) call).1)],
        ((history tidy calls).2.perform
          (tidy (history tidy calls).1.length) call).2) := by
  simp only [history, List.foldl_append, List.foldl_cons, List.foldl_nil]

theorem history_calls (tidy : Nat → Option (Shuffle Entry))
    (calls : List Call) : (history tidy calls).1.map Prod.fst = calls := by
  induction calls using List.reverseRecOn with
  | nil => rfl
  | append_singleton calls call inductionHypothesis =>
      rw [history_append, List.map_append, inductionHypothesis]
      rfl

theorem tracks_history (orderly : Orderly calls) :
    Tracks (history tidy calls).1 (history tidy calls).2 := by
  induction calls using List.reverseRecOn with
  | nil => exact tracks_newDeduplicator
  | append_singleton calls call inductionHypothesis =>
      have last : call ∈ calls ++ [call] :=
        List.mem_append_right calls (List.mem_singleton_self call)
      rw [history_append]
      exact (inductionHypothesis orderly.front).perform _
        (orderly.windows call last) (orderly.fits call last)

theorem answer_iff (orderly : Orderly (calls ++ [call]))
    (given : call.dedupID ≠ []) (cleanup : Option (Shuffle Entry)) :
    ((history tidy calls).2.perform cleanup call).1 = false ↔
      Taken (history tidy calls).1 call.dedupID call.now := by
  rw [perform_isNew cleanup given]
  apply tracks_history orderly.front call.dedupID given call.now
  intro one member
  apply orderly.last_latest
  have listed := List.mem_map_of_mem (f := Prod.fst) member
  rwa [history_calls] at listed

/-- A call with an identifier is refused just when the identifier is taken. -/
def Lawful (past : List (Call × Bool)) : Prop :=
  ∀ earlier call isNew later, past = earlier ++ (call, isNew) :: later →
    call.dedupID ≠ [] →
      (isNew = false ↔ Taken earlier call.dedupID call.now)

theorem lawful_history (orderly : Orderly calls) :
    Lawful (history tidy calls).1 := by
  induction calls using List.reverseRecOn with
  | nil =>
      intro earlier call isNew later split
      exact absurd split.symm (List.append_ne_nil_of_right_ne_nil _
        (List.cons_ne_nil _ _))
  | append_singleton calls last inductionHypothesis =>
      intro earlier call isNew later split given
      rw [history_append] at split
      induction later using List.reverseRecOn with
      | nil =>
          obtain ⟨same, answered⟩ := List.append_inj' split rfl
          obtain ⟨rfl, rfl⟩ := Prod.mk.inj (List.cons.inj answered).1
          rw [← same]
          exact answer_iff orderly given _
      | append_singleton later final _ =>
          rw [← List.cons_append, ← List.append_assoc] at split
          exact inductionHypothesis orderly.front earlier call isNew later
            (List.append_inj' split rfl).1 given

theorem history_eq (orderly : Orderly calls)
    (another : Nat → Option (Shuffle Entry)) :
    (history tidy calls).1 = (history another calls).1 := by
  induction calls using List.reverseRecOn with
  | nil => rfl
  | append_singleton calls call inductionHypothesis =>
      have past := inductionHypothesis orderly.front
      have answered : ((history tidy calls).2.perform
            (tidy (history tidy calls).1.length) call).1 =
          ((history another calls).2.perform
            (another (history another calls).1.length) call).1 := by
        by_cases given : call.dedupID = []
        · simp only [perform, if_pos given]
        · have one : ((history tidy calls).2.perform
                (tidy (history tidy calls).1.length) call).1 = false ↔
              Taken (history tidy calls).1 call.dedupID call.now :=
            answer_iff orderly given _
          have two : ((history another calls).2.perform
                (another (history another calls).1.length) call).1 = false ↔
              Taken (history another calls).1 call.dedupID call.now :=
            answer_iff orderly given _
          rw [Bool.eq_iff_iff, ← not_iff_not, Bool.not_eq_true,
            Bool.not_eq_true, one, two, past]
      simp only [history_append]
      rw [answered, past]

end Law

/-- The answers follow the law, in whatever order a cleanup visits the entries,
and they are those of a run that leaves out any of its cleanups. -/
theorem checkOrSet_law {calls : List Call} (orderly : Orderly calls)
    (orders : Nat → Shuffle Entry) (tidy : Nat → Option (Shuffle Entry)) :
    Lawful (history (fun index => some (orders index)) calls).1 ∧
      (history (fun index => some (orders index)) calls).1 =
        (history tidy calls).1 :=
  ⟨lawful_history orderly, history_eq orderly tidy⟩

theorem checkOrSet_law_twice :
    (Lawful (history (fun _ => some (.listed Entry))
        [⟨[1], 5, 3⟩, ⟨[1], 5, 7⟩, ⟨[1], 5, 8⟩]).1 ∧
      (history (fun _ => some (.listed Entry))
          [⟨[1], 5, 3⟩, ⟨[1], 5, 7⟩, ⟨[1], 5, 8⟩]).1 =
        (history (fun _ => none)
          [⟨[1], 5, 3⟩, ⟨[1], 5, 7⟩, ⟨[1], 5, 8⟩]).1) ∧
      (history (fun _ => some (.listed Entry))
        [⟨[1], 5, 3⟩, ⟨[1], 5, 7⟩, ⟨[1], 5, 8⟩]).1.map Prod.snd =
          [true, false, true] := by
  constructor
  · apply checkOrSet_law
    exact ⟨by decide, by decide, by decide⟩
  · decide

end Deduplicator

end CocoDB.Queue
