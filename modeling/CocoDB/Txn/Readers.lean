import CocoDB.Txn.Manager
import CocoDB.Lib.Extreme
import CocoDB.Lib.Sweep
import Mathlib.Data.List.AList

/-!
# The reader table

What `Begin`, `Commit` and `Rollback` do to the snapshots of a transaction
manager.  The writes of a commit leave them alone, whether they fail or not.

`internal/txn/reader_table.go` keeps a count for each snapshot and visits the
snapshots in any order to find the oldest.
-/

namespace CocoDB.TxnManager

variable (manager : TxnManager)

theorem append_readers (fails : Bool) (record : WalRecord) :
    (manager.append fails record).2.readers = manager.readers := rfl

theorem append_noted (fails : Bool) (record : WalRecord)
    {outcome : Except Error LSN} {after : TxnManager}
    (appended : manager.append fails record = (outcome, after)) :
    after.readers = manager.readers := by
  rw [← append_readers manager fails record, appended]

theorem logPages_readers (txnID : TxnID) (entries : List (PageID × Nat))
    (faults : List Bool) :
    (manager.logPages txnID entries faults).2.readers = manager.readers := by
  induction entries generalizing faults manager with
  | nil => rfl
  | cons entry rest inductionHypothesis =>
      obtain ⟨id, ref⟩ := entry
      simp only [logPages]
      split
      · next appended =>
          have kept := append_noted _ _ _ appended
          exact kept
      · next appended =>
          have kept := append_noted _ _ _ appended
          rw [inductionHypothesis]
          exact kept

theorem syncLog_readers (fails : Bool) (lastLSN : LSN) :
    (manager.syncLog fails lastLSN).2.readers = manager.readers := by
  unfold syncLog
  cases manager.syncMode <;> rfl

theorem commitWrites_readers (order : MapOrder) (faults : List Bool)
    (tx : Transaction) :
    (manager.commitWrites order faults tx).2.readers = manager.readers := by
  have pages := manager.logPages_readers tx.txnID
    (order.pages tx.dirtyPages) faults
  unfold commitWrites
  split
  · next logged => rwa [logged] at pages
  · next left logged logs =>
      rw [logs] at pages
      split
      · next appended => exact (append_noted _ _ _ appended).trans pages
      · next commitLSN recorded appended =>
          have records := append_noted _ _ _ appended
          have synced := recorded.syncLog_readers (left.tail.headD false)
            commitLSN
          split
          · next syncs =>
              rw [syncs] at synced
              exact synced.trans (records.trans pages)
          · next syncs =>
              rw [syncs] at synced
              exact synced.trans (records.trans pages)

def readersWithout (tx : Transaction) : List TxnID :=
  if tx.isOpen then ReaderTable.deregister tx.snapshotTxn manager.readers
  else manager.readers

theorem commit_readers (order : MapOrder) (faults : List Bool)
    (tx : Transaction) :
    (manager.commit order faults tx).2.2.readers =
      manager.readersWithout tx := by
  have writes := manager.commitWrites_readers order faults tx
  simp only [commit, readersWithout]
  split
  · split
    · rfl
    · exact congrArg (ReaderTable.deregister tx.snapshotTxn) writes
  · rfl

theorem rollback_readers (fails : Bool) (tx : Transaction) :
    (manager.rollback fails tx).2.readers = manager.readersWithout tx := by
  simp only [rollback, readersWithout]
  split
  · split <;> rfl
  · rfl

theorem commit_closed (order : MapOrder) (faults : List Bool)
    (tx : Transaction) :
    (manager.commit order faults tx).2.1 = { tx with isOpen := false } := by
  simp only [commit]
  split
  · split <;> rfl
  · next shut => rw [← Bool.eq_false_of_not_eq_true shut]

theorem rollback_closed (fails : Bool) (tx : Transaction) :
    (manager.rollback fails tx).1 = { tx with isOpen := false } := by
  simp only [rollback]
  split
  · split <;> rfl
  · next shut => rw [← Bool.eq_false_of_not_eq_true shut]

theorem beginTxn_readers (fails readOnly : Bool) :
    (manager.beginTxn fails readOnly).2.readers =
      (manager.beginTxn fails readOnly).1.snapshotTxn :: manager.readers := by
  cases readOnly <;> rfl

theorem beginTxn_open (fails readOnly : Bool) :
    (manager.beginTxn fails readOnly).1.isOpen = true ∧
      (manager.beginTxn fails readOnly).1.readOnly = readOnly := by
  cases readOnly <;> exact ⟨rfl, rfl⟩

end CocoDB.TxnManager

namespace CocoDB

open Lib

/-! ## The counts of the table -/

/-- `ReaderTable`: how many active transactions there are for a snapshot -/
structure ReaderCounts where
  readers : AList fun _ : TxnID => Nat

namespace ReaderCounts

def newReaderTable : ReaderCounts := ⟨∅⟩

def register (snapshotTxn : TxnID) (table : ReaderCounts) : ReaderCounts :=
  ⟨table.readers.insert snapshotTxn
    ((table.readers.lookup snapshotTxn).getD 0 + 1)⟩

def deregister (snapshotTxn : TxnID) (table : ReaderCounts) : ReaderCounts :=
  match table.readers.lookup snapshotTxn with
  | some cnt =>
      if cnt ≤ 1 then ⟨table.readers.erase snapshotTxn⟩
      else ⟨table.readers.insert snapshotTxn (cnt - 1)⟩
  | none => table

/-- `OldestActiveSnapshot`, which visits the keys in some order -/
def oldestActiveSnapshot (order : Shuffle TxnID) (fallback : TxnID)
    (table : ReaderCounts) : TxnID :=
  ReaderTable.oldestActiveSnapshot (order.arrange table.readers.keys) fallback

def entry : Nat → Option Nat
  | 0 => none
  | count + 1 => some (count + 1)

def Counts (snapshots : List TxnID) (table : ReaderCounts) : Prop :=
  ∀ snapshot, table.readers.lookup snapshot = entry (snapshots.count snapshot)

section Counts

variable {snapshots : List TxnID} {table : ReaderCounts} {snapshot : TxnID}

theorem counts_newReaderTable : Counts [] newReaderTable :=
  fun snapshot => AList.lookup_empty snapshot

theorem Counts.mem_keys (counts : Counts snapshots table) :
    snapshot ∈ table.readers.keys ↔ snapshot ∈ snapshots := by
  have looked := @AList.lookup_isSome _ _ _ snapshot table.readers
  rw [counts snapshot] at looked
  change snapshot ∈ table.readers ↔ snapshot ∈ snapshots
  rw [← looked, ← List.count_pos_iff]
  cases snapshots.count snapshot with
  | zero => simp [entry]
  | succ count => simp [entry]

theorem Counts.register (counts : Counts snapshots table)
    (snapshotTxn : TxnID) :
    Counts (ReaderTable.register snapshotTxn snapshots)
      (table.register snapshotTxn) := by
  intro snapshot
  simp only [ReaderCounts.register, ReaderTable.register]
  by_cases same : snapshot = snapshotTxn
  · rw [same, AList.lookup_insert, counts snapshotTxn, List.count_cons_self]
    cases snapshots.count snapshotTxn <;> rfl
  · rw [AList.lookup_insert_ne same, counts snapshot,
      List.count_cons_of_ne (Ne.symm same)]

theorem Counts.deregister (counts : Counts snapshots table)
    (snapshotTxn : TxnID) :
    Counts (ReaderTable.deregister snapshotTxn snapshots)
      (table.deregister snapshotTxn) := by
  intro snapshot
  have held := counts snapshotTxn
  have here := counts snapshot
  simp only [ReaderCounts.deregister, ReaderTable.deregister,
    List.count_erase]
  cases counted : snapshots.count snapshotTxn with
  | zero =>
      rw [counted, entry] at held
      simp only [held]
      by_cases same : snapshotTxn = snapshot
      · rw [← same, held, counted, Nat.zero_sub, entry]
      · rw [here, if_neg (mt eq_of_beq same), Nat.sub_zero]
  | succ rest =>
      rw [counted, entry] at held
      simp only [held]
      by_cases same : snapshotTxn = snapshot
      · rw [← same, if_pos (beq_self_eq_true snapshotTxn), counted]
        cases rest with
        | zero => exact AList.lookup_erase snapshotTxn table.readers
        | succ rest => exact AList.lookup_insert table.readers
      · rw [if_neg (mt eq_of_beq same), Nat.sub_zero, ← here]
        split
        · exact AList.lookup_erase_ne (Ne.symm same)
        · exact AList.lookup_insert_ne (Ne.symm same)

end Counts

/-! ## Calls -/

inductive ReaderCall where
  | register (snapshotTxn : TxnID)
  | deregister (snapshotTxn : TxnID)
  deriving DecidableEq

def perform (table : ReaderCounts) : ReaderCall → ReaderCounts
  | .register snapshotTxn => table.register snapshotTxn
  | .deregister snapshotTxn => table.deregister snapshotTxn

def performed (calls : List ReaderCall) : ReaderCounts :=
  calls.foldl perform newReaderTable

/-- How often a snapshot has been registered and not yet deregistered. -/
def active (calls : List ReaderCall) (snapshot : TxnID) : Nat :=
  calls.count (.register snapshot) - calls.count (.deregister snapshot)

/-- Each `Deregister` matches an earlier `Register`. -/
def Matched (calls : List ReaderCall) : Prop :=
  ∀ front, front <+: calls → ∀ snapshot,
    front.count (.deregister snapshot) ≤ front.count (.register snapshot)

theorem Matched.front {calls : List ReaderCall} {call : ReaderCall}
    (matched : Matched (calls ++ [call])) : Matched calls :=
  fun front isPrefix => matched front
    (isPrefix.trans (List.prefix_append calls [call]))

theorem exists_counts {calls : List ReaderCall} (matched : Matched calls) :
    ∃ snapshots, Counts snapshots (performed calls) ∧
      ∀ snapshot, snapshots.count snapshot = active calls snapshot := by
  induction calls using List.reverseRecOn with
  | nil => exact ⟨[], counts_newReaderTable, fun _ => rfl⟩
  | append_singleton calls call inductionHypothesis =>
      obtain ⟨snapshots, counts, counted⟩ := inductionHypothesis matched.front
      have whole := matched _ (List.prefix_refl _)
      have earlier := matched.front _ (List.prefix_refl _)
      rw [performed, List.foldl_append]
      cases call with
      | register snapshotTxn =>
          refine ⟨_, counts.register snapshotTxn, ?_⟩
          intro snapshot
          have before := earlier snapshot
          have same := counted snapshot
          simp only [active, ReaderTable.register, List.count_append,
            List.count_cons, List.count_nil] at same ⊢
          by_cases equal : snapshotTxn = snapshot
          · simp [equal] at same ⊢
            omega
          · simp [equal] at same ⊢
            omega
      | deregister snapshotTxn =>
          refine ⟨_, counts.deregister snapshotTxn, ?_⟩
          intro snapshot
          have before := whole snapshot
          have same := counted snapshot
          simp only [active, ReaderTable.deregister, List.count_append,
            List.count_cons, List.count_nil, List.count_erase] at same before ⊢
          by_cases equal : snapshotTxn = snapshot
          · simp [equal] at same before ⊢
            omega
          · simp [equal] at same before ⊢
            omega

/-! ## The oldest snapshot -/

/-- One turn of the loop of `OldestActiveSnapshot`. -/
def keepOldest (oldest txID : TxnID) : TxnID :=
  if oldest = 0 ∨ txID < oldest then txID else oldest

theorem oldestActiveSnapshot_eq (visited : List TxnID) (fallback : TxnID) :
    ReaderTable.oldestActiveSnapshot visited fallback =
      if visited = [] then fallback else visited.foldl keepOldest 0 := rfl

theorem keepOldest_zero (oldest : TxnID) : keepOldest oldest 0 = 0 := by
  simp only [keepOldest]
  split
  · rfl
  · next later =>
      obtain ⟨held, lower⟩ := not_or.mp later
      exact absurd (UInt64.le_antisymm (UInt64.not_lt.mp lower)
        UInt64.zero_le) held

theorem foldl_keepOldest (visited : List TxnID) (kept : Option TxnID)
    (positive : 0 ∉ visited) (given : kept ≠ some 0) :
    visited.foldl keepOldest (kept.getD 0) =
      (visited.foldl (keepBetter fun one two => decide (one < two))
        kept).getD 0 := by
  induction visited generalizing kept with
  | nil => rfl
  | cons txID rest inductionHypothesis =>
      have first : txID ≠ 0 := fun zero =>
        positive (zero ▸ List.mem_cons_self)
      have others : 0 ∉ rest := fun member =>
        positive (List.mem_cons_of_mem txID member)
      rw [List.foldl_cons, List.foldl_cons]
      cases kept with
      | none => exact inductionHypothesis (some txID) others (by simpa)
      | some oldest =>
          have held : oldest ≠ 0 := fun zero => given (congrArg some zero)
          simp only [keepBetter, keepOldest, Option.getD_some, held, false_or]
          by_cases lower : txID < oldest
          · simp only [lower, if_true, decide_true]
            exact inductionHypothesis (some txID) others (by simpa)
          · simp only [lower, if_false, decide_false, Bool.false_eq_true]
            exact inductionHypothesis (some oldest) others (by simpa)

theorem decides_txnID :
    Decides (fun one two : TxnID => decide (one < two)) (· ≤ ·) where
  yes less := UInt64.le_of_lt (of_decide_eq_true less)
  no more := UInt64.not_lt.mp (of_decide_eq_false more)
  refl := UInt64.le_refl
  trans := UInt64.le_trans
  antisymm := UInt64.le_antisymm

theorem foldl_keepOldest_best {visited : List TxnID} (positive : 0 ∉ visited)
    (given : visited ≠ []) :
    visited.foldl keepOldest 0 ∈ visited ∧
      ∀ txID ∈ visited, visited.foldl keepOldest 0 ≤ txID := by
  have best := bestOf_best decides_txnID visited
  have folded := foldl_keepOldest visited none positive (by simp)
  rw [Option.getD_none] at folded
  rw [folded]
  simp only [bestOf] at best
  cases found : visited.foldl
      (keepBetter fun one two : TxnID => decide (one < two)) none with
  | none =>
      rw [found, Best] at best
      exact absurd best given
  | some oldest =>
      rw [found] at best
      exact best

/-- The least of the registered snapshots, or the fallback. -/
structure OldestOf (active : TxnID → Nat) (fallback found : TxnID) : Prop where
  none_active : (∀ snapshot, active snapshot = 0) → found = fallback
  least : (∃ snapshot, 0 < active snapshot) →
    0 < active found ∧ ∀ snapshot, 0 < active snapshot → found ≤ snapshot

/-- A snapshot of zero that is visited before another is taken for none. -/
theorem oldestActiveSnapshot_iff {calls : List ReaderCall}
    (matched : Matched calls) (order : Shuffle TxnID) (fallback : TxnID) :
    OldestOf (active calls) fallback
        ((performed calls).oldestActiveSnapshot order fallback) ↔
      active calls 0 = 0 ∨
        (order.arrange (performed calls).readers.keys).getLast? = some 0 := by
  obtain ⟨snapshots, counts, counted⟩ := exists_counts matched
  generalize visits : order.arrange (performed calls).readers.keys = visited
  have visitedPerm := order.perm (performed calls).readers.keys
  rw [visits] at visitedPerm
  have member : ∀ snapshot, snapshot ∈ visited ↔ 0 < active calls snapshot := by
    intro snapshot
    rw [visitedPerm.mem_iff, counts.mem_keys, ← counted, List.count_pos_iff]
  have distinct : visited.Nodup :=
    visitedPerm.nodup_iff.mpr (performed calls).readers.keys_nodup
  simp only [oldestActiveSnapshot, visits, oldestActiveSnapshot_eq]
  by_cases empty : visited = []
  · have nobody : ∀ snapshot, active calls snapshot = 0 := by
      intro snapshot
      have absent := member snapshot
      rw [empty, iff_false_left List.not_mem_nil] at absent
      exact Nat.eq_zero_of_not_pos absent
    rw [if_pos empty]
    apply iff_of_true _ (Or.inl (nobody 0))
    exact ⟨fun _ => rfl, fun ⟨snapshot, registered⟩ =>
      absurd (nobody snapshot) registered.ne'⟩
  rw [if_neg empty]
  have somebody : ¬ ∀ snapshot, active calls snapshot = 0 := by
    intro nobody
    apply empty
    apply List.eq_nil_iff_forall_not_mem.mpr
    intro snapshot visit
    exact absurd (nobody snapshot) ((member snapshot).mp visit).ne'
  by_cases zero : 0 ∈ visited
  · obtain ⟨front, back, split⟩ := List.append_of_mem zero
    have later : 0 ∉ back := by
      rw [split] at distinct
      exact (List.nodup_cons.mp (List.nodup_append.mp distinct).2.1).1
    have folded : visited.foldl keepOldest 0 = back.foldl keepOldest 0 := by
      rw [split, List.foldl_append, List.foldl_cons, keepOldest_zero]
    rw [folded, or_iff_right ((member 0).mp zero).ne']
    by_cases last : back = []
    · -- zero comes last
      rw [last, List.foldl_nil]
      rw [last] at split
      apply iff_of_true
      · exact ⟨fun nobody => absurd nobody somebody,
          fun _ => ⟨(member 0).mp zero, fun _ _ => UInt64.zero_le⟩⟩
      · rw [split, List.getLast?_concat]
    · -- the key after zero takes its place
      obtain ⟨visit, _⟩ := foldl_keepOldest_best later last
      apply iff_of_false
      · intro oldest
        have lower := (oldest.least ⟨0, (member 0).mp zero⟩).2 0
          ((member 0).mp zero)
        rw [UInt64.le_antisymm lower UInt64.zero_le] at visit
        exact later visit
      · intro equal
        have final := List.getLast?_eq_some_getLast last
        rw [split, List.getLast?_append_cons, List.getLast?_cons, final,
          Option.getD_some] at equal
        have same := Option.some.inj equal
        exact later (same ▸ List.getLast_mem last)
  · apply iff_of_true
    · obtain ⟨visit, lower⟩ := foldl_keepOldest_best zero empty
      exact ⟨fun nobody => absurd nobody somebody,
        fun _ => ⟨(member _).mp visit, fun snapshot registered =>
          lower snapshot ((member snapshot).mpr registered)⟩⟩
    · exact Or.inl (Nat.eq_zero_of_not_pos (mt (member 0).mpr zero))

theorem oldestActiveSnapshot_of_five :
    OldestOf (active [.register 7, .register 5, .register 3, .deregister 3]) 9
      ((performed [.register 7, .register 5, .register 3,
        .deregister 3]).oldestActiveSnapshot (.listed _) 9) := by
  apply (oldestActiveSnapshot_iff _ (.listed _) 9).mpr
  · exact Or.inl (by decide)
  · intro front isPrefix snapshot
    simp only [List.prefix_cons_iff, List.prefix_nil] at isPrefix
    rcases isPrefix with rfl | ⟨_, rfl, rfl | ⟨_, rfl, rfl | ⟨_, rfl, rfl |
      ⟨_, rfl, rfl⟩⟩⟩⟩ <;> simp [List.count_cons]
    omega

/-- The first snapshot of a fresh database is zero: a later one takes its
place. -/
theorem oldestActiveSnapshot_passes_zero :
    Matched [.register 0, .register 5] ∧
      ¬ OldestOf (active [.register 0, .register 5]) 9
        ((performed [.register 0, .register 5]).oldestActiveSnapshot
          ⟨List.reverse, List.reverse_perm⟩ 9) := by
  constructor
  · intro front isPrefix snapshot
    have none : ReaderCall.deregister snapshot ∉ front := fun member => by
      have listed := isPrefix.subset member
      simp at listed
    rw [List.count_eq_zero_of_not_mem none]
    exact Nat.zero_le _
  · intro oldest
    exact absurd ((oldest.least ⟨0, by decide⟩).2 0 (by decide)) (by decide)

end ReaderCounts

end CocoDB
