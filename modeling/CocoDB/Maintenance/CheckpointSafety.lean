import CocoDB.Maintenance.CheckpointRun
import CocoDB.Txn.Session

/-!
# Runs of the scheduler

The steps of `Commit` and of `RunOnce` make up the two calls, and in every run
in which they keep out of each other's way every committed page is in the main
file or in the log.  A commit that falls between the sampling of the dirty pages
and the truncation is in neither.
-/

namespace CocoDB

open Lib

namespace Scheduler

/-! ## The steps make up the calls -/

def performAll (start : Scheduler) (actions : List Action) : Scheduler :=
  actions.foldl perform start

theorem performAll_append (start : Scheduler) (front back : List Action) :
    performAll start (front ++ back) =
      performAll (performAll start front) back :=
  List.foldl_append

theorem performAll_logPages {tx : Transaction}
    (pages : List (PageID × Nat)) {state : Scheduler}
    (running : state.writer = some tx)
    (phase : state.commit = .logging pages) :
    ∃ logged, performAll state
        (pages.flatMap fun _ => [.appendPage, .markDirty]) =
      { state with
        manager := (state.manager.logPages tx.txnID pages []).2
        commit := .logging [], logged := logged } ∧
      (state.manager.logPages tx.txnID pages []).1 = .ok [] := by
  induction pages generalizing state with
  | nil =>
      refine ⟨state.logged, ?_, rfl⟩
      rw [← phase]
      rfl
  | cons page rest inductionHypothesis =>
      obtain ⟨id, ref⟩ := page
      let stamped : Scheduler := (state.perform .appendPage).perform .markDirty
      have first : stamped =
          { state with
            manager := stamped.manager
            commit := .logging rest, logged := stamped.logged } := by
        simp only [stamped, perform, running, phase, appendPage, markDirty,
          withPager]
      have goesOn : (state.manager.logPages tx.txnID ((id, ref) :: rest) []) =
          stamped.manager.logPages tx.txnID rest [] := by
        simp only [TxnManager.logPages, TxnManager.append, WAL.tryAppend,
          List.headD_nil, List.tail_nil, Bool.false_eq_true, if_false, stamped,
          perform, running, phase, appendPage, markDirty, withPager,
          TxnManager.setPager, TxnManager.setWAL, DefaultPager.setObject,
          Function.update_self, Function.update_idem]
      have sameWriter : stamped.writer = some tx := by
        rw [first]
        exact running
      have samePhase : stamped.commit = .logging rest := by
        rw [first]
      obtain ⟨logged, result, outcome⟩ :=
        inductionHypothesis sameWriter samePhase
      refine ⟨logged, ?_, by rw [goesOn]; exact outcome⟩
      rw [goesOn]
      refine Eq.trans result ?_
      rw [first]

theorem syncLog_ok (manager : TxnManager) (lsn : LSN) :
    (manager.syncLog false lsn).1 = .ok () := by
  unfold TxnManager.syncLog
  split
  · unfold WAL.tryFlush
    simp only
    split <;> rfl
  · rfl
  · rfl

def commitActions (order : MapOrder) (tx : Transaction) : List Action :=
  .startCommit order ::
    ((order.pages tx.dirtyPages).flatMap fun _ => [.appendPage, .markDirty]) ++
    [.appendCommit, .syncLog, .finishCommit order]

/-- The steps of a commit, undisturbed, are `Commit`. -/
theorem performAll_commit {state : Scheduler} {tx : Transaction}
    (running : state.writer = some tx) (isOpen : tx.isOpen = true)
    (writes : tx.readOnly = false) (order : MapOrder) :
    (performAll state (commitActions order tx)).manager =
        (state.manager.commit order [] tx).2.2 ∧
      (state.manager.commit order [] tx).1 = .ok () := by
  let started : Scheduler :=
    { state with commit := .logging (order.pages tx.dirtyPages) }
  have first : state.perform (.startCommit order) = started := by
    simp only [perform, running, started]
  obtain ⟨logged, result, outcome⟩ :=
    performAll_logPages (order.pages tx.dirtyPages)
      (show started.writer = some tx from running) rfl
  have steps : performAll state (commitActions order tx) =
      performAll (performAll (state.perform (.startCommit order))
        ((order.pages tx.dirtyPages).flatMap fun _ =>
          [.appendPage, .markDirty]))
        [.appendCommit, .syncLog, .finishCommit order] := by
    rw [← performAll_append]
    rfl
  have pair : state.manager.logPages tx.txnID (order.pages tx.dirtyPages) [] =
      (.ok [], (state.manager.logPages tx.txnID
        (order.pages tx.dirtyPages) []).2) := Prod.ext outcome rfl
  rw [steps, first, result]
  generalize (state.manager.logPages tx.txnID
    (order.pages tx.dirtyPages) []).2 = manager at pair ⊢
  simp only [performAll, List.foldl, perform, started, running, appendCommit,
    finishCommit, TxnManager.commit, isOpen, writes, TxnManager.commitWrites,
    pair, TxnManager.append, WAL.tryAppend, if_true, List.headD_nil,
    List.tail_nil, Bool.false_eq_true, if_false]
  have synced := syncLog_ok
    (manager.setWAL (manager.wal.append (WalRecord.newTxnCommit tx.txnID)).2)
    (manager.wal.append (WalRecord.newTxnCommit tx.txnID)).1
  rcases shape : (manager.setWAL (manager.wal.append
    (WalRecord.newTxnCommit tx.txnID)).2).syncLog false
      (manager.wal.append (WalRecord.newTxnCommit tx.txnID)).1 with
    ⟨outcome', after⟩
  rw [shape] at synced
  subst synced
  exact ⟨rfl, rfl⟩

theorem performAll_flushEach (pages : List PageID) {state : Scheduler}
    (phase : state.checkpoint = .flushing pages) {after : DefaultPager}
    (flushed : DefaultPager.flushEach pages state.manager.pager =
      (.ok (), after)) :
    performAll state (pages.map fun _ => .flushNext) =
      { state.withPager after with checkpoint := .flushing [] } := by
  induction pages generalizing state with
  | nil =>
      obtain ⟨_, rfl⟩ := Prod.mk.inj flushed
      rw [← phase]
      rfl
  | cons id rest inductionHypothesis =>
      rcases shape : state.manager.pager.flush id with ⟨outcome, next⟩
      cases outcome with
      | error error =>
          simp only [DefaultPager.flushEach, shape] at flushed
          cases (Prod.mk.inj flushed).1
      | ok value =>
          simp only [DefaultPager.flushEach, shape] at flushed
          have step : state.perform .flushNext =
              { state.withPager next with checkpoint := .flushing rest } := by
            simp only [perform, phase, flushNext, shape]
          have others := inductionHypothesis
            (show (state.perform .flushNext).checkpoint = _ by rw [step])
            (by rw [step]; exact flushed)
          refine Eq.trans others ?_
          rw [step]
          rfl

def Inv (state : Scheduler) : Prop := ∃ records, Safe records state

theorem inv_step {action : Action} {before after : Scheduler}
    (holds : Inv before) (step : Guarded Clear Step action before after) :
    Inv after := by
  obtain ⟨records, safe⟩ := holds
  obtain ⟨clear, allowed, rfl⟩ := step
  cases action with
  | beginWrite => exact safe.beginWrite allowed
  | get id =>
      exact ⟨records, safe.quiet _ (safe.healthy.get allowed)
        (wal_setPager (walFlusher_get id _))⟩
  | allocate type =>
      exact ⟨records, safe.quiet _ (safe.healthy.allocate type clear)
        (wal_setPager (walFlusher_allocate safe.healthy.sound.noFree type))⟩
  | modify ref edits =>
      obtain ⟨idle, id, entry, found, samePage⟩ := allowed
      cases running : before.writer with
      | none =>
          simp only [perform, running]
          exact ⟨records, safe⟩
      | some tx =>
          simp only [perform, running]
          exact ⟨records, safe.modify edits running idle found samePage⟩
  | track ref =>
      obtain ⟨idle, id, entry, found, samePage⟩ := allowed
      cases running : before.writer with
      | none =>
          simp only [perform, running]
          exact ⟨records, safe⟩
      | some tx =>
          simp only [perform, running]
          exact ⟨records, safe.track running idle found samePage⟩
  | rollback => exact safe.rollback allowed clear
  | startCommit order => exact ⟨records, safe.startCommit order⟩
  | appendPage => exact safe.appendPage clear
  | markDirty => exact ⟨records, safe.markDirty⟩
  | appendCommit => exact safe.appendCommit
  | syncLog => exact ⟨records, safe.syncLog⟩
  | finishCommit order => exact ⟨records, safe.finishCommit order⟩
  | startCheckpoint sampled =>
      exact ⟨records, safe.startCheckpoint allowed.2⟩
  | flushNext => exact ⟨records, safe.flushNext clear⟩
  | saveMeta => exact ⟨records, safe.saveMeta⟩
  | truncate => exact safe.truncate

theorem openPager_fresh {backend : Backend} {maxCacheBytes : Nat}
    {readOnly : Bool} {randomA randomB : Bytes} {pager : DefaultPager}
    (isOpened : DefaultPager.openPager backend maxCacheBytes readOnly randomA
      randomB = .ok pager) :
    ∃ backend' slot, pager =
      DefaultPager.fresh backend' pager.info slot maxCacheBytes readOnly := by
  unfold DefaultPager.openPager at isOpened
  split at isOpened
  · split at isOpened
    · cases isOpened
    · rw [← Except.ok.inj isOpened]
      exact ⟨_, _, rfl⟩
  · split at isOpened
    · cases isOpened
    · rw [← Except.ok.inj isOpened]
      exact ⟨_, _, rfl⟩

theorem inv_opened {pager : DefaultPager} {backend : Backend} {slot : Fin 2}
    {maxCacheBytes : Nat} {readOnly : Bool}
    (fresh : pager =
      DefaultPager.fresh backend pager.info slot maxCacheBytes readOnly)
    (formed : pager.info.WellFormed)
    (noFree : pager.info.freeListRoot = invalidPageID)
    (first : 2 ≤ pager.info.nextPageID.toNat)
    (last : pager.info.nextPageID.toNat ≤ 2 ^ 49) (lastLSN : LSN)
    (mode : SyncMode) : Inv (opened pager lastLSN mode) := by
  have sound : pager.Sound := by
    rw [fresh]
    exact DefaultPager.sound_fresh backend slot maxCacheBytes readOnly noFree
  have empty : ∀ {id entry}, pager.cache.find id = some entry →
      2 ≤ id.toNat := by
    intro id entry found
    rw [fresh] at found
    cases found
  have clean : ∀ {id entry}, pager.cache.find id = some entry →
      (pager.heap entry.page).dirty = false →
      Stored pager.backend id (pager.heap entry.page).content := by
    intro id entry found
    rw [fresh] at found
    cases found
  have healthy : Healthy pager :=
    ⟨sound, clean, formed, empty, first, last⟩
  refine ⟨[], (healthy.withLog _).healthy, WAL.holds_openWAL lastLSN, ?_, ?_,
    fun _ => rfl, fun never => absurd rfl never, ?_, ?_, ?_, ?_, ?_, ?_, ?_⟩
  · intro tx none
    cases none
  · intro tx id ref none
    cases none
  · intro tx ref lsn rest none
    cases none
  · intro tx rest none
    cases none
  · intro image never
    cases never
  · intro image never
    cases never
  · intro id image none
    cases none
  · intro newer image older split
    have lengths := congrArg List.length split
    simp [opened] at lengths
  · intro rest none
    cases none

def samplePager : DefaultPager :=
  .fresh (.ofContents Recovery.sampleFile) (Recovery.sampleMeta 1)
    DefaultPager.slotA 0 false

def sampleCommit : List Action :=
  [.beginWrite, .allocate .pageRecord, .modify 0 [.mark],
    .startCommit World.plainOrder, .appendPage, .markDirty, .appendCommit,
    .syncLog, .finishCommit World.plainOrder]

def sampleCheckpoint : List Action :=
  [.startCheckpoint [2], .flushNext, .saveMeta, .truncate]

theorem sampleCommit_run :
    Execution (Guarded Clear Step) (opened samplePager 0 .full) sampleCommit
      (performAll (opened samplePager 0 .full) sampleCommit) := by
  have room : samplePager.info.nextPageID.toNat < 2 ^ 49 := by decide
  exact .cons ⟨trivial, rfl, rfl⟩ (.cons ⟨room, trivial, rfl⟩
    (.cons ⟨trivial, ⟨rfl, 2, _, rfl, rfl⟩, rfl⟩
    (.cons ⟨trivial, rfl, rfl⟩ (.cons ⟨rfl, trivial, rfl⟩
    (.cons ⟨trivial, trivial, rfl⟩ (.cons ⟨trivial, trivial, rfl⟩
    (.cons ⟨trivial, trivial, rfl⟩ (.cons ⟨trivial, trivial, rfl⟩
      (.nil _)))))))))

theorem sampleCheckpoint_run :
    Execution (Guarded Clear Step)
      (performAll (opened samplePager 0 .full) sampleCommit) sampleCheckpoint
      (performAll (performAll (opened samplePager 0 .full) sampleCommit)
        sampleCheckpoint) := by
  have free : (performAll (opened samplePager 0 .full) sampleCommit).writer =
      none := rfl
  have flush : Clear .flushNext ((performAll (opened samplePager 0 .full)
      sampleCommit).perform (.startCheckpoint [2])) := by
    intro tx id rest running
    cases running
  exact .cons ⟨trivial, ⟨rfl, List.Perm.refl _⟩, rfl⟩
    (.cons ⟨flush, trivial, rfl⟩ (.cons ⟨trivial, trivial, rfl⟩ (.cons ⟨trivial, trivial, rfl⟩
      (.nil _))))

theorem performAll_commit_sample :
    ∃ state tx, state.writer = some tx ∧
      (performAll state (commitActions World.plainOrder tx)).manager =
        (state.manager.commit World.plainOrder [] tx).2.2 ∧
      (state.manager.commit World.plainOrder [] tx).1 = .ok () :=
  ⟨performAll (opened samplePager 0 .full) (sampleCommit.take 3), _, rfl,
    performAll_commit rfl rfl rfl _⟩

/-- The same commit while a checkpoint has already sampled the dirty pages. -/
def lostCommit : List Action :=
  .startCheckpoint [] :: sampleCommit ++ [.saveMeta, .truncate]

theorem lostCommit_run :
    Execution Step (opened samplePager 0 .full) lostCommit
      (performAll (opened samplePager 0 .full) lostCommit) :=
  .cons ⟨⟨rfl, List.Perm.refl _⟩, rfl⟩ (.cons ⟨rfl, rfl⟩
    (.cons ⟨trivial, rfl⟩ (.cons ⟨⟨rfl, 2, _, rfl, rfl⟩, rfl⟩
    (.cons ⟨rfl, rfl⟩ (.cons ⟨trivial, rfl⟩ (.cons ⟨trivial, rfl⟩
    (.cons ⟨trivial, rfl⟩ (.cons ⟨trivial, rfl⟩ (.cons ⟨trivial, rfl⟩
    (.cons ⟨trivial, rfl⟩ (.cons ⟨trivial, rfl⟩ (.nil _))))))))))))

theorem saveMeta_size {pager : DefaultPager} (formed : pager.info.WellFormed) :
    pager.syncBackend.saveMeta.backend.contents.size ≤
      max pager.backend.contents.size (2 * defaultPageSize) := by
  unfold DefaultPager.saveMeta
  split
  · exact Nat.le_max_left _ _
  · have slot := (DefaultPager.otherSlot
      pager.syncBackend.activeMetaSlot).isLt
    have length : ({ pager.syncBackend.info with
        generation := pager.syncBackend.info.generation + 1 } :
          MetaPage).encode.length = defaultPageSize :=
      MetaPage.WellFormed.encode_length ⟨formed.1, formed.2⟩
    show max pager.backend.contents.size (_ * defaultPageSize + _) ≤ _
    rw [length, ← Nat.succ_mul]
    exact max_le_max_left _ (Nat.mul_le_mul_right _ slot)

theorem lostCommit_size :
    (performAll (opened samplePager 0 .full)
      lostCommit).manager.pager.backend.contents.size ≤
        2 * defaultPageSize := by
  have formed : (performAll (opened samplePager 0 .full)
      (.startCheckpoint [] :: sampleCommit)).manager.pager.info.WellFormed :=
    ⟨(Recovery.sampleMeta_formed 1).1, (Recovery.sampleMeta_formed 1).2⟩
  have before : (performAll (opened samplePager 0 .full)
      (.startCheckpoint [] :: sampleCommit)).manager.pager.backend.contents =
        Recovery.sampleFile := rfl
  have bound := saveMeta_size formed
  rw [before, Recovery.sampleFile_size, Nat.max_self] at bound
  exact bound

end Scheduler

end CocoDB
