import CocoDB.DB.Finishing
import CocoDB.Txn.Engine

/-!
# What a finished transaction leaves behind

Every writer lock and every registered snapshot is accounted for by an open
transaction, in every state that calls can reach.  So a `Tx` has released all it
took as soon as its transactions are closed, which `Commit` does not do for the
children behind a commit that failed.
-/

namespace CocoDB.Finishing

open Lib

/-- Writer locks and snapshots belong to open transactions. -/
structure Accounted (state : State) : Prop where
  held : ∀ ref, ref < state.count → (state.txns ref).isWriterHeld = true →
    (state.txns ref).txn.isOpen = true ∧ (state.txns ref).txn.readOnly = false
  exclusive : ∀ ref other, ref < state.count → other < state.count →
    (state.txns ref).isWriterHeld = true →
    (state.txns other).isWriterHeld = true →
    (state.txns ref).db = (state.txns other).db → ref = other
  locked : ∀ id, (state.databases id).writeLock = true ↔
    ∃ ref, ref < state.count ∧ (state.txns ref).db = id ∧
      (state.txns ref).isWriterHeld = true
  registered : ∀ id snapshot,
    (state.databases id).tm.readers.count snapshot =
      (state.openAt id snapshot).card

namespace State

variable {state : State} {ref other : TxnRef} {id : DBID} {snapshot : TxnID}
variable {txn : Transaction} {tm : TxnManager}

theorem mem_openAt :
    ref ∈ state.openAt id snapshot ↔
      ref < state.count ∧ (state.txns ref).db = id ∧
        (state.txns ref).txn.isOpen = true ∧
        (state.txns ref).txn.snapshotTxn = snapshot := by
  simp only [openAt, Finset.mem_filter, Finset.mem_range]

@[simp] theorem finish_count :
    (state.finish ref txn tm).count = state.count := rfl

@[simp] theorem finish_self :
    (state.finish ref txn tm).txns ref =
      { state.txns ref with
        txn := txn
        isWriterHeld :=
          (state.txns ref).isWriterHeld && !state.unlocks ref } := by
  simp only [finish, Function.update_self]

theorem finish_other (different : other ≠ ref) :
    (state.finish ref txn tm).txns other = state.txns other := by
  simp only [finish, Function.update_of_ne different]

@[simp] theorem finish_db :
    ((state.finish ref txn tm).txns other).db = (state.txns other).db := by
  by_cases same : other = ref
  · rw [same, finish_self]
  · rw [finish_other same]

@[simp] theorem finish_database :
    (state.finish ref txn tm).databases (state.txns ref).db =
      { state.databases (state.txns ref).db with
        tm := tm
        writeLock := (state.databases (state.txns ref).db).writeLock &&
          !state.unlocks ref } := by
  simp only [finish, Function.update_self]

theorem finish_database_other (different : id ≠ (state.txns ref).db) :
    (state.finish ref txn tm).databases id = state.databases id := by
  simp only [finish, Function.update_of_ne different]

variable {readOnly fails : Bool}

@[simp] theorem opened_count :
    (state.opened id readOnly fails).count = state.count + 1 := rfl

@[simp] theorem opened_new :
    (state.opened id readOnly fails).txns state.count =
      ⟨id, ((state.databases id).tm.beginTxn fails readOnly).1,
        !readOnly⟩ := by
  simp only [opened, Function.update_self]

theorem opened_old (begun : ref < state.count) :
    (state.opened id readOnly fails).txns ref = state.txns ref := by
  simp only [opened, Function.update_of_ne (Nat.ne_of_lt begun)]

@[simp] theorem opened_database :
    (state.opened id readOnly fails).databases id =
      { state.databases id with
        tm := ((state.databases id).tm.beginTxn fails readOnly).2
        writeLock := (state.databases id).writeLock || !readOnly } := by
  simp only [opened, Function.update_self]

theorem opened_database_other {engine : DBID} (different : engine ≠ id) :
    (state.opened id readOnly fails).databases engine =
      state.databases engine := by
  simp only [opened, Function.update_of_ne different]

theorem beginTx_cases {outcome : Except Error TxnRef} {next : State}
    (begins : state.beginTx id readOnly fails = some (outcome, next)) :
    next = state ∧ outcome = .error .txnClosed ∨
      (readOnly = false → (state.databases id).writeLock = false) ∧
        next = state.opened id readOnly fails ∧ outcome = .ok state.count := by
  simp only [beginTx] at begins
  split at begins
  · cases begins
    exact .inl ⟨rfl, rfl⟩
  · split at begins
    · cases begins
    · next free =>
        cases begins
        refine .inr ⟨fun writes => ?_, rfl, rfl⟩
        simpa [writes] using free

theorem openAt_finish (closed : txn.isOpen = false) :
    (state.finish ref txn tm).openAt id snapshot =
      (state.openAt id snapshot).erase ref := by
  ext other
  rw [Finset.mem_erase, mem_openAt, mem_openAt]
  by_cases same : other = ref
  · simp [same, closed]
  · rw [finish_other same]
    simp [same]

theorem openAt_opened {engine : DBID} :
    (state.opened id readOnly fails).openAt engine snapshot =
      if engine = id ∧ ((state.databases id).tm.beginTxn fails
          readOnly).1.snapshotTxn = snapshot then
        insert state.count (state.openAt engine snapshot)
      else state.openAt engine snapshot := by
  have begins := (state.databases id).tm.beginTxn_open fails readOnly
  have new : state.count ∈ (state.opened id readOnly fails).openAt engine
        snapshot ↔
      engine = id ∧ ((state.databases id).tm.beginTxn fails
        readOnly).1.snapshotTxn = snapshot := by
    rw [mem_openAt, opened_new]
    simp only [opened_count, Nat.lt_succ_self, begins.1, true_and]
    rw [eq_comm]
  have old : ∀ ref, ref ≠ state.count →
      (ref ∈ (state.opened id readOnly fails).openAt engine snapshot ↔
        ref ∈ state.openAt engine snapshot) := by
    intro ref different
    rw [mem_openAt, mem_openAt, opened_count]
    constructor
    · rintro ⟨begun, fields⟩
      have before := Nat.lt_of_le_of_ne (Nat.le_of_lt_succ begun) different
      rw [opened_old before] at fields
      exact ⟨before, fields⟩
    · rintro ⟨begun, fields⟩
      rw [opened_old begun]
      exact ⟨Nat.lt_succ_of_lt begun, fields⟩
  have notYet : state.count ∉ state.openAt engine snapshot := fun counted =>
    Nat.lt_irrefl _ (mem_openAt.mp counted).1
  ext ref
  by_cases same : ref = state.count
  · rw [same, new]
    split <;> simp_all
  · rw [old ref same]
    split
    · rw [Finset.mem_insert, or_iff_right same]
    · rfl

end State

namespace Accounted

variable {state : State} {ref : TxnRef} {txn : Transaction} {tm : TxnManager}

theorem unlocks_iff (accounted : Accounted state) (begun : ref < state.count) :
    state.unlocks ref = (state.txns ref).isWriterHeld := by
  cases holds : (state.txns ref).isWriterHeld with
  | false => simp only [State.unlocks, holds, Bool.and_false]
  | true =>
      have lock := accounted.held ref begun holds
      simp only [State.unlocks, holds, lock.1, lock.2, Bool.not_false,
        Bool.and_true]

theorem finish_released (accounted : Accounted state)
    (begun : ref < state.count) :
    ((state.finish ref txn tm).txns ref).isWriterHeld = false := by
  rw [State.finish_self, accounted.unlocks_iff begun]
  exact Bool.and_not_self _

theorem finish (accounted : Accounted state) (begun : ref < state.count)
    (closed : txn.isOpen = false)
    (readers : tm.readers = (state.databases (state.txns ref).db).tm.readersWithout
      (state.txns ref).txn) :
    Accounted (state.finish ref txn tm) := by
  have released : ((state.finish ref txn tm).txns ref).isWriterHeld = false :=
    accounted.finish_released begun
  have heldBefore : ∀ other,
      ((state.finish ref txn tm).txns other).isWriterHeld = true →
      other ≠ ref ∧ (state.txns other).isWriterHeld = true := by
    intro other holds
    have different : other ≠ ref := by
      intro same
      rw [same, released] at holds
      cases holds
    rw [State.finish_other different] at holds
    exact ⟨different, holds⟩
  constructor
  · intro other begunOther holds
    obtain ⟨different, before⟩ := heldBefore other holds
    rw [State.finish_other different]
    exact accounted.held other begunOther before
  · intro first second firstBegun secondBegun firstHolds secondHolds same
    rw [State.finish_db, State.finish_db] at same
    exact accounted.exclusive first second firstBegun secondBegun
      (heldBefore first firstHolds).2 (heldBefore second secondHolds).2 same
  · intro id
    by_cases own : id = (state.txns ref).db
    · subst own
      rw [State.finish_database, accounted.unlocks_iff begun]
      simp only [Bool.and_eq_true, Bool.not_eq_true', accounted.locked]
      constructor
      · rintro ⟨⟨other, begunOther, same, holds⟩, notHeld⟩
        have different : other ≠ ref := by
          intro equal
          rw [equal, notHeld] at holds
          cases holds
        refine ⟨other, begunOther, ?_, ?_⟩
        · rw [State.finish_db, same]
        · rw [State.finish_other different, holds]
      · rintro ⟨other, begunOther, same, holds⟩
        obtain ⟨different, before⟩ := heldBefore other holds
        rw [State.finish_db] at same
        refine ⟨⟨other, begunOther, same, before⟩, ?_⟩
        by_contra stillHeld
        rw [Bool.not_eq_false] at stillHeld
        exact different
          (accounted.exclusive other ref begunOther begun before stillHeld same)
    · rw [State.finish_database_other own, accounted.locked]
      constructor
      · rintro ⟨other, begunOther, same, holds⟩
        have different : other ≠ ref := by
          intro equal
          exact own (by rw [← same, equal])
        refine ⟨other, begunOther, ?_, ?_⟩
        · rw [State.finish_db, same]
        · rw [State.finish_other different, holds]
      · rintro ⟨other, begunOther, same, holds⟩
        rw [State.finish_db] at same
        exact ⟨other, begunOther, same, (heldBefore other holds).2⟩
  · intro id snapshot
    rw [State.openAt_finish closed]
    by_cases own : id = (state.txns ref).db
    · subst own
      rw [State.finish_database]
      simp only [readers, TxnManager.readersWithout, ReaderTable.deregister]
      have before := accounted.registered (state.txns ref).db snapshot
      by_cases counted : ref ∈ state.openAt (state.txns ref).db snapshot
      · have fields := State.mem_openAt.mp counted
        rw [Finset.card_erase_of_mem counted, if_pos fields.2.2.1,
          List.count_erase, before, fields.2.2.2, if_pos (beq_self_eq_true _)]
      · rw [Finset.erase_eq_of_notMem counted, ← before]
        split
        · next isOpen =>
            have different : (state.txns ref).txn.snapshotTxn ≠ snapshot := by
              intro same
              exact counted (State.mem_openAt.mpr ⟨begun, rfl, isOpen, same⟩)
            exact List.count_erase_of_ne different.symm
        · rfl
    · rw [State.finish_database_other own, Finset.erase_eq_of_notMem,
        accounted.registered]
      intro counted
      exact own (State.mem_openAt.mp counted).2.1.symm

theorem opened (accounted : Accounted state) {id : DBID}
    {readOnly fails : Bool}
    (free : readOnly = false → (state.databases id).writeLock = false) :
    Accounted (state.opened id readOnly fails) := by
  have begins := (state.databases id).tm.beginTxn_open fails readOnly
  -- the new transaction has the lock alone
  have alone : readOnly = false → ∀ ref, ref < state.count →
      (state.txns ref).db = id → (state.txns ref).isWriterHeld = false := by
    intro writes ref begun same
    by_contra holds
    rw [Bool.not_eq_false] at holds
    have locked := (accounted.locked id).mpr ⟨ref, begun, same, holds⟩
    rw [free writes] at locked
    cases locked
  constructor
  · intro ref begun holds
    rcases Nat.lt_succ_iff_lt_or_eq.mp begun with old | rfl
    · rw [State.opened_old old] at holds ⊢
      exact accounted.held ref old holds
    · rw [State.opened_new] at holds ⊢
      exact ⟨begins.1, begins.2.trans (by simpa using holds)⟩
  · intro first second firstBegun secondBegun firstHolds secondHolds same
    rcases Nat.lt_succ_iff_lt_or_eq.mp firstBegun with firstOld | rfl <;>
      rcases Nat.lt_succ_iff_lt_or_eq.mp secondBegun with secondOld | rfl
    · rw [State.opened_old firstOld] at firstHolds same
      rw [State.opened_old secondOld] at secondHolds same
      exact accounted.exclusive first second firstOld secondOld firstHolds
        secondHolds same
    · rw [State.opened_old firstOld, State.opened_new] at same
      rw [State.opened_old firstOld] at firstHolds
      rw [State.opened_new] at secondHolds
      have free := alone (by simpa using secondHolds) first firstOld same
      rw [firstHolds] at free
      cases free
    · rw [State.opened_old secondOld, State.opened_new] at same
      rw [State.opened_old secondOld] at secondHolds
      rw [State.opened_new] at firstHolds
      have free := alone (by simpa using firstHolds) second secondOld same.symm
      rw [secondHolds] at free
      cases free
    · rfl
  · intro engine
    have old : (∃ ref, ref < state.count ∧ (state.txns ref).db = engine ∧
        (state.txns ref).isWriterHeld = true) →
        ∃ ref, ref < state.count + 1 ∧
          ((state.opened id readOnly fails).txns ref).db = engine ∧
          ((state.opened id readOnly fails).txns ref).isWriterHeld = true := by
      rintro ⟨ref, begun, same, holds⟩
      refine ⟨ref, Nat.lt_succ_of_lt begun, ?_, ?_⟩
      · rw [State.opened_old begun, same]
      · rw [State.opened_old begun, holds]
    by_cases own : engine = id
    · subst own
      rw [State.opened_database]
      simp only [Bool.or_eq_true, Bool.not_eq_true']
      constructor
      · rintro (taken | writes)
        · exact old ((accounted.locked engine).mp taken)
        · refine ⟨state.count, Nat.lt_succ_self _, ?_, ?_⟩
          · rw [State.opened_new]
          · rw [State.opened_new, writes]
            rfl
      · rintro ⟨ref, begun, same, holds⟩
        rcases Nat.lt_succ_iff_lt_or_eq.mp begun with before | rfl
        · rw [State.opened_old before] at same holds
          exact .inl ((accounted.locked engine).mpr ⟨ref, before, same, holds⟩)
        · rw [State.opened_new] at holds
          exact .inr (by simpa using holds)
    · rw [State.opened_database_other own, accounted.locked]
      refine ⟨old, ?_⟩
      rintro ⟨ref, begun, same, holds⟩
      rcases Nat.lt_succ_iff_lt_or_eq.mp begun with before | rfl
      · rw [State.opened_old before] at same holds
        exact ⟨ref, before, same, holds⟩
      · rw [State.opened_new] at same
        exact absurd same.symm own
  · intro engine snapshot
    rw [State.openAt_opened]
    by_cases own : engine = id
    · subst own
      rw [State.opened_database]
      simp only [TxnManager.beginTxn_readers, List.count_cons, beq_iff_eq,
        accounted.registered, true_and]
      split
      · rw [Finset.card_insert_of_notMem]
        intro counted
        exact Nat.lt_irrefl _ (State.mem_openAt.mp counted).1
      · rfl
    · rw [State.opened_database_other own, accounted.registered,
        if_neg fun both => own both.1]

theorem sameLocks (accounted : Accounted state) {next : State}
    (same : SameLocks state next) : Accounted next := by
  have sameOpen : ∀ id snapshot,
      next.openAt id snapshot = state.openAt id snapshot := by
    intro id snapshot
    ext ref
    rw [State.mem_openAt, State.mem_openAt, same.count, same.db, same.isOpen,
      same.snapshotTxn]
  constructor
  · intro ref begun holds
    rw [same.isOpen, same.readOnly]
    rw [same.count] at begun
    rw [same.isWriterHeld] at holds
    exact accounted.held ref begun holds
  · intro first second firstBegun secondBegun firstHolds secondHolds equal
    rw [same.count] at firstBegun secondBegun
    rw [same.isWriterHeld] at firstHolds secondHolds
    rw [same.db, same.db] at equal
    exact accounted.exclusive first second firstBegun secondBegun firstHolds
      secondHolds equal
  · intro id
    simp only [same.writeLock, accounted.locked, same.count, same.db,
      same.isWriterHeld]
  · intro id snapshot
    rw [same.readers, sameOpen, accounted.registered]

theorem commit (accounted : Accounted state) (env : Surroundings)
    (begun : ref < state.count) : Accounted (state.commit env ref).2 := by
  apply accounted.finish begun
  · exact congrArg Transaction.isOpen (TxnManager.commit_closed _ _ _ _)
  · exact TxnManager.commit_readers _ _ _ _

theorem rollback (accounted : Accounted state) (env : Surroundings)
    (begun : ref < state.count) : Accounted (state.rollback env ref) := by
  apply accounted.finish begun
  · exact congrArg Transaction.isOpen (TxnManager.rollback_closed _ _ _)
  · exact TxnManager.rollback_readers _ _ _

theorem start (pagers : DBID → DefaultPager) (wals : DBID → WAL)
    (modes : DBID → SyncMode) : Accounted (State.start pagers wals modes) := by
  constructor
  · intro ref begun
    exact absurd begun (Nat.not_lt_zero ref)
  · intro ref other begun
    exact absurd begun (Nat.not_lt_zero ref)
  · intro id
    refine iff_of_false Bool.false_ne_true ?_
    rintro ⟨ref, begun, _⟩
    exact absurd begun (Nat.not_lt_zero ref)
  · intro id snapshot
    rfl

theorem released_iff (accounted : Accounted state) {refs : List TxnRef}
    (begun : ∀ ref ∈ refs, ref < state.count) :
    Released refs state ↔
      ∀ ref ∈ refs, (state.txns ref).txn.isOpen = false := by
  constructor
  · intro released ref member
    exact (released.closed ref member).1
  · intro closed
    have free : ∀ ref ∈ refs, (state.txns ref).isWriterHeld = false := by
      intro ref member
      by_contra holds
      rw [Bool.not_eq_false] at holds
      have isOpen := (accounted.held ref (begun ref member) holds).1
      rw [closed ref member] at isOpen
      cases isOpen
    constructor
    · intro ref member
      exact ⟨closed ref member, free ref member⟩
    · intro id locked
      obtain ⟨ref, before, same, holds⟩ := (accounted.locked id).mp locked
      refine ⟨ref, fun member => ?_, before, same, holds⟩
      rw [free ref member] at holds
      cases holds
    · intro id snapshot
      rw [accounted.registered, Finset.filter_true_of_mem]
      intro ref counted member
      have isOpen := (State.mem_openAt.mp counted).2.2.1
      rw [closed ref member] at isOpen
      cases isOpen

end Accounted

/-- What holds of a call that is still running: its transactions are open, and
no two are on one engine. -/
structure Running (session : Session) : Prop where
  accounted : Accounted session.state
  whole : session.tx = .cleared ∨ ∃ db parent children,
    session.tx = ⟨some db, some parent, children⟩
  live : ∀ entry ∈ session.tx.entries, entry.2 < session.state.count ∧
    (session.state.txns entry.2).db = entry.1 ∧
    (session.state.txns entry.2).txn.isOpen = true
  distinct : (session.tx.entries.map Prod.fst).Nodup

namespace Running

variable {session next : Session} {action : Action}

theorem frame {state : State} (running : Running session)
    (accounted : Accounted state) (grows : session.state.count ≤ state.count)
    (kept : ∀ ref ∈ session.tx.refs, ref < session.state.count →
      (state.txns ref).db = (session.state.txns ref).db ∧
        (state.txns ref).txn.isOpen =
          (session.state.txns ref).txn.isOpen) :
    Running ⟨state, session.tx⟩ := by
  refine ⟨accounted, running.whole, ?_, running.distinct⟩
  intro entry member
  obtain ⟨begun, db, isOpen⟩ := running.live entry member
  obtain ⟨sameDB, sameOpen⟩ :=
    kept entry.2 (List.mem_map_of_mem member) begun
  exact ⟨begun.trans_le grows, sameDB.trans db, sameOpen.trans isOpen⟩

theorem opened (running : Running session) {id : DBID} {readOnly fails : Bool}
    (free : readOnly = false →
      (session.state.databases id).writeLock = false) :
    Running ⟨session.state.opened id readOnly fails, session.tx⟩ := by
  apply running.frame (running.accounted.opened free) (Nat.le_succ _)
  intro ref _ begun
  rw [State.opened_old begun]
  exact ⟨rfl, rfl⟩

theorem childTx (running : Running session) {target : DBID} {fails : Bool}
    {outcome : Except Error TxnRef}
    (opens : session.childTx target fails = some (outcome, next)) :
    Running next := by
  obtain ⟨state, tx⟩ := session
  rcases running.whole with rfl | ⟨db, parent, children, rfl⟩
  · cases opens
  simp only [Session.childTx] at opens
  split at opens
  · cases opens
    exact running
  next otherDB =>
  split at opens
  · cases opens
    exact running
  next absent =>
  split at opens
  · cases opens
  · next begins =>
      cases opens
      rcases State.beginTx_cases begins with ⟨rfl, _⟩ | ⟨_, _, failure⟩
      · exact running
      · cases failure
  · next begins =>
      cases opens
      rcases State.beginTx_cases begins with ⟨_, failure⟩ | ⟨free, rfl, done⟩
      · cases failure
      cases done
      have others := @opened _ running _ _ fails free
      refine ⟨others.accounted, .inr ⟨db, parent, _, rfl⟩, ?_, ?_⟩
      · intro entry member
        rcases List.mem_cons.mp member with rfl | inside
        · exact others.live _ (List.mem_cons_self ..)
        · rcases List.mem_cons.mp inside with rfl | older
          · refine ⟨Nat.lt_succ_self _, ?_, ?_⟩
            · rw [State.opened_new]
            · rw [State.opened_new]
              exact (TxnManager.beginTxn_open _ _ _).1
          · exact others.live entry (List.mem_cons_of_mem _ older)
      · have keys := running.distinct
        change (db :: children.map Prod.fst).Nodup at keys
        change (db :: target :: children.map Prod.fst).Nodup
        rw [List.nodup_cons] at keys
        rw [List.nodup_cons, List.nodup_cons, List.mem_cons]
        refine ⟨?_, ?_, keys.2⟩
        · rintro (same | inside)
          · exact otherDB (congrArg some same)
          · exact keys.1 inside
        · rw [List.mem_map]
          rintro ⟨entry, member, rfl⟩
          rw [List.lookup_eq_none_iff] at absent
          simpa using absent entry member

theorem step (running : Running session) (steps : Step action session next) :
    Running next := by
  cases steps with
  | beginTx begins =>
      rcases State.beginTx_cases begins with ⟨_, failure⟩ | ⟨free, rfl, done⟩
      · cases failure
      cases done
      refine ⟨running.accounted.opened free, .inr ⟨_, _, _, rfl⟩, ?_, ?_⟩
      · intro entry member
        rw [List.mem_singleton.mp member]
        refine ⟨Nat.lt_succ_self _, ?_, ?_⟩
        · rw [State.opened_new]
        · rw [State.opened_new]
          exact (TxnManager.beginTxn_open _ _ _).1
      · exact List.nodup_singleton _
  | childTx opens => exact running.childTx opens
  | work same =>
      apply running.frame (running.accounted.sameLocks same) same.count.ge
      intro ref _ _
      exact ⟨same.db ref, same.isOpen ref⟩
  | otherBegin begins =>
      rcases State.beginTx_cases begins with ⟨rfl, _⟩ | ⟨free, rfl, _⟩
      · exact running
      · exact running.opened free
  | @otherCommit env ref start tx begun notOurs =>
      apply running.frame (running.accounted.commit _ begun) (Nat.le_refl _)
      intro other member _
      have different : other ≠ ref := fun same => notOurs (same ▸ member)
      simp only [State.commit, State.finish_other different]
      exact ⟨trivial, trivial⟩
  | @otherRollback env ref start tx begun notOurs =>
      apply running.frame (running.accounted.rollback _ begun) (Nat.le_refl _)
      intro other member _
      have different : other ≠ ref := fun same => notOurs (same ▸ member)
      simp only [State.rollback, State.finish_other different]
      exact ⟨trivial, trivial⟩

theorem start (pagers : DBID → DefaultPager) (wals : DBID → WAL)
    (modes : DBID → SyncMode) :
    Running (Session.start pagers wals modes) := by
  refine ⟨Accounted.start pagers wals modes, .inl rfl, ?_, List.nodup_nil⟩
  intro entry member
  cases member

end Running

/-- The commit of one transaction, in the state before `Tx.Commit`, returns no
error. -/
def Succeeds (env : Surroundings) (state : State) (ref : TxnRef) : Prop :=
  (state.commit env ref).1 = .ok ()

instance (env : Surroundings) (state : State) (ref : TxnRef) :
    Decidable (Succeeds env state ref) :=
  match outcome : (state.commit env ref).1 with
  | .ok () => .isTrue outcome
  | .error _ => .isFalse fun done => by
      rw [Succeeds, outcome] at done
      cases done

/-- The transactions of a `Tx` in the order in which `Commit` comes to them. -/
def Tx.visited (env : Surroundings) (tx : Tx) : List TxnRef :=
  tx.internalTx.toList ++ (env.visit tx.childTxs).map Prod.snd

namespace State

variable {env : Surroundings} {state : State} {ref other : TxnRef}

theorem commit_frame
    (different : (state.txns other).db ≠ (state.txns ref).db) :
    (state.commit env ref).2.txns other = state.txns other ∧
      (state.commit env ref).2.databases (state.txns other).db =
        state.databases (state.txns other).db := by
  have others : other ≠ ref := fun same => different (by rw [same])
  exact ⟨finish_other others, finish_database_other different⟩

theorem succeeds_frame
    (different : (state.txns other).db ≠ (state.txns ref).db) :
    Succeeds env (state.commit env ref).2 other ↔ Succeeds env state other := by
  obtain ⟨sameTxn, sameDB⟩ := @commit_frame env _ _ _ different
  rw [Succeeds, Succeeds, commit, sameTxn, sameDB]
  rfl

theorem commit_closes :
    ((state.commit env ref).2.txns ref).txn.isOpen = false := by
  simp only [commit, finish_self, TxnManager.commit_closed]

theorem run_txns {refs : List TxnRef} (outside : other ∉ refs) :
    (run (commit env) refs state).2.txns other = state.txns other := by
  induction refs generalizing state with
  | nil => rfl
  | cons ref rest inductionHypothesis =>
      rw [List.mem_cons, not_or] at outside
      have first : (state.commit env ref).2.txns other = state.txns other :=
        finish_other outside.1
      unfold run
      split
      · next failed =>
          rw [failed] at first
          exact first
      · next done =>
          rw [done] at first
          rw [inductionHypothesis outside.2, first]

end State

theorem Accounted.commits {env : Surroundings} {state : State}
    (accounted : Accounted state) {refs : List TxnRef}
    (begun : ∀ ref ∈ refs, ref < state.count) :
    Accounted (run (State.commit env) refs state).2 ∧
      (run (State.commit env) refs state).2.count = state.count := by
  induction refs generalizing state with
  | nil => exact ⟨accounted, rfl⟩
  | cons ref rest inductionHypothesis =>
      have first := accounted.commit env (begun ref (List.mem_cons_self ..))
      have size : (state.commit env ref).2.count = state.count := rfl
      unfold run
      split
      · next failed =>
          rw [failed] at first size
          exact ⟨first, size⟩
      · next done =>
          rw [done] at first size
          have later := inductionHypothesis first fun other member => by
            rw [size]
            exact begun other (List.mem_cons_of_mem _ member)
          exact ⟨later.1, later.2.trans size⟩

/-- The commits stop at the first failure, so they close every transaction just
when all but the last one succeed. -/
theorem commits_close_iff {env : Surroundings} {state : State}
    {refs : List TxnRef}
    (distinct : (refs.map fun ref => (state.txns ref).db).Nodup)
    (isOpen : ∀ ref ∈ refs, (state.txns ref).txn.isOpen = true) :
    (∀ ref ∈ refs, ((run (State.commit env) refs state).2.txns
        ref).txn.isOpen = false) ↔
      ∀ ref ∈ refs.dropLast, Succeeds env state ref := by
  induction refs generalizing state with
  | nil =>
      refine iff_of_true ?_ ?_ <;> intro ref member <;> cases member
  | cons ref rest inductionHypothesis =>
      rw [List.map_cons, List.nodup_cons] at distinct
      have apart : ∀ other ∈ rest,
          (state.txns other).db ≠ (state.txns ref).db := by
        intro other member same
        exact distinct.1 (List.mem_map.mpr ⟨other, member, same⟩)
      have outside : ref ∉ rest := fun member => apart ref member rfl
      have closed := @State.commit_closes env state ref
      have frame : ∀ other ∈ rest,
          (state.commit env ref).2.txns other = state.txns other :=
        fun other member => (State.commit_frame (apart other member)).1
      by_cases success : Succeeds env state ref
      · have later := @inductionHypothesis (state.commit env ref).2
          (by
            rw [List.map_congr_left fun other member => by
              rw [frame other member]]
            exact distinct.2)
          (fun other member => by
            rw [frame other member]
            exact isOpen other (List.mem_cons_of_mem _ member))
        rw [run_cons success, List.forall_mem_cons, State.run_txns outside,
          later, and_iff_right closed]
        cases rest with
        | nil => exact iff_of_true nofun nofun
        | cons second others =>
            rw [List.dropLast_cons_cons, List.forall_mem_cons,
              and_iff_right success]
            refine forall₂_congr fun other member => ?_
            exact State.succeeds_frame
              (apart other (List.mem_of_mem_dropLast member))
      · have stopped : (run (State.commit env) (ref :: rest) state).2 =
            (state.commit env ref).2 := by
          unfold run
          split
          · next failed => rw [failed]
          · next done => exact absurd (by rw [Succeeds, done]) success
        rw [stopped]
        cases rest with
        | nil =>
            refine iff_of_true ?_ nofun
            intro other member
            rw [List.mem_singleton.mp member, closed]
        | cons second others =>
            refine iff_of_false (fun all => ?_) fun all => ?_
            · have inside : second ∈ ref :: second :: others :=
                List.mem_cons_of_mem _ (List.mem_cons_self ..)
              have shut := all second inside
              rw [frame second (List.mem_cons_self ..),
                isOpen second inside] at shut
              cases shut
            · rw [List.dropLast_cons_cons] at all
              exact success (all ref (List.mem_cons_self ..))

namespace Running

variable {session : Session}

theorem visited_perm (running : Running session) (env : Surroundings) :
    (session.tx.visited env).Perm session.tx.refs := by
  obtain ⟨state, tx⟩ := session
  have children := (env.visit_perm tx.childTxs).map Prod.snd
  rcases running.whole with rfl | ⟨db, parent, others, rfl⟩
  · exact children
  · exact children.cons parent

theorem conclude_state (running : Running session) (env later : Surroundings) :
    (session.tx.conclude env later session.state).2.2 =
      (run (State.commit env) (session.tx.visited env) session.state).2 := by
  obtain ⟨state, tx⟩ := session
  rcases running.whole with rfl | ⟨db, parent, children, rfl⟩
  · have none : env.visit [] = [] :=
      List.Perm.eq_nil (env.visit_perm [])
    simp only [Tx.conclude, Tx.commit, Tx.rollback, Tx.visited, Tx.cleared,
      none]
    rfl
  · simp only [Tx.conclude, Tx.commit, Tx.visited, Option.toList_some,
      List.singleton_append]
    rw [run]
    rcases state.commit env parent with ⟨_ | _, after⟩ <;> rfl

theorem released_iff (running : Running session) (env later : Surroundings) :
    Released session.tx.refs
        (session.tx.conclude env later session.state).2.2 ↔
      ∀ ref ∈ (session.tx.visited env).dropLast,
        Succeeds env session.state ref := by
  have visits := running.visited_perm env
  have live : ∀ ref ∈ session.tx.visited env, ref < session.state.count ∧
      (session.state.txns ref).txn.isOpen = true := by
    intro ref member
    obtain ⟨entry, inside, rfl⟩ := List.mem_map.mp (visits.subset member)
    obtain ⟨begun, _, isOpen⟩ := running.live entry inside
    exact ⟨begun, isOpen⟩
  have engines : session.tx.refs.map (fun ref => (session.state.txns ref).db) =
      session.tx.entries.map Prod.fst := by
    rw [Tx.refs, List.map_map]
    refine List.map_congr_left fun entry member => ?_
    exact (running.live entry member).2.1
  have distinct : ((session.tx.visited env).map
      fun ref => (session.state.txns ref).db).Nodup := by
    rw [(visits.map _).nodup_iff, engines]
    exact running.distinct
  have account := @Accounted.commits env _ running.accounted _
    fun ref member => (live ref member).1
  rw [running.conclude_state env later, account.1.released_iff,
    ← commits_close_iff distinct fun ref member => (live ref member).2]
  · exact forall_congr' fun ref => imp_congr_left visits.mem_iff.symm
  · intro ref member
    rw [account.2]
    exact (live ref (visits.mem_iff.mpr member)).1

end Running

theorem rollbacks_close {env : Surroundings} {state : State}
    {refs : List TxnRef} (accounted : Accounted state)
    (begun : ∀ ref ∈ refs, ref < state.count) :
    let after := refs.foldl (fun state ref => state.rollback env ref) state
    Accounted after ∧ after.count = state.count ∧
      ∀ ref, ref ∈ refs ∨ (state.txns ref).txn.isOpen = false →
        (after.txns ref).txn.isOpen = false := by
  induction refs generalizing state with
  | nil =>
      refine ⟨accounted, rfl, ?_⟩
      rintro ref (member | closed)
      · cases member
      · exact closed
  | cons first rest inductionHypothesis =>
      have next := accounted.rollback env (begun first (List.mem_cons_self ..))
      have shut : ((state.rollback env first).txns first).txn.isOpen =
          false := by
        simp only [State.rollback, State.finish_self,
          TxnManager.rollback_closed]
      obtain ⟨account, size, closes⟩ := inductionHypothesis next
        fun ref member => begun ref (List.mem_cons_of_mem _ member)
      refine ⟨account, size, fun ref known => closes ref ?_⟩
      by_cases same : ref = first
      · exact .inr (same ▸ shut)
      · rw [List.mem_cons, or_iff_right same] at known
        refine known.imp_right fun closed => ?_
        rw [State.rollback, State.finish_other same, closed]

/-- In every run, `Rollback` alone, without a commit before it, releases
everything. -/
theorem rollback_releases {pagers : DBID → DefaultPager}
    {wals : DBID → WAL} {modes : DBID → SyncMode} {actions : List Action}
    {session : Session}
    (execution : Execution Step (Session.start pagers wals modes) actions
      session) (env : Surroundings) :
    Released session.tx.refs (session.tx.rollback env session.state).2 := by
  have running := execution.invariant
    (fun running steps => running.step steps)
    (Running.start pagers wals modes)
  have visits := running.visited_perm env
  have begun : ∀ ref ∈ session.tx.visited env, ref < session.state.count := by
    intro ref member
    obtain ⟨entry, inside, rfl⟩ := List.mem_map.mp (visits.subset member)
    exact (running.live entry inside).1
  obtain ⟨account, size, closes⟩ :=
    @rollbacks_close env _ _ running.accounted begun
  have result : (session.tx.rollback env session.state).2 =
      (session.tx.visited env).foldl (fun state ref => state.rollback env ref)
        session.state := by
    obtain ⟨state, tx⟩ := session
    rcases running.whole with rfl | ⟨db, parent, children, rfl⟩
    · have none : env.visit [] = [] := List.Perm.eq_nil (env.visit_perm [])
      simp only [Tx.rollback, Tx.visited, Tx.cleared, none]
      rfl
    · rfl
  rw [result, account.released_iff]
  · exact fun ref member => closes ref (.inl (visits.mem_iff.mpr member))
  · intro ref member
    rw [size]
    exact begun ref (visits.mem_iff.mpr member)

/-- In every run, concluding a call releases everything it took just when the
commits of all its transactions but the last one visited succeed: a `Tx` that
uses one engine always does. -/
theorem concluded_releases_iff {pagers : DBID → DefaultPager}
    {wals : DBID → WAL} {modes : DBID → SyncMode} {actions : List Action}
    {session : Session}
    (execution : Execution Step (Session.start pagers wals modes) actions
      session) (env later : Surroundings) :
    Released session.tx.refs
        (session.tx.conclude env later session.state).2.2 ↔
      ∀ ref ∈ (session.tx.visited env).dropLast,
        Succeeds env session.state ref :=
  (execution.invariant (fun running steps => running.step steps)
    (Running.start pagers wals modes)).released_iff env later

section Sample

/-- Maps visited in the order of their entries, and a log that fails on the
engines `failing`. -/
def sampleSurroundings (failing : List DBID) : Surroundings where
  order _ := ⟨id, id, fun _ => .refl _, fun _ => .refl _⟩
  faults id := if id ∈ failing then [true] else []
  abortFails _ := false
  saveRoots _ := id
  visit := id
  visit_perm _ := .refl _

def sampleStart : Session :=
  .start (fun _ => Engine.samplePager)
    (fun _ => WAL.openWAL (.ofContents .empty) 0) fun _ => .normal

def sampleSession : Session where
  state := (sampleStart.state.opened 0 false false).opened 1 false false
  tx := ⟨some 0, some 0, [(1, 1)]⟩

theorem sampleSession_reached :
    Execution Step sampleStart [.beginTx 0 false false, .childTx 1 false]
      sampleSession :=
  .cons (.beginTx rfl) (.cons (.childTx rfl) (.nil _))

/-- The commits succeed, and engine 1 is free again. -/
theorem sampleSession_releases :
    Released [0, 1] (sampleSession.tx.conclude (sampleSurroundings [])
      (sampleSurroundings []) sampleSession.state).2.2 :=
  (concluded_releases_iff sampleSession_reached (sampleSurroundings [])
    (sampleSurroundings [])).mpr fun ref member => by
      rw [List.mem_singleton.mp member]
      rfl

theorem rollback_releases_sample :
    Released [0, 1] (sampleSession.tx.rollback (sampleSurroundings [0])
      sampleSession.state).2 :=
  rollback_releases sampleSession_reached _

/-- The commit on engine 0 fails, and the child keeps the lock of engine 1. -/
theorem sampleSession_leaks :
    Execution Step sampleStart [.beginTx 0 false false, .childTx 1 false]
        sampleSession ∧
      ¬ Released sampleSession.tx.refs
        (sampleSession.tx.conclude (sampleSurroundings [0])
          (sampleSurroundings []) sampleSession.state).2.2 ∧
      ((sampleSession.tx.conclude (sampleSurroundings [0])
        (sampleSurroundings []) sampleSession.state).2.2.databases
          1).writeLock = true := by
  refine ⟨sampleSession_reached, ?_, ?_⟩
  · intro released
    have closed := (released.closed 1 (by decide)).1
    cases closed
  · rfl

end Sample

end CocoDB.Finishing
