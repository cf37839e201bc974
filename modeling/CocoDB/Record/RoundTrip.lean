import CocoDB.Record.Sessions

/-!
# Writing and reading back

A record reads back as it was written.  The other records of the transaction stay
as they are unless the identifier for the superseded version is that of one of
them: the counter starts again with every store and does not look into the
directory.
-/

namespace CocoDB.Record

open Lib LawfulPager DefaultPager BTree

def WrittenBy (tx : Transaction) (session : Session) (id : RecordID) : Prop :=
  ∃ payload, (id, (⟨tx.txnID, payload⟩ : Version)) ∈ session.log

/-- The write succeeds, its payload reads back, and the other records of the
transaction read as before. -/
def RoundTrips (session : Session) (tx : Transaction) (payload : Bytes)
    (recID : RecordID) : Prop :=
  ∃ id tracked after,
    session.store.writeRecord tx (some payload) recID =
      (.ok id, tracked, after) ∧
    (after.readRecord (some tracked) id).1.map Prod.snd = .ok payload ∧
    ∀ other, other ≠ id → WrittenBy tx session other →
      (after.readRecord (some tracked) other).1 =
        (session.store.readRecord (some tx) other).1

/-- The superseded version gets the identifier of another record of the
transaction, and that record reads differently. -/
structure Overwrites (session : Session) (tx : Transaction)
    (recID : RecordID) : Prop where
  named : recID ≠ invalidRecordID ∧ recID ≠ 0
  listed : (session.store.locate recID).1 ≠ .ok none
  other : session.store.nextID + 1 ≠ recID
  written : WrittenBy tx session (session.store.nextID + 1)
  differs : (session.store.readRecord (some tx)
      (session.store.nextID + 1)).1 ≠
    (session.store.readRecord (some tx) recID).1

theorem Shelf.write_valid {shelf : Shelf} {version : Version}
    {recID : RecordID} {nextID : UInt64} (small : nextID.toNat + 2 < 2 ^ 64) :
    (shelf.write version recID nextID).1 ≠ invalidRecordID ∧
      (shelf.write version recID nextID).1 ≠ 0 := by
  rcases Shelf.write_cases version recID nextID shelf with ⟨_, shape⟩ |
    ⟨named, _, shape⟩ | ⟨named, _, _, shape⟩
  · rw [shape]
    exact nextID_valid small
  · rw [shape]
    exact named
  · rw [shape]
    exact named

theorem Shelf.write_self {shelf : Shelf} {version : Version}
    {recID : RecordID} {nextID : UInt64} :
    ∃ prev, (shelf.write version recID nextID).2.2
        (shelf.write version recID nextID).1 =
      some ⟨(shelf.write version recID nextID).1, prev, version⟩ := by
  rcases Shelf.write_cases version recID nextID shelf with ⟨_, shape⟩ |
    ⟨_, _, shape⟩ | ⟨_, _, _, shape⟩
  · rw [shape]
    exact ⟨_, Shelf.put_self ..⟩
  · rw [shape]
    exact ⟨_, Shelf.put_self ..⟩
  · rw [shape]
    exact ⟨_, Shelf.put_self ..⟩

theorem Shelf.write_other {shelf : Shelf} {version : Version}
    {recID other : RecordID} {nextID : UInt64}
    (different : other ≠ (shelf.write version recID nextID).1) :
    (shelf.write version recID nextID).2.2 other = shelf other ∨
      (other = nextID + 1 ∧ (recID ≠ invalidRecordID ∧ recID ≠ 0) ∧
        other ≠ recID ∧ ∃ old, shelf recID = some old ∧
        (shelf.write version recID nextID).2.2 other = some old) := by
  rcases Shelf.write_cases version recID nextID shelf with ⟨_, shape⟩ |
    ⟨_, _, shape⟩ | ⟨named, old, found, shape⟩
  · rw [shape] at different ⊢
    exact .inl (Shelf.put_of_ne different)
  · rw [shape] at different ⊢
    exact .inl (Shelf.put_of_ne different)
  · rw [shape] at different ⊢
    have kept := @Shelf.put_of_ne (Function.update shelf (nextID + 1)
      (some old)) version recID other (nextID + 1) different
    by_cases same : other = nextID + 1
    · refine .inr ⟨same, named, different, old, found, kept.trans ?_⟩
      rw [same, Function.update_self]
    · exact .inl (kept.trans (Function.update_of_ne same ..))

theorem Housed.roundTrips {session : Session} {tall : Nat} {shelf : Shelf}
    (housed : Housed session tall shelf) {tx : Transaction}
    (opened : session.writer = some tx) {payload : Bytes} {recID : RecordID}
    (affords : Session.Affords (.write (some payload) recID) session) :
    RoundTrips session tx payload recID ↔ ¬ Overwrites session tx recID := by
  obtain ⟨short, roomy, small⟩ := affords
  obtain ⟨tracked, after, done, _, _, _, housedAfter⟩ :=
    housed.cap.write opened recID short (by omega)
  have before := housed.readRecord_writer opened
  have now := housedAfter.readRecord_writer rfl
  simp only at now
  constructor
  · rintro ⟨id, last, final, wrote, _, others⟩ overwrites
    obtain ⟨sameID, sameRest⟩ := Prod.mk.inj (wrote.symm.trans done)
    obtain ⟨rfl, rfl⟩ := Prod.mk.inj sameRest
    obtain rfl := Except.ok.inj sameID
    have listed := mt (Store.locate_eq_none_iff housed.holds recID).mpr
      overwrites.listed
    rcases Shelf.write_cases ⟨tx.txnID, some payload⟩ recID
      session.store.nextID shelf with ⟨unnamed, _⟩ | ⟨_, missing, _⟩ |
        ⟨named, old, found, shape⟩
    · exact unnamed overwrites.named
    · exact listed missing
    · rw [shape] at others now
      simp only at now
      have kept := others _ overwrites.other overwrites.written
      have moved : Shelf.put recID (session.store.nextID + 1)
          ⟨tx.txnID, some payload⟩ (Function.update shelf
            (session.store.nextID + 1) (some old))
          (session.store.nextID + 1) = some old := by
        rw [Shelf.put_of_ne overwrites.other, Function.update_self]
      apply overwrites.differs
      rw [← kept, now, moved, if_pos (nextID_valid small), before,
        if_pos named, found]
  · intro harmless
    refine ⟨_, tracked, after, done, ?_, ?_⟩
    · obtain ⟨prev, stands⟩ := @Shelf.write_self shelf
        ⟨tx.txnID, some payload⟩ recID session.store.nextID
      rw [now, if_pos (Shelf.write_valid small), stands]
      rfl
    · intro other different written
      rw [now, before]
      rcases Shelf.write_other different with same | ⟨rfl, named, apart, old,
        found, moved⟩
      · rw [same]
      · rw [moved]
        by_contra differs
        refine harmless ⟨named, ?_, apart, written, ?_⟩
        · intro none
          rw [(Store.locate_eq_none_iff housed.holds recID).mp none] at found
          cases found
        · intro equal
          apply differs
          rw [← before, equal, before, if_pos named, found,
            if_pos (nextID_valid small)]

def begunSession : Session :=
  (Session.opened sampleManager invalidPageID []).beginWrite false

def begunWriter : Transaction :=
  (sampleManager.beginTxn false false).1

def twoRecords : List Session.Action :=
  Session.update (some [97]) 0 ++ Session.update (some [98]) 0

def firstSession : Session :=
  (Session.performAll twoRecords
    (Session.opened sampleManager invalidPageID [])).getD
    (Session.opened sampleManager invalidPageID [])

def twoShelf : Shelf :=
  Shelf.put 1002 invalidRecordID ⟨2, some [98]⟩
    (Shelf.put 1001 invalidRecordID ⟨1, some [97]⟩ fun _ => none)

theorem firstSession_idle : Idle firstSession twoShelf 4 20 2 1002 := by
  obtain ⟨middle, first, idle, _⟩ :=
    @Idle.update _ _ _ _ _ _ _ _ (some [97]) 0 _ Session.Affords
      (sampleManager_idle []) (Shelf.write_new _ _ _ (by decide))
      (by exact (by decide : 0 + 1 < 2 ^ 64))
      ((sampleManager_idle []).affords (by decide) (by decide) (by decide))
      (fun _ => trivial) (by decide) (by decide) (by decide)
  obtain ⟨final, second, idleNow, _⟩ :=
    @Idle.update _ _ _ _ _ _ _ _ (some [98]) 0 _ Session.Affords
      idle (Shelf.write_new _ _ _ (by decide))
      (by
        show middle.store.manager.lastTxnID.toNat + 1 < 2 ^ 64
        rw [idle.last_eq]
        decide)
      (idle.affords (by decide) (by decide) (by decide))
      (fun _ => trivial) (by decide) (by decide) (by decide)
  have reached : firstSession = final := by
    unfold firstSession twoRecords
    rw [Session.performAll_eq (first.append second)]
    rfl
  rw [reached]
  exact idleNow

def reopened : Session :=
  .opened firstSession.store.manager firstSession.store.directory []

def rewriting : List Session.Action :=
  [.beginWrite false, .write (some [120]) 1002]

def rewritten : Session := (Session.performAll rewriting reopened).getD reopened

/-- The counter starts again: the old version of the second record has the
identifier of the first one. -/
def rewrittenShelf : Shelf :=
  Shelf.put 1002 1001 ⟨3, some [120]⟩
    (Function.update twoShelf 1001
      (some ⟨1002, invalidRecordID, ⟨2, some [98]⟩⟩))

theorem reopened_idle : Idle reopened twoShelf 4 20 2 1000 :=
  ⟨(firstSession_idle.housed.database firstSession_idle.closed).housed [], rfl,
    firstSession_idle.last_eq, rfl, firstSession_idle.pages_le⟩

theorem rewritten_run :
    ∃ tx, Execution (Guarded Session.Affords Session.Step) reopened rewriting
        rewritten ∧ Midway rewritten tx rewrittenShelf 6 35 3 1001 ∧
      rewritten.log = [(1002, ⟨3, some [120]⟩)] := by
  have begins : Session.Affords (.beginWrite false) reopened := by
    show reopened.store.manager.lastTxnID.toNat + 1 < 2 ^ 64
    rw [reopened_idle.last_eq]
    decide
  obtain ⟨after, tx, run, midway, log⟩ :=
    @Idle.openWrite _ _ _ _ _ _ _ _ (some [120]) 1002 _ Session.Affords
      reopened_idle (Shelf.write_again _ _ (by decide) (Shelf.put_self ..))
      begins (reopened_idle.affords (by decide) (by decide) (by decide))
      (by decide) (by decide) (by decide)
  have reached : rewritten = after := by
    unfold rewritten rewriting
    rw [Session.performAll_eq run]
    rfl
  rw [reached]
  exact ⟨tx, run, midway, log⟩

end CocoDB.Record
