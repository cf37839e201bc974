import CocoDB.Record.Shelf
import CocoDB.Storage.Coherence
import CocoDB.Txn.CommitStatus

/-!
# Committing

`Commit` seals the pages of the transaction and gives them sequence numbers:
slots, chunks and nodes stay as they are.  Then it notes the transaction in the
meta page.
-/

namespace CocoDB.Record

open Lib LawfulPager DefaultPager BTree

section Bodies

variable {before after : DefaultPager} {cost : Nat}

theorem Frames.of_sameBody (sound : after.Sound)
    (held : ∀ {id}, before.Held id → after.Held id)
    (same : ∀ {id}, before.Held id →
      SameBody (before.pageOf id) (after.pageOf id)) : Frames before after :=
  ⟨⟨sound, held, fun known page => (same known).slotsKept page,
    fun known type => (same known).chunkKept type⟩, fun known _ => same known⟩

theorem Works.of_frames (frames : Frames before after)
    (continues : before.Continues after)
    (count : after.info.nextPageID.toNat ≤
      before.info.nextPageID.toNat + cost) : Works before after cost :=
  ⟨⟨frames.toPreserves, continues, count⟩, frames.nodes⟩

theorem works_log (sound : before.Sound) (wal : Option WAL) :
    Works before { before with walFlusher := wal } 0 :=
  .of_frames (.of_sameBody ⟨sound.pinned, sound.known, sound.distinct,
    sound.header_id, sound.below, sound.noFree⟩ (fun held => held)
    fun _ => .refl _) ⟨fun known => known, rfl⟩ (Nat.le_refl _)

theorem works_setObject {id : PageID} {ref : Nat} (sound : before.Sound)
    (object : before.objectOf id = some ref) {page : Page}
    (sameID : page.header.id = (before.heap ref).header.id)
    (same : SameBody (before.heap ref) page) :
    Works before (before.setObject ref page) 0 := by
  have named : (before.heap ref).header.id = id := by
    rw [← pageOf_object object]
    exact sound.pageOf_id (sound.held_object object)
  exact setObject_works sound object (sameID.trans named) same.slotsKept
    same.chunkKept fun _ => same

theorem works_markDirty {id : PageID} {ref : Nat} (sound : before.Sound)
    (object : before.objectOf id = some ref) :
    Works before (before.markDirty ref) 0 := by
  obtain ⟨entry, found, rfl⟩ := objectOf_eq_some.mp object
  obtain ⟨marked, info, here, others, _, held⟩ := sound.markDirty_spec found
  refine .of_frames (.of_sameBody marked (fun {other} => held other) ?_)
    (continues_markDirty _ _) (by rw [info]; exact Nat.le_refl _)
  intro other _
  by_cases same : other = id
  · rw [same, here]
    exact ⟨rfl, rfl, rfl, rfl, fun _ => rfl⟩
  · rw [others other same]
    exact .refl _

theorem sameBody_sealPage (page : Page) : SameBody page page.sealPage := by
  have header := page.sealPage_header_eq
  refine ⟨by rw [header], by rw [header], by rw [header], by rw [header],
    fun far => ?_⟩
  rw [sealPage_data_outside page (.inr far), page.writeHeader_data_outside far]

end Bodies

section Manager

variable {manager : TxnManager}

theorem works_append (sound : manager.pager.Sound) (fails : Bool)
    (record : WalRecord) :
    Works manager.pager (manager.append fails record).2.pager 0 :=
  works_log sound _

theorem syncLog_works (sound : manager.pager.Sound) (fails : Bool)
    (lastLSN : LSN) :
    Works manager.pager (manager.syncLog fails lastLSN).2.pager 0 := by
  simp only [TxnManager.syncLog]
  split
  · exact works_log sound _
  · exact works_log sound _
  · exact .refl sound

theorem logPage_works {id : PageID} {ref : Nat} (sound : manager.pager.Sound)
    (object : manager.pager.objectOf id = some ref) {page : Page}
    (sealedEq : (manager.pager.heap ref).sealPage = page) (fails : Bool)
    (record : WalRecord) :
    let logged := ((manager.setPager (manager.pager.setObject ref
      page)).append fails record).2.pager
    Works manager.pager logged 0 ∧ ∀ lsn : LSN,
      Works manager.pager ((logged.setObject ref
        { page with header := { page.header with lsn := lsn } }).markDirty
          ref) 0 := by
  intro logged
  have sealing : Works manager.pager (manager.pager.setObject ref page) 0 := by
    rw [← sealedEq]
    exact works_setObject sound object (Page.sealPage_id _)
      (sameBody_sealPage _)
  have logging : Works manager.pager logged 0 :=
    sealing.trans (@works_append (manager.setPager _) sealing.sound _ _)
  refine ⟨logging, fun lsn => ?_⟩
  have here : logged.heap ref = page := Function.update_self ..
  have objectNow := logging.continues.objects object
  have stamping := @works_setObject logged id ref logging.sound objectNow
    { page with header := { page.header with lsn := lsn } } (by rw [here])
    (by rw [here]; exact ⟨rfl, rfl, rfl, rfl, fun _ => rfl⟩)
  have marking := works_markDirty stamping.sound
    (stamping.continues.objects objectNow)
  exact (logging.trans stamping).trans marking

theorem logPages_works (txnID : TxnID) :
    ∀ {pages : List (PageID × Nat)} {faults : List Bool}
      {manager : TxnManager}, manager.pager.Sound →
      (∀ entry, entry ∈ pages →
        manager.pager.objectOf entry.1 = some entry.2) →
      Works manager.pager (manager.logPages txnID pages faults).2.pager 0
  | [], _, _, sound, _ => .refl sound
  | (id, ref) :: rest, faults, manager, sound, objects => by
      have object := objects (id, ref) (List.mem_cons_self ..)
      rw [TxnManager.logPages]
      generalize sealedEq : (manager.pager.heap ref).sealPage = page
      obtain ⟨logging, stamping⟩ := logPage_works sound object sealedEq
        (faults.headD false) (WalRecord.newPageUpdate txnID id page.image)
      rcases shape : (manager.setPager (manager.pager.setObject ref
        page)).append (faults.headD false) (WalRecord.newPageUpdate txnID id
        page.image) with ⟨outcome, after⟩
      rw [shape] at logging stamping
      simp only
      cases outcome with
      | error cause => exact logging
      | ok lsn =>
          have first := stamping lsn
          exact first.trans (@logPages_works txnID rest faults.tail
            (after.setPager _) first.sound fun entry inside =>
            first.continues.objects (objects entry
              (List.mem_cons_of_mem _ inside)))

/-- A commit that succeeds: the pages are sealed and logged, and the transaction
is noted. -/
theorem commitWrites_spec {order : MapOrder} {faults : List Bool}
    {tx : Transaction} {after : TxnManager}
    (sound : manager.pager.Sound) (engaged : Engaged manager.pager tx)
    (done : manager.commitWrites order faults tx = (.ok (), after)) :
    ∃ synced lsn, SameStatus manager synced ∧
      Works manager.pager synced.pager 0 ∧
      after = synced.noteCommit order tx.txnID lsn := by
  have paged := @TxnManager.logPages_status manager tx.txnID
    (order.pages tx.dirtyPages) faults
  have logging := @logPages_works tx.txnID (order.pages tx.dirtyPages) faults
    manager sound fun entry inside =>
      engaged.tracks ((order.pages_perm tx.dirtyPages).mem_iff.mp inside)
  unfold TxnManager.commitWrites at done
  rcases pages : manager.logPages tx.txnID (order.pages tx.dirtyPages) faults
    with ⟨outcome, logged⟩
  rw [pages] at paged logging done
  cases outcome with
  | error cause => cases done
  | ok left =>
      have marked := paged.trans (TxnManager.append_status (left.headD false)
        (WalRecord.newTxnCommit tx.txnID))
      have marking := logging.trans (@works_append logged logging.sound
        (left.headD false) (WalRecord.newTxnCommit tx.txnID))
      rcases commits : logged.append (left.headD false)
        (WalRecord.newTxnCommit tx.txnID) with ⟨outcome, recorded⟩
      simp only [commits] at marked marking done
      cases outcome with
      | error cause => cases done
      | ok commitLSN =>
          have durable := marked.trans (TxnManager.syncLog_status
            (left.tail.headD false) commitLSN)
          have syncing := marking.trans (syncLog_works marking.sound
            (left.tail.headD false) commitLSN)
          rcases syncs : recorded.syncLog (left.tail.headD false) commitLSN
            with ⟨outcome, synced⟩
          simp only [syncs] at durable syncing done
          cases outcome with
          | error cause => cases done
          | ok _ =>
              exact ⟨synced, commitLSN, durable, syncing,
                (congrArg Prod.snd done).symm⟩

theorem logPages_ok (txnID : TxnID) :
    ∀ (pages : List (PageID × Nat)) (manager : TxnManager),
      (manager.logPages txnID pages []).1 = .ok []
  | [], _ => rfl
  | _ :: rest, manager => by
      rw [TxnManager.logPages]
      exact logPages_ok txnID rest _

theorem syncLog_ok (manager : TxnManager) (lastLSN : LSN) :
    (manager.syncLog false lastLSN).1 = .ok () := by
  have flushed : (manager.wal.tryFlush false lastLSN).1 = .ok () := by
    unfold WAL.tryFlush
    split
    · rfl
    · rfl
  unfold TxnManager.syncLog
  split
  · exact flushed
  · rfl
  · rfl

theorem commit_ok {order : MapOrder} {tx : Transaction}
    (engaged : Engaged manager.pager tx) :
    ∃ closed after,
      manager.commit order [] tx = (.ok (), closed, after) := by
  have pages := logPages_ok tx.txnID (order.pages tx.dirtyPages) manager
  rcases logs : manager.logPages tx.txnID (order.pages tx.dirtyPages) [] with
    ⟨outcome, logged⟩
  rw [logs] at pages
  simp only at pages
  subst pages
  have writes : (manager.commitWrites order [] tx).1 = .ok () := by
    unfold TxnManager.commitWrites
    rw [logs]
    simp only [List.headD_nil, List.tail_nil]
    rcases appends : logged.append false (WalRecord.newTxnCommit tx.txnID) with
      ⟨outcome, recorded⟩
    cases outcome with
    | error cause => cases appends
    | ok lsn =>
        have done := syncLog_ok recorded lsn
        rcases syncs : recorded.syncLog false lsn with ⟨outcome, synced⟩
        rw [syncs] at done
        simp only at done
        subst done
        simp only [syncs]
  unfold TxnManager.commit
  rw [if_pos engaged.isOpen_eq, engaged.readOnly_eq]
  simp only [Bool.false_eq_true, if_false, writes]
  exact ⟨_, _, rfl⟩

end Manager

end CocoDB.Record
