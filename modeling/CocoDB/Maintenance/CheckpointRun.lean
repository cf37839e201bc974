import CocoDB.Maintenance.Checkpoint

/-!
# The steps of the scheduler

Every step that meets the condition keeps the invariant: the steps of a write
transaction, those of its commit, and those of a checkpoint.
-/

namespace CocoDB

open Lib

namespace Scheduler

section Fields

variable {records : List WalRecord} {state : Scheduler}

/-! ## One field at a time -/

theorem Safe.withWriter (safe : Safe records state)
    (notCommitting : state.commit = .idle) {writer : Option Transaction}
    (writing : ∀ {tx}, writer = some tx →
      tx.readOnly = false ∧ tx.isOpen = true)
    (tracked : ∀ {tx id ref}, writer = some tx →
      (id, ref) ∈ tx.dirtyPages →
      ∃ entry, state.manager.pager.cache.find id = some entry ∧
        entry.page = ref)
    (grows : ∀ {id}, state.Tracked id →
      ∃ tx ref, writer = some tx ∧ (id, ref) ∈ tx.dirtyPages) :
    Safe records { state with writer := writer } := by
  have nothing := safe.idle notCommitting
  refine ⟨safe.healthy, safe.holds, writing, tracked, safe.idle, ?_, ?_, ?_,
    ?_, ?_, ?_, safe.kept, safe.remaining⟩
  · intro committing
    exact absurd notCommitting committing
  · intro tx ref lsn rest _ phase
    have clash := notCommitting.symm.trans phase
    cases clash
  · intro tx rest _ phase
    have clash : CommitPhase.pending state.commit = some rest := phase
    rw [notCommitting] at clash
    cases clash
  · intro image member
    have clash : image ∈ state.logged := member
    rw [nothing] at clash
    cases clash
  · intro image member
    have clash : image ∈ state.logged := member
    rw [nothing] at clash
    cases clash
  · intro id image last
    obtain ⟨entry, found, stored, content⟩ := safe.history last
    refine ⟨entry, found, stored, fun untracked => content fun changed => ?_⟩
    exact untracked (grows changed)

theorem Safe.withCommit (safe : Safe records state) {phase : CommitPhase}
    (present : state.writer ≠ none) (committing : phase ≠ .idle)
    (stamping : ∀ {tx ref lsn rest}, state.writer = some tx →
      phase = .stamping ref lsn rest → ∃ id, (id, ref) ∈ tx.dirtyPages)
    (pending : ∀ {tx rest}, state.writer = some tx →
      CommitPhase.pending phase = some rest →
      (∀ entry, entry ∈ rest → entry ∈ tx.dirtyPages) ∧
      ∀ entry, entry ∈ tx.dirtyPages →
        entry ∈ rest ∨ ∃ image, image ∈ state.logged ∧ image.id = entry.1)
    (recorded : CommitPhase.Recorded phase → ∀ {image},
      image ∈ state.logged → OnFile state.manager.pager image ∨
        HasCommit records image.txnID) :
    Safe records { state with commit := phase } := by
  refine ⟨safe.healthy, safe.holds, safe.writing, safe.tracked,
    fun idle => absurd idle committing, fun _ => present, stamping, pending,
    safe.logged, ?_, safe.history, safe.kept, safe.remaining⟩
  intro image member
  rcases safe.safely member with stored | ⟨update, _⟩
  · exact .inl stored
  · by_cases isRecorded : CommitPhase.Recorded phase
    · exact (recorded isRecorded member).imp_right fun committed =>
        ⟨update, fun _ => committed⟩
    · exact .inr ⟨update, fun never => absurd never isRecorded⟩

theorem Safe.withImage (safe : Safe records state) {tx : Transaction}
    {id : PageID} {ref : Nat} {lsn : LSN} {rest : List (PageID × Nat)}
    {image : PageImage} (running : state.writer = some tx)
    (phase : state.commit = .logging ((id, ref) :: rest))
    (noCheckpoint : state.checkpoint = .idle)
    (sameTxn : image.txnID = tx.txnID) (sameID : image.id = id)
    (content : (state.manager.pager.heap ref).content =
      pageContent image.bytes)
    (update : HasUpdate records image) :
    Safe records { state with
      commit := .stamping ref lsn rest, logged := image :: state.logged } := by
  obtain ⟨known, covers⟩ := safe.pending running (by rw [phase]; rfl)
  have member := known (id, ref) List.mem_cons_self
  refine ⟨safe.healthy, safe.holds, safe.writing, safe.tracked, ?_, ?_, ?_, ?_,
    ?_, ?_, safe.history, safe.kept, ?_⟩
  · intro idle
    cases idle
  · intro _ none
    rw [running] at none
    cases none
  · intro other ref' lsn' rest' same stamping
    obtain ⟨rfl, _, _⟩ := CommitPhase.stamping.inj stamping
    rw [running] at same
    exact ⟨id, Option.some.inj same ▸ member⟩
  · intro other rest' same left
    rw [running] at same
    rw [← Option.some.inj same]
    rw [← Option.some.inj left]
    refine ⟨fun entry inside => known entry (List.mem_cons_of_mem _ inside),
      ?_⟩
    intro entry inside
    rcases covers entry inside with waiting | ⟨other, logged, sameOther⟩
    · rcases List.mem_cons.mp waiting with rfl | later
      · exact .inr ⟨image, List.mem_cons_self, sameID⟩
      · exact .inl later
    · exact .inr ⟨other, List.mem_cons_of_mem _ logged, sameOther⟩
  · intro other inside
    rcases List.mem_cons.mp inside with rfl | old
    · exact ⟨tx, ref, running, sameTxn, by rw [sameID]; exact member, content⟩
    · exact safe.logged old
  · intro other inside
    rcases List.mem_cons.mp inside with rfl | old
    · exact .inr ⟨update, fun never => never.elim⟩
    · exact (safe.safely old).imp_right fun logged =>
        ⟨logged.1, fun never => never.elim⟩
  · intro rest' remains
    have clash : CheckpointPhase.remaining state.checkpoint = some rest' :=
      remains
    rw [noCheckpoint] at clash
    cases clash

theorem Safe.withCheckpoint (safe : Safe records state)
    {phase : CheckpointPhase}
    (remaining : ∀ {rest}, CheckpointPhase.remaining phase = some rest →
      (∀ {id image}, lastImage state.committed id = some image →
        OnFile state.manager.pager image ∨ id ∈ rest) ∧
      ∀ image, image ∈ state.logged →
        OnFile state.manager.pager image ∨ image.id ∈ rest) :
    Safe records { state with checkpoint := phase } :=
  ⟨safe.healthy, safe.holds, safe.writing, safe.tracked, safe.idle, safe.busy,
    safe.stamping, safe.pending, safe.logged, safe.safely, safe.history,
    safe.kept, remaining⟩

theorem Safe.returned (safe : Safe records state) {tx : Transaction}
    {lsn : LSN} (running : state.writer = some tx)
    (phase : state.commit = .returning lsn) :
    Safe records { state with
      writer := none, commit := .idle, logged := []
      committed := state.logged ++ state.committed } := by
  obtain ⟨_, covers⟩ := safe.pending running (by rw [phase]; rfl)
  have secure : ∀ {image}, image ∈ state.logged →
      OnFile state.manager.pager image ∨
      (HasUpdate records image ∧ HasCommit records image.txnID) := by
    intro image member
    exact (safe.safely member).imp_right fun logged =>
      ⟨logged.1, logged.2 (by rw [phase]; trivial)⟩
  -- the last image of a page is one of this commit, or what it was before
  have lasts : ∀ {id image},
      lastImage (state.logged ++ state.committed) id = some image →
      (image ∈ state.logged ∧ image.id = id) ∨
      (¬ state.Tracked id ∧ lastImage state.committed id = some image) := by
    intro id image last
    have sameID := lastImage_id last
    unfold lastImage at last
    rw [List.find?_append] at last
    cases found : state.logged.find? fun other => other.id = id with
    | some other =>
        rw [found, Option.some_or] at last
        rw [← Option.some.inj last] at sameID ⊢
        exact .inl ⟨List.mem_of_find?_eq_some found, sameID⟩
    | none =>
        rw [found, Option.none_or] at last
        refine .inr ⟨?_, last⟩
        rintro ⟨other, ref, same, member⟩
        rw [running] at same
        rw [← Option.some.inj same] at member
        rcases covers (id, ref) member with never | ⟨image', logged, sameID'⟩
        · cases never
        · have missing := List.find?_eq_none.mp found image' logged
          simp [sameID'] at missing
  refine ⟨safe.healthy, safe.holds, fun none => (nomatch none),
    fun none => (nomatch none), fun _ => rfl, fun never => absurd rfl never,
    fun none => (nomatch none), fun none => (nomatch none),
    fun never => (nomatch never), fun never => (nomatch never), ?_, ?_, ?_⟩
  · intro id image last
    rcases lasts last with ⟨member, sameID⟩ | ⟨untracked, before⟩
    · obtain ⟨other, ref, same, _, dirty, content⟩ := safe.logged member
      obtain ⟨entry, found, samePage⟩ := safe.tracked same dirty
      rw [← samePage] at content
      refine ⟨entry, sameID ▸ found, ?_, fun _ => content⟩
      by_cases marked : (state.manager.pager.heap entry.page).dirty = true
      · exact .inl marked
      · have stored := safe.healthy.clean found (Bool.eq_false_iff.mpr marked)
        rw [content] at stored
        exact .inr stored
    · obtain ⟨entry, found, stored, content⟩ := safe.history before
      exact ⟨entry, found, stored, fun _ => content untracked⟩
  · intro newer image older split
    rcases List.append_eq_append_iff.mp split with
      ⟨front, newerEq, oldEq⟩ | ⟨back, loggedEq, restEq⟩
    · rcases safe.kept front image older oldEq with
        ⟨there, member, sameID, stored⟩ | logged
      · refine .inl ⟨there, ?_, sameID, stored⟩
        rw [newerEq, List.append_assoc]
        exact List.mem_append_right _ member
      · exact .inr logged
    · cases back with
      | nil =>
          rw [List.nil_append] at restEq
          rcases safe.kept [] image older restEq.symm with
            ⟨there, member, sameID, stored⟩ | logged
          · rw [List.nil_append] at member
            exact .inl ⟨there, List.mem_append_right _ member, sameID, stored⟩
          · exact .inr logged
      | cons first back =>
          rw [List.cons_append] at restEq
          obtain ⟨rfl, _⟩ := List.cons.inj restEq
          have member : image ∈ state.logged := by
            rw [loggedEq]
            exact List.mem_append_right _ List.mem_cons_self
          refine (secure member).imp_left fun stored => ?_
          exact ⟨image, List.mem_append_right _ List.mem_cons_self, rfl,
            stored⟩
  · intro rest remains
    obtain ⟨files, images⟩ := safe.remaining remains
    refine ⟨?_, fun image never => (nomatch never)⟩
    intro id image last
    rcases lasts last with ⟨member, sameID⟩ | ⟨_, before⟩
    · exact sameID ▸ images image member
    · exact files before

theorem Safe.truncated (safe : Safe records state)
    (phase : state.checkpoint = .truncating) :
    Safe [] { state with
      manager := state.manager.setWAL state.manager.wal.truncate
      checkpoint := .idle } := by
  obtain ⟨files, images⟩ := safe.remaining (by rw [phase]; rfl)
  have stored : ∀ {id image}, lastImage state.committed id = some image →
      OnFile state.manager.pager image := by
    intro id image last
    rcases files last with stored | never
    · exact stored
    · cases never
  have onFile : ∀ {image}, image ∈ state.logged →
      OnFile state.manager.pager image := by
    intro image member
    rcases images image member with stored | never
    · exact stored
    · cases never
  have quiet := safe.healthy.withLog (some state.manager.wal.truncate)
  refine ⟨quiet.healthy, WAL.holds_truncate _, safe.writing, safe.tracked,
    safe.idle, safe.busy, safe.stamping, safe.pending, safe.logged,
    fun member => .inl (onFile member), safe.history, ?_,
    fun never => (nomatch never)⟩
  intro newer image older split
  obtain ⟨last, _, isLast, member, _⟩ := safe.cached split
  exact .inl ⟨last, member, lastImage_id isLast, stored isLast⟩

end Fields

section Steps

variable {records : List WalRecord} {state : Scheduler}

/-! ## The write transaction -/

theorem Safe.beginWrite (safe : Safe records state)
    (free : state.writer = none) :
    ∃ more, Safe more (state.perform .beginWrite) := by
  have notCommitting : state.commit = .idle := by
    by_contra committing
    exact safe.busy committing free
  have short : (WalRecord.marker .txnBegin
      (state.manager.lastTxnID + 1)).payload.length < 2 ^ 32 :=
    Nat.two_pow_pos 32
  have begun := safe.append short (state.manager.beginTxn false false).2 rfl
  refine ⟨_, begun.withWriter notCommitting ?_ ?_ ?_⟩
  · rintro tx ⟨⟩
    exact ⟨rfl, rfl⟩
  · rintro tx id ref ⟨⟩ member
    cases member
  · rintro id ⟨tx, ref, running, _⟩
    have clash := free.symm.trans running
    cases clash

theorem Safe.rollback (safe : Safe records state)
    (notCommitting : state.commit = .idle)
    (unchanged : ∀ tx, state.writer = some tx → tx.dirtyPages = []) :
    ∃ more, Safe more (state.perform .rollback) := by
  cases running : state.writer with
  | none =>
      simp only [perform, running]
      exact ⟨records, safe⟩
  | some tx =>
      simp only [perform, running]
      obtain ⟨writes, isOpen⟩ := safe.writing running
      have nothing := unchanged tx running
      have pager : (state.manager.rollback false tx).2.pager =
          { state.manager.pager with
            walFlusher := some (state.manager.wal.append
              (WalRecord.newTxnAbort tx.txnID)).2 } := by
        simp only [TxnManager.rollback, isOpen, writes, nothing, if_true]
        rfl
      have short : (WalRecord.newTxnAbort tx.txnID).payload.length < 2 ^ 32 :=
        Nat.two_pow_pos 32
      have aborted := safe.append short (state.manager.rollback false tx).2
        pager
      refine ⟨_, aborted.withWriter notCommitting ?_ ?_ ?_⟩
      · intro other none
        cases none
      · intro other id ref none
        cases none
      · rintro id ⟨other, ref, same, member⟩
        have known := unchanged other same
        rw [known] at member
        cases member

theorem walFlusher_markDirty (ref : Nat) (pager : DefaultPager) :
    (pager.markDirty ref).walFlusher = pager.walFlusher := by
  unfold DefaultPager.markDirty
  simp only
  split <;> rfl

theorem walFlusher_get (id : PageID) (pager : DefaultPager) :
    (pager.get id).2.walFlusher = pager.walFlusher := by
  unfold DefaultPager.get
  split
  · rfl
  · split
    · rfl
    · simp only
      split <;> rfl

theorem walFlusher_allocate {pager : DefaultPager}
    (noFree : pager.info.freeListRoot = invalidPageID) (type : PageType) :
    (pager.allocate type).2.walFlusher = pager.walFlusher := by
  unfold DefaultPager.allocate
  rw [if_pos noFree]
  exact walFlusher_markDirty _ _

theorem wal_setPager {manager : TxnManager} {pager : DefaultPager}
    (same : pager.walFlusher = manager.pager.walFlusher) :
    (manager.setPager pager).wal = manager.wal := by
  unfold TxnManager.wal TxnManager.setPager
  rw [same]

theorem edit_header (edit : PageEdit) (page : Page) :
    (edit.apply page).header.id = page.header.id ∧
      (edit.apply page).header.lsn = page.header.lsn := by
  cases edit <;> exact ⟨rfl, rfl⟩

theorem edited_header (ref : Nat) (edits : List PageEdit)
    (pager : DefaultPager) :
    (edited ref edits pager).header.id = (pager.heap ref).header.id ∧
      (edited ref edits pager).header.lsn = (pager.heap ref).header.lsn := by
  unfold edited
  generalize pager.heap ref = page
  induction edits generalizing page with
  | nil => exact ⟨rfl, rfl⟩
  | cons edit rest inductionHypothesis =>
      obtain ⟨ids, numbers⟩ := inductionHypothesis (edit.apply page)
      obtain ⟨sameID, sameLSN⟩ := edit_header edit page
      exact ⟨ids.trans sameID, numbers.trans sameLSN⟩

theorem trackDirty_open {tx : Transaction} {ref : Nat} {pager : DefaultPager}
    {id : PageID} (writes : tx.readOnly = false) (isOpen : tx.isOpen = true)
    (headerID : (pager.heap ref).header.id = id) :
    tx.trackDirty ref pager =
      .ok { tx with
        dirtyPages := Transaction.insertPage id ref tx.dirtyPages } := by
  rw [Transaction.trackDirty, if_neg (by rw [writes]; decide), if_pos isOpen,
    headerID]

theorem Safe.track (safe : Safe records state) {ref : Nat} {tx : Transaction}
    (running : state.writer = some tx) (notCommitting : state.commit = .idle)
    {id : PageID} {entry : CacheEntry}
    (found : state.manager.pager.cache.find id = some entry)
    (samePage : entry.page = ref) : Safe records (state.track ref tx) := by
  subst samePage
  obtain ⟨writes, isOpen⟩ := safe.writing running
  have tracks := trackDirty_open writes isOpen
    (safe.healthy.sound.header_id found)
  simp only [Scheduler.track, tracks]
  refine safe.withWriter notCommitting ?_ ?_ ?_
  · rintro other ⟨⟩
    exact ⟨writes, isOpen⟩
  · rintro other id' ref' ⟨⟩ member
    rcases List.mem_cons.mp member with here | old
    · obtain ⟨rfl, rfl⟩ := Prod.mk.inj here
      exact ⟨entry, found, rfl⟩
    · exact safe.tracked running (List.mem_filter.mp old).1
  · rintro id' ⟨other, ref', same, member⟩
    rw [running] at same
    rw [← Option.some.inj same] at member
    by_cases here : id' = id
    · exact ⟨_, entry.page, rfl, List.mem_cons.mpr (.inl (by rw [here]))⟩
    · refine ⟨_, ref', rfl, List.mem_cons_of_mem _ ?_⟩
      exact List.mem_filter.mpr ⟨member, by simpa using here⟩

theorem Safe.modify (safe : Safe records state) {ref : Nat} {tx : Transaction}
    (edits : List PageEdit) (running : state.writer = some tx)
    (notCommitting : state.commit = .idle) {id : PageID} {entry : CacheEntry}
    (found : state.manager.pager.cache.find id = some entry)
    (samePage : entry.page = ref) :
    Safe records (state.modify ref edits tx) := by
  have first := safe.track running notCommitting found samePage
  subst samePage
  obtain ⟨writes, isOpen⟩ := safe.writing running
  have sameID := safe.healthy.sound.header_id found
  obtain ⟨pageID, _⟩ := edited_header entry.page edits state.manager.pager
  rw [sameID] at pageID
  let changed : Page :=
    { edited entry.page edits state.manager.pager with dirty := true }
  have own : (state.manager.pager.setObject entry.page changed).heap
      entry.page = changed := Function.update_self _ _ _
  -- the transaction tracks the same page before and after the change
  have before := trackDirty_open writes isOpen sameID
  have after : tx.trackDirty entry.page
      (state.manager.pager.setObject entry.page changed) =
      .ok { tx with
        dirtyPages :=
          Transaction.insertPage id entry.page tx.dirtyPages } :=
    trackDirty_open writes isOpen (by rw [own]; exact pageID)
  have evolves : Evolves (fun other => other = id) (fun _ => False)
      state.manager.pager
      (state.manager.pager.setObject entry.page changed) := by
    refine safe.healthy.setObject found ?_ (fun other => absurd rfl other)
      (fun _ _ => rfl) fun unmarked => (nomatch unmarked)
    exact pageID
  simp only [Scheduler.track, before] at first
  have result : state.modify entry.page edits tx =
      { state.withPager (state.manager.pager.setObject entry.page changed) with
        writer := some { tx with
          dirtyPages :=
            Transaction.insertPage id entry.page tx.dirtyPages } } := by
    simp only [Scheduler.modify, Scheduler.track, withPager,
      TxnManager.setPager, changed, after]
  rw [result]
  refine first.evolve (state.manager.setPager _) evolves safe.holds
    (fun _ member => member) ?_ fun _ never => never.elim
  rintro other rfl
  exact ⟨⟨_, entry.page, rfl, List.mem_cons_self⟩, notCommitting⟩

/-! ## The steps of a commit -/

theorem Safe.startCommit (safe : Safe records state) (order : MapOrder) :
    Safe records (state.perform (.startCommit order)) := by
  cases running : state.writer with
  | none =>
      simp only [perform, running]
      exact safe
  | some tx =>
      have step : state.perform (.startCommit order) =
          { state with commit := .logging (order.pages tx.dirtyPages) } := by
        simp only [perform, running]
      rw [step]
      have perm := order.pages_perm tx.dirtyPages
      refine safe.withCommit ?_ ?_ ?_ ?_ ?_
      · rw [running]
        exact Option.some_ne_none tx
      · intro idle
        cases idle
      · intro other ref lsn rest _ phase
        cases phase
      · intro other rest same phase
        rw [running] at same
        rw [← Option.some.inj same, ← Option.some.inj phase]
        exact ⟨fun entry inside => perm.mem_iff.mp inside,
          fun entry inside => .inl (perm.mem_iff.mpr inside)⟩
      · intro isRecorded
        cases isRecorded

theorem Safe.logPage (safe : Safe records state) {tx : Transaction}
    {id : PageID} {ref : Nat} {rest : List (PageID × Nat)}
    (running : state.writer = some tx)
    (phase : state.commit = .logging ((id, ref) :: rest))
    (noCheckpoint : state.checkpoint = .idle) :
    ∃ more, Safe more (state.appendPage tx id ref rest) := by
  obtain ⟨known, _⟩ := safe.pending running (by rw [phase]; rfl)
  obtain ⟨entry, found, samePage⟩ :=
    safe.tracked running (known (id, ref) List.mem_cons_self)
  subst samePage
  have sameID := safe.healthy.sound.header_id found
  have sealedID := Page.sealPage_id (state.manager.pager.heap entry.page)
  have kept := Page.content_sealPage (state.manager.pager.heap entry.page)
  have image := Page.pageContent_sealPage
    (state.manager.pager.heap entry.page)
  have dirty := Page.sealPage_dirty (state.manager.pager.heap entry.page)
  unfold Scheduler.appendPage
  generalize (state.manager.pager.heap entry.page).sealPage = sealed at *
  rw [sameID] at sealedID
  have stored : Safe records
      (state.withPager (state.manager.pager.setObject entry.page sealed)) :=
    safe.quiet _ (safe.healthy.setObject found sealedID (fun _ => kept)
      (fun _ old => dirty.trans old) fun unmarked => by
        rw [kept]
        exact safe.healthy.clean found (dirty.symm.trans unmarked)) rfl
  have own : (state.manager.pager.setObject entry.page sealed).heap
      entry.page = sealed := Function.update_self _ _ _
  have short : (WalRecord.newPageUpdate tx.txnID id
      sealed.image).payload.length < 2 ^ 32 := by
    show (be 8 id.toNat ++ sealed.image).length < 2 ^ 32
    rw [List.length_append, be_length, Page.image, Buf.read_length]
    decide
  have logged := stored.append short
    ((state.withPager (state.manager.pager.setObject entry.page
      sealed)).manager.setWAL _) rfl
  refine ⟨_, logged.withImage running phase noCheckpoint rfl rfl ?_ ?_⟩
  · exact (congrArg Page.content own).trans (kept.trans image.symm)
  · rw [WalRecord.received_newPageUpdate]
    exact ⟨_, List.mem_append_right _ List.mem_cons_self, rfl, rfl, rfl, rfl⟩

theorem Safe.appendPage (safe : Safe records state)
    (noCheckpoint : state.checkpoint = .idle) :
    ∃ more, Safe more (state.perform .appendPage) := by
  cases running : state.writer with
  | none =>
      simp only [perform, running]
      exact ⟨records, safe⟩
  | some tx =>
      cases phase : state.commit with
      | logging pages =>
          cases pages with
          | nil =>
              simp only [perform, running, phase]
              exact ⟨records, safe⟩
          | cons page rest =>
              obtain ⟨id, ref⟩ := page
              simp only [perform, running, phase]
              exact safe.logPage running phase noCheckpoint
      | _ =>
          simp only [perform, running, phase]
          exact ⟨records, safe⟩

theorem Safe.nextPhase (safe : Safe records state) {tx : Transaction}
    {phase : CommitPhase} {rest : List (PageID × Nat)}
    (running : state.writer = some tx)
    (before : CommitPhase.pending state.commit = some rest)
    (next : CommitPhase.pending phase = some rest)
    (notStamping : ∀ ref lsn rest, phase ≠ .stamping ref lsn rest)
    (recorded : CommitPhase.Recorded phase → ∀ {image},
      image ∈ state.logged → OnFile state.manager.pager image ∨
        HasCommit records image.txnID) :
    Safe records { state with commit := phase } := by
  refine safe.withCommit ?_ ?_ ?_ ?_ recorded
  · rw [running]
    exact Option.some_ne_none tx
  · rintro rfl
    cases next
  · intro other ref lsn left _ stamping
    exact absurd stamping (notStamping ref lsn left)
  · intro other left same pending
    rw [next] at pending
    rw [← Option.some.inj pending]
    exact safe.pending same before

theorem Safe.markDirty (safe : Safe records state) :
    Safe records (state.perform .markDirty) := by
  cases phase : state.commit with
  | stamping ref lsn rest =>
      simp only [perform, phase]
      have committing : state.commit ≠ .idle := by
        rw [phase]
        exact CommitPhase.noConfusion
      obtain ⟨tx, running⟩ :=
        Option.ne_none_iff_exists'.mp (safe.busy committing)
      obtain ⟨id, member⟩ := safe.stamping running phase
      obtain ⟨entry, found, samePage⟩ := safe.tracked running member
      subst samePage
      have sameID := safe.healthy.sound.header_id found
      let stamped : Page :=
        { state.manager.pager.heap entry.page with
          header := { (state.manager.pager.heap entry.page).header with
            lsn := lsn } }
      have stored : Quiet state.manager.pager
          (state.manager.pager.setObject entry.page stamped) := by
        have content : stamped.content =
            (state.manager.pager.heap entry.page).content :=
          Page.content_stamped _ _ _
        refine safe.healthy.setObject found ?_ (fun _ => content)
          (fun _ old => old) fun unmarked => ?_
        · exact sameID
        · rw [content]
          exact safe.healthy.clean found unmarked
      have foundAfter : (state.manager.pager.setObject entry.page
          stamped).cache.find id = some entry := found
      have quiet := stored.trans (stored.healthy.markDirty foundAfter).1
      have safeAfter : Safe records (state.withPager
          ((state.manager.pager.setObject entry.page stamped).markDirty
            entry.page)) :=
        safe.quiet _ quiet (wal_setPager (walFlusher_markDirty _ _))
      refine safeAfter.nextPhase running ?_ rfl ?_ ?_
      · show CommitPhase.pending state.commit = _
        rw [phase]
        rfl
      · intro ref' lsn' rest' stamping
        cases stamping
      · intro isRecorded
        cases isRecorded
  | _ =>
      simp only [perform, phase]
      exact safe

theorem Safe.recordCommit (safe : Safe records state) {tx : Transaction}
    (running : state.writer = some tx) (phase : state.commit = .logging []) :
    ∃ more, Safe more (state.appendCommit tx) := by
  have short : (WalRecord.newTxnCommit tx.txnID).payload.length < 2 ^ 32 :=
    Nat.two_pow_pos 32
  have logged := safe.append short (state.manager.setWAL _) rfl
  refine ⟨_, logged.nextPhase running ?_ rfl ?_ ?_⟩
  · show CommitPhase.pending state.commit = _
    rw [phase]
    rfl
  · intro ref lsn rest stamping
    cases stamping
  · intro _ image member
    obtain ⟨other, _, same, sameTxn, _⟩ := safe.logged member
    rw [running] at same
    rw [sameTxn, ← Option.some.inj same, WalRecord.received_newTxnCommit]
    exact .inr ⟨_, List.mem_append_right _ List.mem_cons_self, rfl, rfl⟩

theorem Safe.appendCommit (safe : Safe records state) :
    ∃ more, Safe more (state.perform .appendCommit) := by
  cases running : state.writer with
  | none =>
      simp only [perform, running]
      exact ⟨records, safe⟩
  | some tx =>
      cases phase : state.commit with
      | logging pages =>
          cases pages with
          | nil =>
              simp only [perform, running, phase]
              exact safe.recordCommit running phase
          | cons page rest =>
              simp only [perform, running, phase]
              exact ⟨records, safe⟩
      | _ =>
          simp only [perform, running, phase]
          exact ⟨records, safe⟩

theorem holds_sync {wal : WAL} (holds : wal.Holds records) (target : LSN) :
    (wal.tryFlush false target).2.Holds records ∧
      (wal.trySync false).2.Holds records ∧
      (wal.flush target).Holds records := by
  have synced : wal.sync.Holds records :=
    ⟨holds.proper, holds.size_eq, holds.bytes_eq⟩
  refine ⟨?_, synced, ?_⟩
  · unfold WAL.tryFlush
    split
    · exact holds
    · exact synced
  · unfold WAL.flush
    split
    · exact holds
    · exact synced

theorem Safe.syncLog (safe : Safe records state) :
    Safe records (state.perform .syncLog) := by
  cases phase : state.commit with
  | syncing lsn =>
      simp only [perform, phase]
      have committing : state.commit ≠ .idle := by
        rw [phase]
        exact CommitPhase.noConfusion
      obtain ⟨tx, running⟩ :=
        Option.ne_none_iff_exists'.mp (safe.busy committing)
      obtain ⟨flushed, synced, _⟩ := holds_sync safe.holds lsn
      have withLog : ∀ wal : WAL, wal.Holds records →
          Safe records
            { state with manager := state.manager.setWAL wal } := by
        intro wal holds
        refine safe.evolve _ (safe.healthy.withLog (some wal)) holds
          (fun _ member => member) (fun _ never => ?_) fun _ never => ?_
        · cases never
        · cases never
      have safeAfter : Safe records
          { state with manager := (state.manager.syncLog false lsn).2 } := by
        cases mode : state.manager.syncMode with
        | full =>
            simp only [TxnManager.syncLog, mode]
            exact withLog _ flushed
        | normal =>
            simp only [TxnManager.syncLog, mode]
            exact withLog _ synced
        | off =>
            simp only [TxnManager.syncLog, mode]
            exact safe
      refine safeAfter.nextPhase running ?_ rfl ?_ ?_
      · show CommitPhase.pending state.commit = _
        rw [phase]
        rfl
      · intro ref' lsn' rest' stamping
        cases stamping
      · intro _ image member
        exact (safeAfter.safely member).imp_right fun logged =>
          logged.2 (by
            show CommitPhase.Recorded state.commit
            rw [phase]
            trivial)
  | _ =>
      simp only [perform, phase]
      exact safe

theorem Safe.finishCommit (safe : Safe records state) (order : MapOrder) :
    Safe records (state.perform (.finishCommit order)) := by
  cases running : state.writer with
  | none =>
      simp only [perform, running]
      exact safe
  | some tx =>
      cases phase : state.commit with
      | returning lsn =>
          simp only [perform, running, phase]
          have healthy := safe.healthy
          have sound := healthy.sound
          have quiet : Quiet state.manager.pager
              ((state.manager.noteCommit order tx.txnID lsn).deregister
                tx.snapshotTxn).pager :=
            ⟨⟨⟨sound.pinned, sound.known, sound.distinct, sound.header_id,
              sound.below, sound.noFree⟩, healthy.clean,
              ⟨healthy.formed.1, healthy.formed.2⟩, healthy.behind,
              healthy.first, healthy.last⟩, fun found => ⟨_, found, rfl⟩,
              fun _ _ => rfl, fun _ _ marked => marked,
              fun _ _ stored => stored⟩
          have noted := safe.quiet _ quiet rfl
          exact noted.returned running phase
      | _ =>
          simp only [perform, running, phase]
          exact safe

/-! ## The steps of a checkpoint -/

theorem Safe.startCheckpoint (safe : Safe records state)
    {sampled : List PageID}
    (perm : sampled.Perm state.manager.pager.dirtyIDs) :
    Safe records (state.perform (.startCheckpoint sampled)) := by
  refine safe.withCheckpoint ?_
  rintro rest ⟨⟩
  refine ⟨?_, ?_⟩
  · intro id image last
    obtain ⟨entry, found, stored, _⟩ := safe.history last
    rcases stored with marked | onFile
    · exact .inr (perm.mem_iff.mpr (DefaultPager.mem_dirtyIDs found marked))
    · exact .inl onFile
  · intro image member
    obtain ⟨tx, ref, running, _, dirty, content⟩ := safe.logged member
    obtain ⟨entry, found, samePage⟩ := safe.tracked running dirty
    rw [← samePage] at content
    by_cases marked : (state.manager.pager.heap entry.page).dirty = true
    · exact .inr (perm.mem_iff.mpr (DefaultPager.mem_dirtyIDs found marked))
    · have stored := safe.healthy.clean found (Bool.eq_false_iff.mpr marked)
      rw [content] at stored
      exact .inl stored

theorem walFlusher_flush (id : PageID) (pager : DefaultPager) :
    (pager.flush id).2.walFlusher = pager.walFlusher ∨
      ∃ lsn, (pager.flush id).2.walFlusher =
        pager.walFlusher.map (WAL.flush lsn) := by
  rcases shape : pager.cache.get id with ⟨found, cache⟩
  cases found with
  | none =>
      left
      simp only [DefaultPager.flush, shape]
  | some ref =>
      by_cases marked : (pager.heap ref).dirty = true
      · by_cases logged : 0 < (pager.heap ref).header.lsn
        · right
          refine ⟨(pager.heap ref).header.lsn, ?_⟩
          simp only [DefaultPager.flush, shape, marked, logged, if_true]
          split <;> rfl
        · left
          simp only [DefaultPager.flush, shape, marked, logged, if_true,
            if_false]
          split <;> rfl
      · left
        simp only [DefaultPager.flush, shape, marked]
        rfl

theorem Safe.holds_flush (safe : Safe records state) (id : PageID) :
    (state.manager.setPager
      (state.manager.pager.flush id).2).wal.Holds records := by
  have holds := safe.holds
  rcases walFlusher_flush id state.manager.pager with same | ⟨lsn, same⟩
  · rw [wal_setPager same]
    exact holds
  · unfold TxnManager.wal at holds ⊢
    simp only [TxnManager.setPager, same]
    cases log : state.manager.pager.walFlusher with
    | none =>
        rw [log] at holds
        exact holds
    | some wal =>
        rw [log] at holds
        exact (holds_sync holds lsn).2.2

theorem Safe.pageFlushed (safe : Safe records state) {id : PageID}
    {rest : List PageID}
    (files : ∀ {other image}, lastImage state.committed other = some image →
      OnFile state.manager.pager image ∨ other ∈ id :: rest)
    (images : ∀ image, image ∈ state.logged →
      OnFile state.manager.pager image ∨ image.id ∈ id :: rest)
    (untracked : ¬ state.Tracked id)
    (done : ∀ image, lastImage state.committed id = some image →
      OnFile state.manager.pager image) :
    Safe records { state with checkpoint := .flushing rest } := by
  refine safe.withCheckpoint ?_
  rintro left ⟨⟩
  refine ⟨?_, ?_⟩
  · intro other image last
    rcases files last with stored | waiting
    · exact .inl stored
    · rcases List.mem_cons.mp waiting with rfl | later
      · exact .inl (done image last)
      · exact .inr later
  · intro image member
    refine (images image member).imp_right fun waiting => ?_
    rcases List.mem_cons.mp waiting with here | later
    · obtain ⟨tx, ref, running, _, dirty, _⟩ := safe.logged member
      exact absurd ⟨tx, ref, running, here ▸ dirty⟩ untracked
    · exact later

theorem Safe.flushPage (safe : Safe records state) {id : PageID}
    {rest : List PageID} (phase : state.checkpoint = .flushing (id :: rest))
    (untracked : ¬ state.Tracked id) :
    Safe records (state.flushNext id rest) := by
  have holds := safe.holds_flush id
  have flushed := safe.healthy.flush id
  unfold Scheduler.flushNext
  rcases shape : state.manager.pager.flush id with ⟨outcome, after⟩
  rw [shape] at holds flushed
  -- the invariant after the flush, and the page is in the file if it went well
  have safeAfter : Safe records (state.withPager after) ∧
      (outcome = .ok () → ∀ image,
        lastImage state.committed id = some image → OnFile after image) := by
    rcases flushed with ⟨quiet, clean⟩ | ⟨evolves, entry, found, written⟩
    · have result : Safe records (state.withPager after) :=
        safe.evolve _ quiet holds (fun _ member => member)
          (fun _ never => never.elim) fun _ never => never.elim
      refine ⟨result, fun done image last => ?_⟩
      obtain ⟨entry, found, stored, _⟩ := safe.history last
      rcases stored with marked | onFile
      · rw [clean done entry found] at marked
        cases marked
      · have sameID := lastImage_id last
        exact quiet.file (by rw [sameID]; exact found) (fun never => never)
          onFile
    · have stored : ∀ image, lastImage state.committed id = some image →
          OnFile after image := by
        intro image last
        obtain ⟨entry', found', _, content⟩ := safe.history last
        rw [found] at found'
        rw [← Option.some.inj found'] at content
        exact written image (lastImage_id last) (content untracked)
      refine ⟨?_, fun _ => stored⟩
      refine safe.evolve _ evolves holds (fun _ member => member)
        (fun _ never => never.elim) ?_
      rintro other rfl
      exact ⟨untracked, stored⟩
  obtain ⟨result, done⟩ := safeAfter
  cases outcome with
  | error error =>
      exact result.withCheckpoint fun never => (nomatch never)
  | ok value =>
      obtain ⟨files, images⟩ := result.remaining (by
        show CheckpointPhase.remaining state.checkpoint = _
        rw [phase]
        rfl)
      exact result.pageFlushed files images untracked (done rfl)

theorem Safe.flushNext (safe : Safe records state)
    (untracked : ∀ tx id rest, state.writer = some tx →
      state.checkpoint = .flushing (id :: rest) →
      ∀ ref, (id, ref) ∉ tx.dirtyPages) :
    Safe records (state.perform .flushNext) := by
  cases phase : state.checkpoint with
  | flushing pages =>
      cases pages with
      | nil =>
          simp only [perform, phase]
          exact safe
      | cons id rest =>
          simp only [perform, phase]
          refine safe.flushPage phase ?_
          rintro ⟨tx, ref, running, member⟩
          exact untracked tx id rest running phase ref member
  | _ =>
      simp only [perform, phase]
      exact safe

theorem Safe.saveMeta (safe : Safe records state) :
    Safe records (state.perform .saveMeta) := by
  cases phase : state.checkpoint with
  | flushing pages =>
      cases pages with
      | nil =>
          simp only [perform, phase]
          have log : state.manager.pager.syncBackend.saveMeta.walFlusher =
              state.manager.pager.walFlusher := by
            unfold DefaultPager.saveMeta
            split <;> rfl
          have saved := safe.quiet (state.manager.setPager _)
            safe.healthy.saveMeta (wal_setPager log)
          refine saved.withCheckpoint ?_
          rintro rest ⟨⟩
          exact saved.remaining (by
            show CheckpointPhase.remaining state.checkpoint = _
            rw [phase]
            rfl)
      | cons id rest =>
          simp only [perform, phase]
          exact safe
  | _ =>
      simp only [perform, phase]
      exact safe

theorem Safe.truncate (safe : Safe records state) :
    ∃ more, Safe more (state.perform .truncate) := by
  cases phase : state.checkpoint with
  | truncating =>
      simp only [perform, phase]
      exact ⟨[], safe.truncated phase⟩
  | _ =>
      simp only [perform, phase]
      exact ⟨records, safe⟩

end Steps

end Scheduler

end CocoDB
