import CocoDB.Record.Sessions

/-!
# Old snapshots

A reader looks for the version that was current when it began.  Every later
write puts one more version in front of it, and the reader gives up after a
thousand.
-/

namespace CocoDB.Record

open Lib LawfulPager DefaultPager BTree

/-! ## The record of the writes -/

def newest (log : List (RecordID × Version)) (id : RecordID) :
    Option Version :=
  (log.find? fun write => write.1 = id).map Prod.snd

def writesOf (log : List (RecordID × Version)) (id : RecordID) : Nat :=
  log.countP fun write => write.1 = id

section Log

variable {log : List (RecordID × Version)} {id other : RecordID}
  {version : Version}

theorem newest_cons_self :
    newest ((id, version) :: log) id = some version := by
  simp [newest]

theorem newest_cons_of_ne (different : other ≠ id) :
    newest ((id, version) :: log) other = newest log other := by
  have missing : ¬ id = other := fun same => different same.symm
  simp [newest, missing]

theorem writesOf_cons_self :
    writesOf ((id, version) :: log) id = writesOf log id + 1 := by
  simp [writesOf]

theorem writesOf_cons_of_ne (different : other ≠ id) :
    writesOf ((id, version) :: log) other = writesOf log other := by
  have missing : ¬ id = other := fun same => different same.symm
  simp [writesOf, missing]

theorem writesOf_eq_zero (missing : newest log id = none) :
    writesOf log id = 0 := by
  unfold newest at missing
  unfold writesOf
  rw [Option.map_eq_none_iff, List.find?_eq_none] at missing
  exact List.countP_eq_zero.mpr missing

end Log

/-- Each record of the log stands on the shelf with its newest version; a version
under another identifier is an old one. -/
structure Records (log : List (RecordID × Version)) (shelf : Shelf) :
    Prop where
  own : ∀ {id entry}, shelf id = some entry → entry.recID = id →
    newest log id = some entry.version
  stands : ∀ {id version}, newest log id = some version →
    (id ≠ invalidRecordID ∧ id ≠ 0) ∧
      ∃ prev, shelf id = some ⟨id, prev, version⟩

/-- A record is named, or an identifier that nothing stands under, and the next
identifier is free. -/
structure Free (log : List (RecordID × Version)) (shelf : Shelf)
    (recID : RecordID) (nextID : UInt64) : Prop where
  next : shelf (nextID + 1) = none
  valid : nextID + 1 ≠ invalidRecordID ∧ nextID + 1 ≠ 0
  named : recID = invalidRecordID ∨ recID = 0 ∨ (newest log recID).isSome ∨
    shelf recID = none

/-- What such a write does: the record is new, or its version goes behind. -/
inductive Filing (shelf : Shelf) (version : Version) (id : RecordID)
    (after : Shelf) : Prop where
  | new (valid : id ≠ invalidRecordID ∧ id ≠ 0) (missing : shelf id = none)
      (shape : after = shelf.put id invalidRecordID version)
  | again (valid : id ≠ invalidRecordID ∧ id ≠ 0) {prev fresh : RecordID}
      {old : Version} (found : shelf id = some ⟨id, prev, old⟩)
      (freshValid : fresh ≠ invalidRecordID ∧ fresh ≠ 0)
      (free : shelf fresh = none)
      (shape : after = Shelf.put id fresh version
        (Function.update shelf fresh (some ⟨id, prev, old⟩)))

section Writes

variable {log : List (RecordID × Version)} {shelf after : Shelf}
  {version : Version} {recID id : RecordID} {nextID : UInt64}

theorem Records.filing (records : Records log shelf)
    (free : Free log shelf recID nextID) :
    Filing shelf version (shelf.write version recID nextID).1
      (shelf.write version recID nextID).2.2 := by
  rcases Shelf.write_cases version recID nextID shelf with ⟨_, shape⟩ |
    ⟨named, missing, shape⟩ | ⟨named, old, found, shape⟩
  · rw [shape]
    exact .new free.valid free.next rfl
  · rw [shape]
    exact .new named missing rfl
  · rw [shape]
    rcases free.named with invalid | zero | known | missing
    · exact absurd invalid named.1
    · exact absurd zero named.2
    · obtain ⟨current, newestEq⟩ := Option.isSome_iff_exists.mp known
      obtain ⟨_, prev, stands⟩ := records.stands newestEq
      obtain rfl := Option.some.inj (found.symm.trans stands)
      exact .again named stands free.valid free.next rfl
    · rw [missing] at found
      cases found

namespace Filing

theorem front (filing : Filing shelf version id after) :
    (id ≠ invalidRecordID ∧ id ≠ 0) ∧
      ∃ prev, after id = some ⟨id, prev, version⟩ := by
  cases filing with
  | new valid _ shape =>
      rw [shape]
      exact ⟨valid, _, Shelf.put_self ..⟩
  | again valid _ _ _ shape =>
      rw [shape]
      exact ⟨valid, _, Shelf.put_self ..⟩

theorem elsewhere (filing : Filing shelf version id after) {node : RecordID}
    {entry : Entry} (different : node ≠ id) (stands : after node = some entry) :
    shelf node = some entry ∨ entry.recID = id := by
  cases filing with
  | new _ _ shape =>
      rw [shape, Shelf.put_of_ne different] at stands
      exact .inl stands
  | @again _ prev fresh old _ _ _ shape =>
      rw [shape, Shelf.put_of_ne different] at stands
      by_cases same : node = fresh
      · rw [same, Function.update_self] at stands
        rw [← Option.some.inj stands]
        exact .inr rfl
      · rw [Function.update_of_ne same] at stands
        exact .inl stands

theorem kept (filing : Filing shelf version id after) {node : RecordID}
    {entry : Entry} (different : node ≠ id) (stood : shelf node = some entry) :
    after node = some entry := by
  cases filing with
  | new _ _ shape =>
      rw [shape, Shelf.put_of_ne different]
      exact stood
  | @again _ prev fresh old _ _ free shape =>
      have apart : node ≠ fresh := by
        rintro rfl
        rw [free] at stood
        cases stood
      rw [shape, Shelf.put_of_ne different, Function.update_of_ne apart]
      exact stood

theorem records (filing : Filing shelf version id after)
    (records : Records log shelf) : Records ((id, version) :: log) after := by
  obtain ⟨valid, prev, front⟩ := filing.front
  refine ⟨?_, ?_⟩
  · intro node entry stands own
    by_cases same : node = id
    · subst same
      rw [front] at stands
      rw [newest_cons_self, ← Option.some.inj stands]
    · rw [newest_cons_of_ne same]
      rcases filing.elsewhere same stands with stood | old
      · exact records.own stood own
      · exact absurd (own.symm.trans old) same
  · intro node current newestEq
    by_cases same : node = id
    · subst same
      rw [newest_cons_self] at newestEq
      rw [← Option.some.inj newestEq]
      exact ⟨valid, prev, front⟩
    · rw [newest_cons_of_ne same] at newestEq
      obtain ⟨nodeValid, before, stood⟩ := records.stands newestEq
      exact ⟨nodeValid, before, filing.kept same stood⟩

end Filing

end Writes

/-! ## The way to an old version -/

/-- From `node` on there are `count` versions that are too new for the snapshot,
and behind them the version that was current, or nothing. -/
inductive Leads (shelf : Shelf) (id : RecordID) (snapshot : TxnID) :
    Option Version → RecordID → Nat → Prop
  | here {node prev : RecordID} {version : Version} :
      (node ≠ invalidRecordID ∧ node ≠ 0) →
      shelf node = some ⟨id, prev, version⟩ →
      Leads shelf id snapshot (some version) node 0
  | nothing : Leads shelf id snapshot none invalidRecordID 0
  | newer {current : Option Version} {node prev : RecordID}
      {version : Version} {count : Nat} :
      (node ≠ invalidRecordID ∧ node ≠ 0) →
      shelf node = some ⟨id, prev, version⟩ → snapshot < version.txnID →
      prev ≠ id → Leads shelf id snapshot current prev count →
      Leads shelf id snapshot current node (count + 1)

section Leads

variable {shelf after : Shelf} {id node : RecordID} {snapshot : TxnID}
  {current : Option Version} {count : Nat} {version : Version}

theorem Leads.frame (leads : Leads shelf id snapshot current node count)
    (kept : ∀ {node prev version}, node ≠ id →
      shelf node = some ⟨id, prev, version⟩ →
      after node = some ⟨id, prev, version⟩) (inner : node ≠ id) :
    Leads after id snapshot current node count := by
  induction leads with
  | here valid stands => exact .here valid (kept inner stands)
  | nothing => exact .nothing
  | newer valid stands late apart _ inductionHypothesis =>
      exact .newer valid (kept inner stands) late apart
        (inductionHypothesis apart)

theorem Leads.move (leads : Leads shelf id snapshot current node count)
    (kept : ∀ {node prev version}, node ≠ id →
      shelf node = some ⟨id, prev, version⟩ →
      after node = some ⟨id, prev, version⟩) {place : RecordID}
    (valid : place ≠ invalidRecordID ∧ place ≠ 0)
    (same : after place = shelf node) (named : node ≠ invalidRecordID) :
    Leads after id snapshot current place count := by
  cases leads with
  | here _ stands => exact .here valid (same.trans stands)
  | nothing => exact absurd rfl named
  | newer _ stands late apart rest =>
      exact .newer valid (same.trans stands) late apart (rest.frame kept apart)

theorem Leads.stands (leads : Leads shelf id snapshot current node count)
    (named : node ≠ invalidRecordID) :
    ∃ prev version, shelf node = some ⟨id, prev, version⟩ := by
  cases leads with
  | here _ stands => exact ⟨_, _, stands⟩
  | nothing => exact absurd rfl named
  | newer _ stands _ _ _ => exact ⟨_, _, stands⟩

theorem Leads.other (leads : Leads shelf id snapshot current id count)
    (valid : id ≠ invalidRecordID ∧ id ≠ 0) {other : RecordID}
    (different : id ≠ other) (filing : Filing shelf version other after) :
    Leads after id snapshot current id count := by
  obtain ⟨prev, front, stands⟩ := leads.stands valid.1
  refine leads.move ?_ valid ((filing.kept different stands).trans
    stands.symm) valid.1
  intro node before old _ stood
  refine filing.kept ?_ stood
  rintro rfl
  cases filing with
  | new _ missing _ =>
      rw [missing] at stood
      cases stood
  | again _ found _ _ _ =>
      rw [found] at stood
      exact different (congrArg Entry.recID (Option.some.inj stood)).symm

theorem Leads.again (leads : Leads shelf id snapshot current id count)
    (late : snapshot < version.txnID)
    (filing : Filing shelf version id after) :
    Leads after id snapshot current id (count + 1) := by
  have kept : ∀ {node prev old}, node ≠ id →
      shelf node = some ⟨id, prev, old⟩ → after node = some ⟨id, prev, old⟩ :=
    fun different stood => filing.kept different stood
  cases filing with
  | new valid missing _ =>
      obtain ⟨_, _, stands⟩ := leads.stands valid.1
      rw [missing] at stands
      cases stands
  | @again valid prev fresh old found freshValid free shape =>
      have apart : fresh ≠ id := by
        rintro rfl
        rw [free] at found
        cases found
      have behind : after fresh = shelf id := by
        rw [shape, Shelf.put_of_ne apart, Function.update_self, found]
      have front : after id = some ⟨id, fresh, version⟩ := by
        rw [shape]
        exact Shelf.put_self ..
      exact .newer valid front late apart
        (leads.move kept freshValid behind valid.1)

theorem leads_first (missing : shelf id = none)
    (late : snapshot < version.txnID)
    (filing : Filing shelf version id after) :
    Leads after id snapshot none id 1 := by
  cases filing with
  | new valid _ shape =>
      have front : after id = some ⟨id, invalidRecordID, version⟩ := by
        rw [shape]
        exact Shelf.put_self ..
      exact .newer valid front late valid.1.symm .nothing
  | again _ found _ _ _ =>
      rw [missing] at found
      cases found

def Returns (id : RecordID) (result : Except Error (Header × Bytes)) :
    Option Version → Prop
  | none => result = .error .slotNotFound
  | some version => ∃ prev, result = Entry.answer ⟨id, prev, version⟩

theorem answer_eq_error_iff {entry : Entry} :
    entry.answer = .error .slotNotFound ↔ entry.version.payload = none := by
  unfold Entry.answer
  cases entry.version.payload with
  | none => exact ⟨fun _ => rfl, fun _ => rfl⟩
  | some data => exact ⟨fun found => (nomatch found), fun none =>
      (nomatch none)⟩

/-- A reader that looks at `fuel` versions finds the one behind `count` newer
ones when there are fewer of them. -/
theorem Leads.read {visible : TxnID → Bool}
    (leads : Leads shelf id snapshot current node count)
    (late : ∀ {txnID}, snapshot < txnID → visible txnID = false)
    (seen : ∀ {version}, current = some version →
      visible version.txnID = true) (fuel : Nat) :
    Returns id (shelf.read visible fuel node)
      (if count < fuel then current else none) := by
  induction leads generalizing fuel with
  | here valid stands =>
      cases fuel with
      | zero => rfl
      | succ fuel =>
          rw [if_pos (Nat.succ_pos fuel), Shelf.read, if_pos valid, stands]
          simp only [seen rfl, if_true]
          exact ⟨_, rfl⟩
  | nothing =>
      have none : (if 0 < fuel then none else none : Option Version) =
          none := ite_self _
      rw [none]
      cases fuel with
      | zero => rfl
      | succ fuel =>
          rw [Shelf.read, if_neg fun both => both.1 rfl]
          rfl
  | newer valid stands newer _ _ inductionHypothesis =>
      cases fuel with
      | zero => rfl
      | succ fuel =>
          rw [Shelf.read, if_pos valid, stands]
          simp only [late newer, Bool.false_eq_true, if_false,
            Nat.add_lt_add_iff_right]
          exact inductionHypothesis seen fuel

end Leads

namespace Session

def Unlisted (session : Session) (id : RecordID) : Prop :=
  (session.store.locate id).1 = .ok none

/-- The counters do not run out, a write names a record or an identifier that is
not in the directory, and the next identifier is not there either. -/
def Orderly (action : Action) (session : Session) : Prop :=
  Affords action session ∧
    match action with
    | .write _ recID =>
        session.Unlisted (session.store.nextID + 1) ∧
          (recID = invalidRecordID ∨ recID = 0 ∨
            (newest session.log recID).isSome ∨ session.Unlisted recID)
    | _ => True

theorem step_log {action : Action} {session after : Session}
    (taken : Step action session after) :
    (∃ payload recID, action = .write payload recID) ∨
      after.log = session.log ∧
        ∀ shelf, session.shelve shelf action = shelf := by
  unfold Step at taken
  cases action with
  | write payload recID => exact .inl ⟨payload, recID, rfl⟩
  | beginWrite fails =>
      simp only [perform] at taken
      split at taken
      · cases taken
      · rw [← Option.some.inj taken]
        exact .inr ⟨rfl, fun _ => rfl⟩
  | beginRead =>
      rw [← Option.some.inj taken]
      exact .inr ⟨rfl, fun _ => rfl⟩
  | endRead snapshot =>
      rw [← Option.some.inj taken]
      exact .inr ⟨rfl, fun _ => rfl⟩
  | read tx recID =>
      rw [← Option.some.inj taken]
      exact .inr ⟨rfl, fun _ => rfl⟩
  | readDirect tx recID =>
      rw [← Option.some.inj taken]
      exact .inr ⟨rfl, fun _ => rfl⟩
  | commit order faults =>
      simp only [perform] at taken
      split at taken
      · cases taken
      · split at taken
        · cases taken
        · rw [← Option.some.inj taken]
          exact .inr ⟨rfl, fun _ => rfl⟩

end Session

structure Recorded (session : Session) (tall : Nat) (shelf : Shelf) :
    Prop where
  housed : Housed session tall shelf
  records : Records session.log shelf

theorem Recorded.step {session after : Session} {tall : Nat} {shelf : Shelf}
    {action : Session.Action} (recorded : Recorded session tall shelf)
    (orderly : Session.Orderly action session)
    (taken : Session.Step action session after) :
    session.lastCommit ≤ after.lastCommit ∧
      ((∃ taller, Recorded after taller shelf ∧ after.log = session.log) ∨
        ∃ taller changed id version, Recorded after taller changed ∧
          Filing shelf version id changed ∧
          after.log = (id, version) :: session.log ∧
          session.lastCommit < version.txnID) := by
  obtain ⟨housed, records⟩ := recorded
  obtain ⟨⟨taller, housedNow⟩, forward⟩ := housed.step orderly.1 taken
  refine ⟨forward, ?_⟩
  rcases Session.step_log taken with ⟨payload, recID, rfl⟩ | ⟨log, same⟩
  · obtain ⟨⟨short, roomy, small⟩, unlisted, named⟩ := orderly
    obtain ⟨tx, id, tracked, store, opened, done, rfl⟩ :=
      Session.write_taken taken
    have free : Free session.log shelf recID session.store.nextID := by
      refine ⟨(Store.locate_eq_none_iff housed.holds _).mp unlisted,
        nextID_valid small, ?_⟩
      exact named.imp_right fun rest => rest.imp_right fun last =>
        last.imp_right (Store.locate_eq_none_iff housed.holds _).mp
    have filing := @Records.filing _ _ ⟨tx.txnID, payload⟩ _ _ records free
    obtain ⟨tracked', store', done', _⟩ :=
      housed.cap.write opened recID short (by omega)
    obtain ⟨sameID, _⟩ := Prod.mk.inj (done.symm.trans done')
    rw [← Except.ok.inj sameID] at filing
    rw [Session.shelve, opened] at housedNow
    refine .inr ⟨taller, _, id, ⟨tx.txnID, payload⟩, ⟨housedNow,
      filing.records records⟩, filing, rfl, ?_⟩
    have writing := housed.writing tx opened
    show session.store.manager.pager.info.lastTxnID < tx.txnID
    rw [UInt64.lt_iff_toNat_lt, writing.txnID_eq, writing.next]
    exact Nat.lt_succ_self _
  · rw [same] at housedNow
    refine .inl ⟨taller, ⟨housedNow, ?_⟩, log⟩
    rw [log]
    exact records

inductive Watched (shelf : Shelf) (log : List (RecordID × Version))
    (snapshot : TxnID) (id : RecordID) : Option Version → Nat → Prop
  | unwritten : newest log id = none →
      Watched shelf log snapshot id none 0
  | written {current : Option Version} {earlier count : Nat} :
      (id ≠ invalidRecordID ∧ id ≠ 0) →
      Leads shelf id snapshot current id count →
      writesOf log id = earlier + count →
      Watched shelf log snapshot id current earlier

theorem Watched.write {shelf changed : Shelf}
    {log : List (RecordID × Version)} {snapshot : TxnID}
    {id other : RecordID} {current : Option Version} {earlier : Nat}
    {version : Version} (watched : Watched shelf log snapshot id current
      earlier) (records : Records log shelf)
    (filing : Filing shelf version other changed)
    (late : snapshot < version.txnID) :
    Watched changed ((other, version) :: log) snapshot id current earlier := by
  by_cases same : id = other
  · subst same
    cases watched with
    | unwritten missing =>
        have absent : shelf id = none := by
          cases filing with
          | new _ absent _ => exact absent
          | again _ found _ _ _ =>
              rw [records.own found rfl] at missing
              cases missing
        refine .written filing.front.1 (leads_first absent late filing) ?_
        rw [writesOf_cons_self, writesOf_eq_zero missing]
    | written valid leads count =>
        refine .written valid (leads.again late filing) ?_
        rw [writesOf_cons_self, count, Nat.add_assoc]
  · cases watched with
    | unwritten missing =>
        refine .unwritten ?_
        rw [newest_cons_of_ne same]
        exact missing
    | written valid leads count =>
        refine .written valid (leads.other valid same filing) ?_
        rw [writesOf_cons_of_ne same]
        exact count

theorem Recorded.watch {session final : Session} {tall : Nat} {shelf : Shelf}
    {actions : List Session.Action} {snapshot : TxnID} {id : RecordID}
    {current : Option Version} {earlier : Nat}
    (run : Execution (Guarded Session.Orderly Session.Step) session actions
      final) (recorded : Recorded session tall shelf)
    (begun : snapshot ≤ session.lastCommit)
    (watched : Watched shelf session.log snapshot id current earlier) :
    ∃ tall shelf, Recorded final tall shelf ∧ snapshot ≤ final.lastCommit ∧
      Watched shelf final.log snapshot id current earlier := by
  induction run generalizing tall shelf with
  | nil state => exact ⟨tall, shelf, recorded, begun, watched⟩
  | cons first _ inductionHypothesis =>
      obtain ⟨forward, still | moved⟩ := recorded.step first.1 first.2
      · obtain ⟨taller, recordedNow, log⟩ := still
        refine inductionHypothesis recordedNow (UInt64.le_trans begun forward)
          ?_
        rw [log]
        exact watched
      · obtain ⟨taller, changed, other, version, recordedNow, filing, log,
          late⟩ := moved
        refine inductionHypothesis recordedNow (UInt64.le_trans begun forward)
          ?_
        rw [log]
        exact watched.write recorded.records filing
          (UInt64.lt_of_le_of_lt begun late)

theorem Recorded.begin {session : Session} {tall : Nat} {shelf : Shelf}
    (recorded : Recorded session tall shelf) (snapshot : TxnID)
    (id : RecordID) :
    Watched shelf session.log snapshot id (newest session.log id)
      (writesOf session.log id) := by
  cases current : newest session.log id with
  | none =>
      rw [writesOf_eq_zero current]
      exact .unwritten current
  | some version =>
      obtain ⟨valid, prev, stands⟩ := recorded.records.stands current
      exact .written valid (.here valid stands) rfl

theorem Recorded.run {session final : Session} {tall : Nat} {shelf : Shelf}
    {actions : List Session.Action} (recorded : Recorded session tall shelf)
    (run : Execution (Guarded Session.Orderly Session.Step) session actions
      final) : ∃ tall shelf, Recorded final tall shelf := by
  refine @Execution.invariant _ _ _ (fun reached => ∃ tall shelf,
    Recorded reached tall shelf) _ _ _ run ?_ ⟨tall, shelf, recorded⟩
  rintro action start next ⟨_, _, before⟩ ⟨orderly, taken⟩
  rcases (before.step orderly taken).2 with ⟨taller, after, _⟩ |
    ⟨taller, changed, _, _, after, _⟩
  · exact ⟨taller, _, after⟩
  · exact ⟨taller, changed, after⟩

theorem Recorded.readRecord {session : Session} {tall : Nat} {shelf : Shelf}
    (recorded : Recorded session tall shelf) {reader : Transaction}
    (own : reader.txnID = reader.snapshotTxn)
    (begun : reader.snapshotTxn ≤ session.lastCommit) {id : RecordID}
    {current : Option Version} {earlier : Nat}
    (watched : Watched shelf session.log reader.snapshotTxn id current earlier)
    (seen : ∀ {version}, current = some version →
      version.txnID ≤ reader.snapshotTxn)
    (record : (newest session.log id).isSome) :
    Returns id (session.store.readRecord (some reader) id).1
      (if writesOf session.log id < earlier + 1000 then current else none) := by
  obtain ⟨pager, readEq, _⟩ := @Store.readVersions_spec tall shelf
    Slotted.get rfl reader.snapshotTxn reader.txnID Store.maxVisited id
    session.store recorded.housed.holds.keeps
  have result : (session.store.readRecord (some reader) id).1 =
      shelf.read (sees reader.snapshotTxn session.store.manager.isCommitted
        reader.txnID) 1000 id := congrArg Prod.fst readEq
  cases watched with
  | unwritten missing =>
      rw [missing] at record
      cases record
  | written _ leads count =>
      rw [result, count]
      simp only [Nat.add_lt_add_iff_left]
      refine leads.read ?_ ?_ 1000
      · intro txnID late
        have above : ¬ txnID ≤ reader.snapshotTxn := UInt64.not_le.mpr late
        have other : txnID ≠ reader.snapshotTxn := fun same =>
          above (same ▸ UInt64.le_refl _)
        unfold sees
        rw [own]
        simp [above, other]
      · intro version known
        have low := seen known
        have committed : session.store.manager.isCommitted version.txnID =
            true := Housed.isCommitted_of_le (UInt64.le_trans low begun)
        unfold sees
        simp [low, committed]

theorem Recorded.oldSnapshot {session final : Session} {tall : Nat}
    {shelf : Shelf} (recorded : Recorded session tall shelf)
    (closed : session.writer = none) {later : List Session.Action}
    (rest : Execution (Guarded Session.Orderly Session.Step)
      session.beginRead.2 later final) {id : RecordID}
    (record : (newest final.log id).isSome) :
    Returns id (final.store.readRecord (some session.beginRead.1) id).1
        (newest session.log id) ↔
      (writesOf final.log id < writesOf session.log id + 1000 ∨
        ∀ version, newest session.log id = some version →
          version.payload = none) := by
  have snapshot : session.beginRead.1.snapshotTxn = session.lastCommit :=
    recorded.housed.idle closed
  have reading : Recorded session.beginRead.2 tall shelf :=
    ⟨recorded.housed.readers _, recorded.records⟩
  have begun : session.beginRead.1.snapshotTxn ≤
      session.beginRead.2.lastCommit := by
    rw [snapshot]
    exact UInt64.le_refl _
  obtain ⟨_, _, last, after, watched⟩ := reading.watch rest begun
    (recorded.begin session.beginRead.1.snapshotTxn id)
  have result := last.readRecord rfl after watched (fun known => by
    obtain ⟨_, prev, stands⟩ := recorded.records.stands known
    rw [snapshot]
    exact (recorded.housed.database closed).known stands) record
  by_cases few : writesOf final.log id < writesOf session.log id + 1000
  · rw [if_pos few] at result
    exact ⟨fun _ => .inl few, fun _ => result⟩
  · rw [if_neg few] at result
    have nothing : (final.store.readRecord (some session.beginRead.1) id).1 =
        .error .slotNotFound := result
    rw [nothing]
    refine ⟨fun returns => .inr ?_, fun either => ?_⟩
    · intro version known
      rw [known] at returns
      obtain ⟨prev, equal⟩ := returns
      exact answer_eq_error_iff.mp equal.symm
    · have deleted := either.resolve_left few
      cases current : newest session.log id with
      | none => exact rfl
      | some version =>
          exact ⟨invalidRecordID,
            (answer_eq_error_iff.mpr (deleted version current)).symm⟩

def Bounded (shelf : Shelf) (next : UInt64) : Prop :=
  ∀ id, next < id → shelf id = none

def updates (count : Nat) (data : Bytes) (id : RecordID) :
    List Session.Action :=
  (List.replicate count (Session.update (some data) id)).flatten

theorem Idle.again {session : Session} {shelf : Shelf} {tall pages : Nat}
    {last : TxnID} {next : UInt64} {id : RecordID}
    (idle : Idle session shelf tall pages last next)
    (records : Records session.log shelf) (bounded : Bounded shelf next)
    (known : (newest session.log id).isSome) {data : Bytes}
    (short : data.length < 2 ^ 32) (counted : last.toNat + 1 < 2 ^ 64)
    (numbered : next.toNat + 2 < 2 ^ 64)
    (roomy : 3 * pages + data.length + 2 * tall + 7 ≤ 2 ^ 64) :
    ∃ after changed, Execution (Guarded Session.Orderly Session.Step) session
        (Session.update (some data) id) after ∧
      Idle after changed (tall + 2) (pages + data.length + 2 * tall + 6)
        (last + 1) (next + 1) ∧
      Records after.log changed ∧ Bounded changed (next + 1) ∧
      after.log = (id, ⟨last + 1, some data⟩) :: session.log := by
  obtain ⟨current, newestEq⟩ := Option.isSome_iff_exists.mp known
  obtain ⟨valid, prev, stands⟩ := records.stands newestEq
  have number : (next + 1).toNat = next.toNat + 1 := toNat_succ64 (by omega)
  have free : shelf (next + 1) = none := by
    apply bounded
    rw [UInt64.lt_iff_toNat_lt, number]
    exact Nat.lt_succ_self _
  have begun := idle.housed.beginWrite idle.closed false
    (by rw [idle.last_eq]; exact counted)
  have orderly : Session.Orderly (.write (some data) id)
      (session.beginWrite false) := by
    refine ⟨idle.affords short (by show 3 * pages + data.length + 7 ≤ _; omega)
      numbered, ?_, .inr (.inr (.inl known))⟩
    refine (Store.locate_eq_none_iff begun.holds _).mpr ?_
    show shelf (session.store.nextID + 1) = none
    rw [idle.next_eq]
    exact free
  have begins : Session.Orderly (.beginWrite false) session := by
    refine ⟨?_, trivial⟩
    show session.store.manager.lastTxnID.toNat + 1 < 2 ^ 64
    rw [idle.last_eq]
    exact counted
  obtain ⟨after, run, idleNow, log⟩ := idle.update
    (Shelf.write_again ⟨last + 1, some data⟩ next valid stands) begins orderly
    (fun _ => ⟨trivial, trivial⟩) counted short
    (by show pages + data.length + 2 * tall + 7 ≤ _; omega)
  have filing : Filing shelf ⟨last + 1, some data⟩ id _ :=
    .again valid stands (nextID_valid numbered) free rfl
  refine ⟨after, _, run, idleNow, ?_, ?_, log⟩
  · rw [log]
    exact filing.records records
  · intro other beyond
    rw [UInt64.lt_iff_toNat_lt, number] at beyond
    have before : next < other := by
      rw [UInt64.lt_iff_toNat_lt]
      omega
    have apart : other ≠ id := by
      rintro rfl
      rw [bounded other before] at stands
      cases stands
    have new : other ≠ next + 1 := by
      rintro rfl
      omega
    rw [Shelf.put_of_ne apart, Function.update_of_ne new]
    exact bounded other before

theorem Idle.updates {data : Bytes} {id : RecordID}
    (small : data.length ≤ 1000) : ∀ (count : Nat) {session : Session}
    {shelf : Shelf} {tall pages : Nat} {last : TxnID} {next : UInt64},
    Idle session shelf tall pages last next → Records session.log shelf →
    Bounded shelf next → (newest session.log id).isSome →
    tall + 2 * count ≤ 10000 → pages + 30000 * count ≤ 2 ^ 60 →
    last.toNat + count ≤ 2 ^ 60 → next.toNat + count ≤ 2 ^ 60 →
    ∃ final, Execution (Guarded Session.Orderly Session.Step) session
        (updates count data id) final ∧
      (newest final.log id).isSome ∧
      writesOf final.log id = writesOf session.log id + count
  | 0, session, _, _, _, _, _, _, _, _, known, _, _, _, _ =>
      ⟨session, .nil session, known, rfl⟩
  | count + 1, session, shelf, tall, pages, last, next, idle, records,
    bounded, known, low, roomy, counted, numbered => by
      obtain ⟨middle, changed, first, idleNow, recordsNow, boundedNow, log⟩ :=
        idle.again records bounded known (by omega : data.length < 2 ^ 32)
          (by omega) (by omega) (by omega)
      have knownNow : (newest middle.log id).isSome := by
        rw [log, newest_cons_self]
        rfl
      have lastNow : (last + 1).toNat = last.toNat + 1 :=
        toNat_succ64 (by omega)
      have nextNow : (next + 1).toNat = next.toNat + 1 :=
        toNat_succ64 (by omega)
      obtain ⟨final, rest, knownLast, writes⟩ := Idle.updates small count
        idleNow recordsNow boundedNow knownNow (by omega) (by omega)
        (by omega) (by omega)
      refine ⟨final, ?_, knownLast, ?_⟩
      · unfold CocoDB.Record.updates at rest ⊢
        rw [List.replicate_succ, List.flatten_cons]
        exact first.append rest
      · rw [writes, log, writesOf_cons_self]
        omega

def oneRecord : Session :=
  (Session.performAll (Session.update (some [1]) 0)
    (Session.opened sampleManager invalidPageID [])).getD
    (Session.opened sampleManager invalidPageID [])

def oneShelf : Shelf :=
  Shelf.put 1001 invalidRecordID ⟨1, some [1]⟩ fun _ => none

theorem oneRecord_run :
    Execution (Guarded Session.Orderly Session.Step)
        (Session.opened sampleManager invalidPageID [])
        (Session.update (some [1]) 0) oneRecord ∧
      Idle oneRecord oneShelf 2 9 1 1001 ∧
      oneRecord.log = [(1001, ⟨1, some [1]⟩)] := by
  have idle := sampleManager_idle []
  have begun := idle.housed.beginWrite idle.closed false (by decide)
  have orderly : Session.Orderly (.write (some [1]) 0)
      ((Session.opened sampleManager invalidPageID []).beginWrite false) :=
    ⟨idle.affords (by decide) (by decide) (by decide),
      (Store.locate_eq_none_iff begun.holds _).mpr rfl, .inr (.inl rfl)⟩
  obtain ⟨after, run, idleNow, log⟩ :=
    idle.update (Shelf.write_new ⟨1, some [1]⟩ 1000 _ (by decide))
      ⟨(by decide : 0 + 1 < 2 ^ 64), trivial⟩ orderly
      (fun _ => ⟨trivial, trivial⟩) (by decide) (by decide) (by decide)
  have reached : oneRecord = after := by
    unfold oneRecord
    rw [Session.performAll_eq run]
    rfl
  rw [reached]
  exact ⟨run, idleNow, log⟩

theorem records_empty : Records [] fun _ => none :=
  ⟨fun stands => (nomatch stands), fun known => (nomatch known)⟩

theorem oneRecord_recorded : Recorded oneRecord 2 oneShelf := by
  obtain ⟨_, idle, log⟩ := oneRecord_run
  have filing : Filing (fun _ => none) ⟨1, some [1]⟩ 1001 oneShelf :=
    .new (by decide) rfl rfl
  refine ⟨idle.housed, ?_⟩
  rw [log]
  exact filing.records records_empty

theorem oneRecord_updates (count : Nat) (few : count ≤ 4000) :
    ∃ final, Execution (Guarded Session.Orderly Session.Step)
        oneRecord.beginRead.2 (updates count [2] 1001) final ∧
      (newest final.log 1001).isSome ∧
      writesOf final.log 1001 = 1 + count := by
  obtain ⟨_, idle, log⟩ := oneRecord_run
  have bounded : Bounded oneShelf 1001 := by
    intro id beyond
    refine Shelf.put_of_ne ?_
    rintro rfl
    exact absurd beyond (by decide)
  have same : oneRecord.beginRead.2.log = [(1001, ⟨1, some [1]⟩)] := log
  obtain ⟨final, run, known, writes⟩ := @Idle.updates [2] 1001 (by decide) count
    _ _ _ _ _ _ idle.beginRead oneRecord_recorded.records bounded
    (by rw [same]; decide) (by omega) (by omega)
    (by show 1 + count ≤ 2 ^ 60; omega)
    (by show 1001 + count ≤ 2 ^ 60; omega)
  refine ⟨final, run, known, ?_⟩
  rw [writes, same]
  rfl

end CocoDB.Record
