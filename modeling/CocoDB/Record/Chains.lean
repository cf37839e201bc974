import CocoDB.Record.Snapshots

/-!
# Version chains

From a record the directory and `PrevVersion` lead through its versions.  A
version that is superseded keeps the header it was written with: its `EndTxn`
goes into a copy of the bytes.  So a chain is as the readers of headers expect it
only as long as nothing is superseded.
-/

namespace CocoDB.Record

open Lib LawfulPager DefaultPager BTree

/-! ## What is stored -/

def Store.versionAt (id : RecordID) (store : Store) :
    Except Error (Header × Bytes) :=
  match store.locate id with
  | (.error cause, _) => .error cause
  | (.ok none, _) => .error .slotNotFound
  | (.ok (some loc), located) =>
      match located.openPage loc.page with
      | (.error cause, _) => .error cause
      | (.ok ref, opened) =>
          match Slotted.getDirect (opened.pager.heap ref) loc.slot with
          | .error cause => .error cause
          | .ok recBytes =>
              match Header.decode recBytes with
              | .error cause => .error cause
              | .ok header =>
                  match (opened.payloadOf header
                      (recBytes.drop recordHeaderSize)).1 with
                  | .error cause => .error cause
                  | .ok payload => .ok (header, payload)

/-- A version on a chain, with the identifier it was found under. -/
structure Link where
  id : RecordID
  header : Header
  payload : Bytes

inductive Chain (store : Store) : RecordID → List Link → Prop where
  | last {id : RecordID} : ¬ (id ≠ invalidRecordID ∧ id ≠ 0) →
      Chain store id []
  | link {id : RecordID} {header : Header} {payload : Bytes}
      {rest : List Link} : id ≠ invalidRecordID ∧ id ≠ 0 →
      store.versionAt id = .ok (header, payload) →
      Chain store header.prevVersion rest →
      Chain store id (⟨id, header, payload⟩ :: rest)

def versionsOf (log : List (RecordID × Version)) (id : RecordID) :
    List Version :=
  (log.filter fun write => write.1 = id).map Prod.snd

structure Link.Is (id : RecordID) (link : Link) (version : Version) :
    Prop where
  recordID : link.header.recordID = id
  beginTxn : link.header.beginTxn = version.txnID
  deleted : link.header.isDeleted = version.payload.isNone
  payload : link.payload = version.payload.getD []

/-- The chain of a record leads through its versions, each of them once, from
the newest to the oldest; a version ends where the next one begins. -/
structure WellFormed (session : Session) (id : RecordID) (links : List Link) :
    Prop where
  chain : Chain session.store id links
  acyclic : (links.map Link.id).Nodup
  lists : List.Forall₂ (Link.Is id) links (versionsOf session.log id)
  ordered : links.IsChain fun newer older =>
    older.header.beginTxn ≤ newer.header.beginTxn
  superseded : links.IsChain fun newer older =>
    older.header.endTxn = newer.header.beginTxn
  current : ∀ link ∈ links.head?, link.header.endTxn = 0

def Session.Chained (session : Session) : Prop :=
  ∀ id, versionsOf session.log id ≠ [] → ∃ links, WellFormed session id links

section Stored

variable {store : Store} {tall : Nat} {shelf : Shelf} {id : RecordID}

theorem Store.versionAt_missing (keeps : Keeps store.tree tall shelf)
    (missing : shelf id = none) :
    store.versionAt id = .error .slotNotFound := by
  rcases Store.find_spec keeps id with ⟨located, locateEq, _, _⟩ |
    ⟨entry, _, _, _, _, _, _, stands, _⟩
  · rw [Store.versionAt, locateEq]
  · rw [missing] at stands
    cases stands

theorem Store.versionAt_spec (keeps : Keeps store.tree tall shelf)
    {entry : Entry} (stands : shelf id = some entry) :
    store.versionAt id =
      .ok (entry.header, entry.version.payload.getD []) := by
  rcases Store.find_spec keeps id with ⟨_, _, missing, _⟩ |
    ⟨other, loc, ref, located, opened, locateEq, openEq, stands', found⟩
  · rw [stands] at missing
    cases missing
  · obtain rfl := Option.some.inj (stands.symm.trans stands')
    obtain ⟨body, bytes, shape⟩ := found.bytes
    obtain ⟨after, payloadEq, _⟩ := @Store.payloadOf_spec
      (store.setPager opened) entry body found.works.sound shape
    rw [Store.versionAt, locateEq]
    simp only
    rw [openEq]
    simp only
    rw [show Slotted.getDirect ((store.setPager opened).pager.heap ref)
      loc.slot = .ok (entry.header.encode ++ body) from bytes]
    simp only [Header.decode_encode]
    rw [List.drop_left' (Header.encode_length _), payloadEq]

theorem Store.versionAt_stands (keeps : Keeps store.tree tall shelf)
    {header : Header} {payload : Bytes}
    (found : store.versionAt id = .ok (header, payload)) :
    ∃ entry, shelf id = some entry ∧ header = entry.header := by
  cases stands : shelf id with
  | none =>
      rw [Store.versionAt_missing keeps stands] at found
      cases found
  | some entry =>
      rw [Store.versionAt_spec keeps stands] at found
      cases found
      exact ⟨entry, rfl, rfl⟩

end Stored

section Log

variable {log : List (RecordID × Version)} {id other : RecordID}
  {version : Version}

theorem versionsOf_cons_self :
    versionsOf ((id, version) :: log) id = version :: versionsOf log id := by
  simp only [versionsOf, List.filter_cons, decide_true, if_true,
    List.map_cons]

theorem versionsOf_cons_of_ne (different : other ≠ id) :
    versionsOf ((id, version) :: log) other = versionsOf log other := by
  have apart : ¬ id = other := fun same => different same.symm
  simp only [versionsOf, List.filter_cons, apart, decide_false,
    Bool.false_eq_true, if_false]

def Twice (log : List (RecordID × Version)) : Prop :=
  ∃ id, 2 ≤ (versionsOf log id).length

theorem Twice.cons (twice : Twice log) (write : RecordID × Version) :
    Twice (write :: log) := by
  obtain ⟨id, many⟩ := twice
  obtain ⟨written, version⟩ := write
  refine ⟨id, ?_⟩
  by_cases same : id = written
  · subst same
    rw [versionsOf_cons_self, List.length_cons]
    exact Nat.le_succ_of_le many
  · rw [versionsOf_cons_of_ne same]
    exact many

end Log

def Single (log : List (RecordID × Version)) (shelf : Shelf) : Prop :=
  ∀ id, versionsOf log id = [] ∧ shelf id = none ∨
    ∃ version, versionsOf log id = [version] ∧
      (id ≠ invalidRecordID ∧ id ≠ 0) ∧
      shelf id = some ⟨id, invalidRecordID, version⟩

def Dated (shelf : Shelf) : Prop :=
  ∀ {id entry}, shelf id = some entry → entry.version.txnID ≠ 0

section Writes

variable {log : List (RecordID × Version)} {shelf : Shelf} {id : RecordID}
  {version : Version}

theorem Single.put (single : Single log shelf) (missing : shelf id = none)
    (valid : id ≠ invalidRecordID ∧ id ≠ 0) :
    Single ((id, version) :: log) (shelf.put id invalidRecordID version) := by
  intro other
  by_cases same : other = id
  · subst same
    rw [versionsOf_cons_self, Shelf.put_self]
    rcases single other with ⟨unwritten, _⟩ | ⟨_, _, _, stands⟩
    · exact .inr ⟨version, by rw [unwritten], valid, rfl⟩
    · rw [missing] at stands
      cases stands
  · rw [versionsOf_cons_of_ne same, Shelf.put_of_ne same]
    exact single other

theorem Single.twice (single : Single log shelf)
    (listed : shelf id ≠ none) : Twice ((id, version) :: log) := by
  rcases single id with ⟨_, missing⟩ | ⟨first, written, _⟩
  · exact absurd missing listed
  · refine ⟨id, ?_⟩
    rw [versionsOf_cons_self, written]
    exact Nat.le_refl 2

theorem Dated.write (dated : Dated shelf) (late : version.txnID ≠ 0)
    (recID : RecordID) (nextID : UInt64) :
    Dated (shelf.write version recID nextID).2.2 := by
  intro id entry stands
  rcases Shelf.write_entry stands with new | ⟨old, stood⟩
  · rw [new]
    exact late
  · exact dated stood

end Writes

namespace Session

def target (recID : RecordID) (session : Session) : RecordID :=
  if recID ≠ invalidRecordID ∧ recID ≠ 0 then recID
  else session.store.nextID + 1

/-- A write is the first one of its record: the directory does not have it. -/
def First (action : Action) (session : Session) : Prop :=
  match action with
  | .write _ recID => session.Unlisted (session.target recID)
  | _ => True

def Fresh (action : Action) (session : Session) : Prop :=
  Affords action session ∧ First action session

end Session

structure Course (session : Session) (tall : Nat) (shelf : Shelf) :
    Prop where
  housed : Housed session tall shelf
  dated : Dated shelf

theorem write_target (session : Session) (shelf : Shelf) (version : Version)
    (recID : RecordID) :
    (shelf.write version recID session.store.nextID).1 =
        session.target recID ∧
      (shelf (session.target recID) = none →
        (shelf.write version recID session.store.nextID).2.2 =
          shelf.put (session.target recID) invalidRecordID version) := by
  simp only [Session.target]
  rcases Shelf.write_cases version recID session.store.nextID shelf with
    ⟨unnamed, shape⟩ | ⟨named, _, shape⟩ | ⟨named, old, found, shape⟩
  · rw [shape, if_neg unnamed]
    exact ⟨rfl, fun _ => rfl⟩
  · rw [shape, if_pos named]
    exact ⟨rfl, fun _ => rfl⟩
  · rw [shape, if_pos named]
    refine ⟨rfl, fun missing => ?_⟩
    rw [found] at missing
    cases missing

namespace Course

variable {session after : Session} {tall : Nat} {shelf : Shelf}
  {action : Session.Action}

/-- A call that is a first write keeps every record single, and any other write
makes a record have two versions. -/
theorem step (course : Course session tall shelf)
    (affords : Session.Affords action session)
    (taken : Session.Step action session after) :
    ∃ taller changed, Course after taller changed ∧
      (Twice session.log → Twice after.log) ∧
      (Single session.log shelf →
        Session.First action session ∧ Single after.log changed ∨
          ¬ Session.First action session ∧ Twice after.log) := by
  obtain ⟨housed, dated⟩ := course
  obtain ⟨⟨taller, housedNow⟩, _⟩ := housed.step affords taken
  rcases Session.step_log taken with ⟨payload, recID, rfl⟩ | ⟨log, same⟩
  · obtain ⟨short, roomy, small⟩ := affords
    obtain ⟨tx, id, tracked, store, opened, done, rfl⟩ :=
      Session.write_taken taken
    obtain ⟨tracked', store', done', _⟩ :=
      housed.cap.write opened recID short (by omega)
    obtain ⟨sameID, _⟩ := Prod.mk.inj (done.symm.trans done')
    obtain ⟨front, putOnly⟩ :=
      write_target session shelf ⟨tx.txnID, payload⟩ recID
    have target : id = session.target recID :=
      (Except.ok.inj sameID).trans front
    have writing := housed.writing tx opened
    have late : tx.txnID ≠ 0 := by
      intro zero
      have next := writing.next
      rw [← writing.txnID_eq, zero] at next
      exact absurd next (Nat.succ_ne_zero _).symm
    have listed := Store.locate_eq_none_iff housed.holds
      (session.target recID)
    simp only [Session.shelve, opened] at housedNow
    refine ⟨taller, _, ⟨housedNow, dated.write late recID _⟩,
      fun twice => twice.cons _, fun single => ?_⟩
    rw [target]
    by_cases missing : shelf (session.target recID) = none
    · refine .inl ⟨listed.mpr missing, ?_⟩
      rw [putOnly missing]
      refine single.put missing ?_
      unfold Session.target
      split
      · next named => exact named
      · exact nextID_valid small
    · exact .inr ⟨fun first => missing (listed.mp first),
        single.twice missing⟩
  · rw [same] at housedNow
    have first : Session.First action session := by
      unfold Session.Step at taken
      cases action with
      | write payload recID =>
          obtain ⟨_, id, _, _, _, _, rfl⟩ := Session.write_taken taken
          exact absurd (congrArg List.length log) (Nat.succ_ne_self _)
      | _ => exact trivial
    refine ⟨taller, shelf, ⟨housedNow, dated⟩, ?_, ?_⟩
    · rw [log]
      exact id
    · rw [log]
      exact fun single => .inl ⟨first, single⟩

theorem stays_twice (course : Course session tall shelf)
    (twice : Twice session.log) {actions : List Session.Action}
    {final : Session}
    (execution : Execution (Guarded Session.Affords Session.Step) session
      actions final) :
    ∃ taller changed, Course final taller changed ∧ Twice final.log := by
  refine @Execution.invariant _ _ _ (fun reached => ∃ taller changed,
    Course reached taller changed ∧ Twice reached.log) _ _ _ execution ?_
    ⟨tall, shelf, course, twice⟩
  rintro action start next ⟨_, _, before, many⟩ ⟨affords, taken⟩
  obtain ⟨taller, changed, now, grows, _⟩ := before.step affords taken
  exact ⟨taller, changed, now, grows many⟩

/-- In a run from single records on, all writes are first ones and the records
stay single, or some record gets two versions. -/
theorem run (course : Course session tall shelf)
    (single : Single session.log shelf) {actions : List Session.Action}
    {final : Session}
    (execution : Execution (Guarded Session.Affords Session.Step) session
      actions final) :
    ∃ taller changed, Course final taller changed ∧
      (Execution (Guarded Session.Fresh Session.Step) session actions final ∧
          Single final.log changed ∨
        ¬ Execution (Guarded Session.Fresh Session.Step) session actions
            final ∧ Twice final.log) := by
  induction execution generalizing tall shelf with
  | nil session => exact ⟨tall, shelf, course, .inl ⟨.nil session, single⟩⟩
  | @cons action rest start next final first later inductionHypothesis =>
      obtain ⟨affords, taken⟩ := first
      obtain ⟨taller, changed, courseNext, _, split⟩ :=
        course.step affords taken
      rcases split single with ⟨isFirst, singleNext⟩ | ⟨notFirst, twice⟩
      · obtain ⟨highest, last, courseLast, either⟩ :=
          inductionHypothesis courseNext singleNext
        refine ⟨highest, last, courseLast, either.imp ?_ ?_⟩
        · rintro ⟨fresh, singleLast⟩
          exact ⟨.cons ⟨⟨affords, isFirst⟩, taken⟩ fresh, singleLast⟩
        · rintro ⟨notFresh, twice⟩
          refine ⟨fun fresh => ?_, twice⟩
          cases fresh with
          | cons head tail =>
              have same := Option.some.inj (taken.symm.trans head.2)
              exact notFresh (same ▸ tail)
      · obtain ⟨highest, last, courseLast, twiceLast⟩ :=
          courseNext.stays_twice twice later
        refine ⟨highest, last, courseLast, .inr ⟨fun fresh => ?_, twiceLast⟩⟩
        cases fresh with
        | cons head _ => exact notFirst head.1.2

theorem chained (course : Course session tall shelf)
    (single : Single session.log shelf) : session.Chained := by
  intro id written
  rcases single id with ⟨unwritten, _⟩ | ⟨version, once, valid, stands⟩
  · exact absurd unwritten written
  have keeps := course.housed.holds.keeps
  have found := Store.versionAt_spec keeps stands
  refine ⟨[⟨id, _, _⟩], ⟨.link valid found (.last fun both => both.1 rfl), ?_,
    ?_, ?_, ?_, ?_⟩⟩
  · exact List.nodup_singleton _
  · rw [once]
    refine .cons ⟨rfl, rfl, ?_, rfl⟩ .nil
    cases payload : version.payload with
    | none => exact decide_eq_true ((newFlags_spec _).1.mpr payload)
    | some data =>
        refine decide_eq_false fun set => ?_
        have none := (newFlags_spec _).1.mp set
        rw [payload] at none
        cases none
  · exact .singleton _
  · exact .singleton _
  · intro link member
    cases member
    rfl

theorem not_chained (course : Course session tall shelf)
    (twice : Twice session.log) : ¬ session.Chained := by
  intro chained
  obtain ⟨id, many⟩ := twice
  have keeps := course.housed.holds.keeps
  obtain ⟨links, wellFormed⟩ := chained id fun none => by
    rw [none] at many
    exact absurd many (by decide)
  have ends := wellFormed.superseded
  rw [← wellFormed.lists.length_eq] at many
  match links, wellFormed.chain, many with
  | [], _, many => exact absurd many (by decide)
  | [_], _, many => exact absurd (show 2 ≤ 1 from many) (by decide)
  | _ :: _ :: _, .link _ front (.link _ behind _), _ =>
      obtain ⟨newer, newerStands, rfl⟩ := Store.versionAt_stands keeps front
      obtain ⟨older, _, rfl⟩ := Store.versionAt_stands keeps behind
      have ended : (0 : TxnID) = newer.version.txnID :=
        (List.isChain_cons_cons.mp ends).1
      exact course.dated newerStands ended.symm

end Course

end CocoDB.Record
