import CocoDB.Record.Writes

/-!
# The store as a shelf

A call of the record store does to its pages what the same call does to a shelf.
The identifiers of the store are those of the shelf: a new one is taken for a new
record and for a version that is put behind a newer one.
-/

namespace CocoDB.Record

open Lib LawfulPager DefaultPager BTree

namespace Shelf

/-- The version under the identifier goes behind, under a new identifier. -/
def supersede (recID : RecordID) (nextID : UInt64) (shelf : Shelf) :
    RecordID × UInt64 × Shelf :=
  match shelf recID with
  | none => (invalidRecordID, nextID, shelf)
  | some old =>
      (nextID + 1, nextID + 1, Function.update shelf (nextID + 1) (some old))

def put (recID prev : RecordID) (version : Version) (shelf : Shelf) : Shelf :=
  Function.update shelf recID (some ⟨recID, prev, version⟩)

def write (version : Version) (recID : RecordID) (nextID : UInt64)
    (shelf : Shelf) : RecordID × UInt64 × Shelf :=
  if recID ≠ invalidRecordID ∧ recID ≠ 0 then
    let (prev, counter, behind) := shelf.supersede recID nextID
    (recID, counter, behind.put recID prev version)
  else
    (nextID + 1, nextID + 1, shelf.put (nextID + 1) invalidRecordID version)

variable {shelf : Shelf} {version : Version} {recID id : RecordID}
  {nextID : UInt64} {entry : Entry}

theorem write_new (version : Version) (nextID : UInt64) (shelf : Shelf)
    (unnamed : ¬ (recID ≠ invalidRecordID ∧ recID ≠ 0)) :
    shelf.write version recID nextID = (nextID + 1, nextID + 1,
      shelf.put (nextID + 1) invalidRecordID version) := by
  unfold write
  rw [if_neg unnamed]

theorem write_first (version : Version) (nextID : UInt64)
    (named : recID ≠ invalidRecordID ∧ recID ≠ 0)
    (missing : shelf recID = none) :
    shelf.write version recID nextID =
      (recID, nextID, shelf.put recID invalidRecordID version) := by
  unfold write supersede
  rw [if_pos named, missing]

theorem write_again (version : Version) (nextID : UInt64)
    (named : recID ≠ invalidRecordID ∧ recID ≠ 0)
    (found : shelf recID = some entry) :
    shelf.write version recID nextID =
      (recID, nextID + 1, Shelf.put recID (nextID + 1) version
        (Function.update shelf (nextID + 1) (some entry))) := by
  unfold write supersede
  rw [if_pos named, found]

theorem write_cases (version : Version) (recID : RecordID) (nextID : UInt64)
    (shelf : Shelf) :
    (¬ (recID ≠ invalidRecordID ∧ recID ≠ 0) ∧
        shelf.write version recID nextID = (nextID + 1, nextID + 1,
          shelf.put (nextID + 1) invalidRecordID version)) ∨
      ((recID ≠ invalidRecordID ∧ recID ≠ 0) ∧ shelf recID = none ∧
        shelf.write version recID nextID =
          (recID, nextID, shelf.put recID invalidRecordID version)) ∨
      ((recID ≠ invalidRecordID ∧ recID ≠ 0) ∧ ∃ old,
        shelf recID = some old ∧ shelf.write version recID nextID =
          (recID, nextID + 1, Shelf.put recID (nextID + 1) version
            (Function.update shelf (nextID + 1) (some old)))) := by
  by_cases named : recID ≠ invalidRecordID ∧ recID ≠ 0
  · cases found : shelf recID with
    | none => exact .inr (.inl ⟨named, rfl, write_first _ _ named found⟩)
    | some old =>
        exact .inr (.inr ⟨named, old, rfl, write_again _ _ named found⟩)
  · exact .inl ⟨named, write_new _ _ _ named⟩

theorem put_self (shelf : Shelf) (recID prev : RecordID) (version : Version) :
    shelf.put recID prev version recID = some ⟨recID, prev, version⟩ :=
  Function.update_self ..

theorem put_of_ne {prev : RecordID} (different : id ≠ recID) :
    shelf.put recID prev version id = shelf id :=
  Function.update_of_ne different ..

theorem write_entry (stands : (shelf.write version recID nextID).2.2 id =
      some entry) : entry.version = version ∨ ∃ old, shelf old = some entry := by
  have put : ∀ {before : Shelf} {target prev : RecordID},
      before.put target prev version id = some entry →
      entry.version = version ∨ before id = some entry := by
    intro before target prev known
    by_cases same : id = target
    · rw [same, put_self] at known
      exact .inl (congrArg Entry.version (Option.some.inj known)).symm
    · rw [put_of_ne same] at known
      exact .inr known
  rcases write_cases version recID nextID shelf with ⟨_, shape⟩ |
    ⟨_, _, shape⟩ | ⟨_, old, found, shape⟩
  · rw [shape] at stands
    exact (put stands).imp_right fun before => ⟨id, before⟩
  · rw [shape] at stands
    exact (put stands).imp_right fun before => ⟨id, before⟩
  · rw [shape] at stands
    refine (put stands).imp_right fun before => ?_
    by_cases same : id = nextID + 1
    · rw [same, Function.update_self] at before
      exact ⟨recID, found.trans before⟩
    · rw [Function.update_of_ne same] at before
      exact ⟨id, before⟩

end Shelf

theorem nextID_valid {nextID : UInt64} (small : nextID.toNat + 2 < 2 ^ 64) :
    nextID + 1 ≠ invalidRecordID ∧ nextID + 1 ≠ 0 := by
  have value : (nextID + 1).toNat = nextID.toNat + 1 :=
    toNat_succ64 (by omega)
  refine ⟨fun same => ?_, fun same => ?_⟩
  · have number : (nextID + 1).toNat = 2 ^ 64 - 1 := by
      rw [same]
      rfl
    omega
  · have number : (nextID + 1).toNat = 0 := by
      rw [same]
      rfl
    omega

/-! ## Calls of the store -/

structure Holds (store : Store) (tall : Nat) (shelf : Shelf) : Prop where
  keeps : Keeps store.tree tall shelf
  active : Active store.pager store.activePages

structure Moves (before after : Store) (cost : Nat) : Prop where
  manager : after.manager = before.manager.setPager after.pager
  advances : Advances before.pager after.pager cost

section Moves

variable {store middle after : Store} {cost more tall : Nat} {shelf : Shelf}

theorem Moves.trans (first : Moves store middle cost)
    (second : Moves middle after more) : Moves store after (cost + more) := by
  refine ⟨?_, first.advances.trans second.advances⟩
  rw [second.manager, first.manager]
  rfl

theorem Moves.afford (moves : Moves store after cost) (enough : cost ≤ more) :
    Moves store after more :=
  ⟨moves.manager, moves.advances.afford enough⟩

theorem Moves.of_works {pager : DefaultPager}
    (works : Works store.pager pager cost) :
    Moves store (store.setPager pager) cost :=
  ⟨rfl, works.toAdvances⟩

theorem Holds.sound (holds : Holds store tall shelf) : store.pager.Sound :=
  holds.keeps.sound

theorem Holds.works (holds : Holds store tall shelf) {pager : DefaultPager}
    (works : Works store.pager pager cost) :
    Holds (store.setPager pager) tall shelf :=
  ⟨holds.keeps.frames works.frames, holds.active.advance holds.sound works.toAdvances⟩

theorem Holds.manager (holds : Holds store tall shelf) {manager : TxnManager}
    (frames : Frames store.pager manager.pager)
    (objects : ∀ {id ref}, store.pager.objectOf id = some ref →
      manager.pager.objectOf id = some ref) :
    Holds { store with manager := manager } tall shelf :=
  ⟨holds.keeps.frames frames,
    holds.active.preserves holds.sound frames.toPreserves objects⟩

theorem Holds.rise (holds : Holds store tall shelf) {taller : Nat}
    (higher : tall ≤ taller) : Holds store taller shelf := by
  obtain ⟨dir, lists, each⟩ := holds.keeps.filed
  exact ⟨⟨dir, lists.rise higher, each⟩, holds.active⟩

theorem Holds.cap (holds : Holds store tall shelf) :
    Holds store (min tall store.pager.info.nextPageID.toNat) shelf := by
  obtain ⟨dir, lists, each⟩ := holds.keeps.filed
  exact ⟨⟨dir, lists.cap, each⟩, holds.active⟩

theorem Holds.count (holds : Holds store tall shelf) (nextID : UInt64) :
    Holds { store with nextID := nextID } tall shelf :=
  ⟨holds.keeps, holds.active⟩

end Moves

namespace Store

variable {store : Store} {tall : Nat} {shelf : Shelf} {tx : Transaction}

theorem locate_eq_none_iff (holds : Holds store tall shelf) (id : RecordID) :
    (store.locate id).1 = .ok none ↔ shelf id = none := by
  rcases find_spec holds.keeps id with ⟨located, locateEq, missing, _⟩ |
    ⟨entry, loc, ref, located, opened, locateEq, _, stands, _⟩
  · rw [locateEq]
    exact ⟨fun _ => missing, fun _ => rfl⟩
  · rw [locateEq, stands]
    exact ⟨fun none => (nomatch Except.ok.inj none), fun none =>
      (nomatch none)⟩

theorem enlist_spec (holds : Holds store tall shelf) (id : RecordID)
    {loc : Location} {entry : Entry} (filed : Filed store.pager loc entry)
    (small : loc.slot < 65536)
    (roomy : store.pager.info.nextPageID.toNat + tall + 3 ≤ 2 ^ 64) :
    ∃ after, store.enlist id loc = (.ok (), after) ∧
      Moves store after (tall + 2) ∧
      after.nextID = store.nextID ∧
      Holds after (tall + 1) (Function.update shelf id (some entry)) := by
  obtain ⟨dir, lists, each⟩ := holds.keeps.filed
  obtain ⟨done, listed, advances⟩ := Directory.put_spec lists id small roomy
  unfold enlist
  rcases outcome : Directory.put id loc store.tree with ⟨result, tree⟩
  rw [outcome] at done listed advances
  simp only at done listed advances
  subst done
  refine ⟨_, rfl, ⟨rfl, advances⟩, rfl, ⟨_, listed, fun other => ?_⟩,
    holds.active.advance holds.sound advances⟩
  by_cases same : other = id
  · subst same
    rw [Function.update_self, Function.update_self]
    exact .inr ⟨loc, entry, rfl, rfl, filed.advance advances.toPreserves⟩
  · rw [Function.update_of_ne same, Function.update_of_ne same]
    rcases each other with missing | ⟨place, old, found, stands, before⟩
    · exact .inl missing
    · exact .inr ⟨place, old, found, stands, before.advance advances.toPreserves⟩

theorem supersede_spec (holds : Holds store tall shelf)
    (engaged : Engaged store.pager tx) (recID : RecordID)
    (roomy : store.pager.info.nextPageID.toNat + tall + 3 ≤ 2 ^ 64) :
    ∃ tracked after, store.supersede recID tx =
        ((shelf.supersede recID store.nextID).1, tracked, after) ∧
      Tracked tx tracked ∧ Engaged after.pager tracked ∧
      Moves store after (tall + 2) ∧
      after.nextID = (shelf.supersede recID store.nextID).2.1 ∧
      Holds after (tall + 1) (shelf.supersede recID store.nextID).2.2 := by
  unfold supersede Shelf.supersede
  rcases find_spec holds.keeps recID with ⟨located, locateEq, none, works⟩ |
    ⟨entry, loc, ref, located, opened, locateEq, openEq, stands, found⟩
  · rw [locateEq, none]
    exact ⟨tx, _, rfl, .refl tx, engaged.continues works.continues,
      (Moves.of_works works).afford (Nat.zero_le _), rfl, (holds.works works).rise (Nat.le_succ _)⟩
  · obtain ⟨body, bytes, _⟩ := found.bytes
    have info : opened.info.nextPageID.toNat ≤
        store.pager.info.nextPageID.toNat := found.works.count
    obtain ⟨tracked, trackEq, tracks, engagedNow⟩ :=
      (engaged.continues found.works.continues).trackDirty found.works.sound
        found.object
    obtain ⟨after, enlistEq, moves, nextEq, holdsNow⟩ := enlist_spec
      ((holds.works found.works).count (store.nextID + 1)) (store.nextID + 1)
      found.filed found.small (show opened.info.nextPageID.toNat + tall + 3 ≤ _
        by omega)
    rw [locateEq, stands]
    simp only
    rw [openEq]
    simp only
    rw [show (store.setPager opened).pager.heap ref = opened.heap ref from rfl,
      bytes]
    have trackNow : (store.setPager opened).track ref tx = tracked := by
      unfold Store.track
      rw [show (store.setPager opened).pager = opened from rfl, trackEq]
    simp only [Header.decode_encode, allocateID]
    refine ⟨tracked, after, ?_, tracks, engagedNow.continues
      moves.advances.continues, ?_, nextEq, holdsNow⟩
    · rw [trackNow, show (store.setPager opened).nextID = store.nextID from
        rfl, enlistEq]
    · have whole := (Moves.of_works found.works).trans
        (⟨moves.manager, moves.advances⟩ : Moves (store.setPager opened) after
          (tall + 2))
      exact whole.afford (by omega)

theorem writeBody_spec (holds : Holds store tall shelf)
    (engaged : Engaged store.pager tx) (payload : Option Bytes)
    (short : (payload.getD []).length < 2 ^ 32)
    (roomy : store.pager.info.nextPageID.toNat + (payload.getD []).length <
      2 ^ 64) :
    ∃ body tracked after, store.writeBody tx payload =
        (.ok body, tracked, store.setPager after) ∧
      Tracked tx tracked ∧ Engaged after tracked ∧
      Works store.pager after (payload.getD []).length ∧
      body.length ≤ maxInlinePayload ∧ Body after (payload.getD []) body := by
  unfold writeBody
  simp only
  generalize payload.getD [] = data at short roomy ⊢
  by_cases long : maxInlinePayload < data.length
  · obtain ⟨first, after, tracked, spillEq, track, engagedNow, spills⟩ :=
      @spill_spec data.length tx data invalidPageID none store engaged
        holds.sound (Nat.le_refl _) roomy fun known => (nomatch known)
    have untouched : linkedTo store.pager none ⊆ ∅ := by
      rintro id ⟨ref, known, _⟩
      cases known
    rw [if_pos long, writeOverflowChain, spillEq]
    refine ⟨_, tracked, after, rfl, track, engagedNow,
      .of_evolves (spills.evolves.mono untouched) spills.continues, ?_,
      body_overflow long short spills.spilled⟩
    rw [List.length_append, be_length, be_length]
    decide
  · rw [if_neg long]
    exact ⟨data, tx, store.pager, rfl, .refl tx, engaged,
      (Works.refl holds.sound).afford (Nat.zero_le _), Nat.not_lt.mp long,
      body_inline long⟩

theorem writeVersion_spec (holds : Holds store tall shelf)
    (engaged : Engaged store.pager tx) (recID prev : RecordID)
    (payload : Option Bytes) (short : (payload.getD []).length < 2 ^ 32)
    (roomy : store.pager.info.nextPageID.toNat +
      (payload.getD []).length + tall + 4 ≤ 2 ^ 64) :
    ∃ tracked after, store.writeVersion recID prev tx payload =
        (.ok recID, tracked, after) ∧
      Tracked tx tracked ∧ Engaged after.pager tracked ∧
      Moves store after ((payload.getD []).length + tall + 3) ∧
      after.nextID = store.nextID ∧
      Holds after (tall + 1) (shelf.put recID prev ⟨tx.txnID, payload⟩) := by
  obtain ⟨body, tracked, spilled, bodyEq, track, engagedBody, worksBody,
    size, shape⟩ := writeBody_spec holds engaged payload short (by omega)
  have holdsBody := holds.works worksBody
  have countBody := worksBody.count
  have length : ((newHeader recID prev tx.txnID payload).encode ++
      body).length ≤ 4040 := by
    rw [List.length_append, Header.encode_length]
    unfold maxInlinePayload at size
    unfold recordHeaderSize
    omega
  obtain ⟨ref, slot, last, filled, slotEq, sameStore, trackSlot, engagedSlot,
    worksSlot, active, placed⟩ := @allocateRecordSlot_spec
      (store.setPager spilled) tracked _ holdsBody.sound holdsBody.active
      engagedBody length (show spilled.info.nextPageID.toNat + 1 < _ by omega)
  have countSlot : filled.pager.info.nextPageID.toNat ≤
      spilled.info.nextPageID.toNat + 1 := worksSlot.count
  obtain ⟨id, object, page⟩ := placed.page
  have held := worksSlot.sound.held_object object
  have pageID : (filled.pager.heap ref).header.id = id := by
    rw [← pageOf_object object]
    exact worksSlot.sound.pageOf_id held
  have filed : Filed filled.pager ⟨id, slot⟩
      ⟨recID, prev, ⟨tx.txnID, payload⟩⟩ := by
    refine ⟨held, page, body, ?_, shape.advance worksSlot.toPreserves⟩
    rw [pageOf_object object]
    exact placed.content
  have movesSlot : Moves store filled ((payload.getD []).length + 1) := by
    refine ⟨?_, worksBody.toAdvances.trans worksSlot.toAdvances⟩
    rw [sameStore]
    rfl
  have holdsSlot : Holds filled tall shelf := by
    refine ⟨?_, active⟩
    rw [sameStore]
    exact (holdsBody.works worksSlot).keeps
  obtain ⟨after, enlistEq, moves, nextEq, holdsNow⟩ :=
    enlist_spec holdsSlot recID filed placed.small (by omega)
  refine ⟨last, after, ?_, track.trans trackSlot, engagedSlot.continues
    moves.advances.continues, (movesSlot.trans moves).afford (by omega), ?_,
    holdsNow⟩
  · unfold writeVersion
    simp only [bodyEq, slotEq, pageID, enlistEq]
  · rw [nextEq, sameStore]
    rfl

theorem writeRecord_spec (holds : Holds store tall shelf)
    (engaged : Engaged store.pager tx) (recID : RecordID)
    (payload : Option Bytes) (short : (payload.getD []).length < 2 ^ 32)
    (roomy : store.pager.info.nextPageID.toNat + (payload.getD []).length +
      2 * tall + 7 ≤ 2 ^ 64) :
    ∃ tracked after, store.writeRecord tx payload recID =
        (.ok (shelf.write ⟨tx.txnID, payload⟩ recID store.nextID).1, tracked,
          after) ∧
      Tracked tx tracked ∧ Engaged after.pager tracked ∧
      Moves store after ((payload.getD []).length + 2 * tall + 6) ∧
      after.nextID =
        (shelf.write ⟨tx.txnID, payload⟩ recID store.nextID).2.1 ∧
      Holds after (tall + 2)
        (shelf.write ⟨tx.txnID, payload⟩ recID store.nextID).2.2 := by
  unfold writeRecord Shelf.write
  by_cases named : recID ≠ invalidRecordID ∧ recID ≠ 0
  · rw [if_pos named, if_pos named]
    obtain ⟨tracked, behind, behindEq, track, engagedFirst, movesFirst,
      nextFirst, holdsFirst⟩ :=
        supersede_spec holds engaged recID (by omega)
    have count := movesFirst.advances.count
    obtain ⟨last, after, writeEq, trackLast, engagedLast, moves, nextEq,
      holdsNow⟩ := writeVersion_spec holdsFirst engagedFirst recID
        (shelf.supersede recID store.nextID).1 payload short (by omega)
    rw [track.txnID_eq] at holdsNow
    simp only [behindEq, writeEq]
    exact ⟨last, after, rfl, track.trans trackLast, engagedLast,
      (movesFirst.trans moves).afford (by omega), nextEq.trans nextFirst,
      holdsNow⟩
  · rw [if_neg named, if_neg named]
    obtain ⟨last, after, writeEq, trackLast, engagedLast, moves, nextEq,
      holdsNow⟩ := writeVersion_spec (holds.count (store.nextID + 1)) engaged
        (store.nextID + 1) invalidRecordID payload short
        (show store.pager.info.nextPageID.toNat + _ + tall + 4 ≤ _ by omega)
    simp only [allocateID, writeEq]
    refine ⟨last, after, rfl, trackLast, engagedLast, ?_, nextEq,
      holdsNow.rise (Nat.le_succ _)⟩
    have whole : Moves store after ((payload.getD []).length + tall + 3) :=
      ⟨moves.manager, moves.advances⟩
    exact whole.afford (by omega)

end Store

end CocoDB.Record
