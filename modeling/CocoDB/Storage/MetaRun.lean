import CocoDB.Lib.Run
import CocoDB.Storage.MetaSlots

/-!
# Saving the meta page through crashes

A database file is closed or open.  While it is open its meta page is changed and
saved; a crash during `SaveMeta` leaves the slot being written unreadable or
wholly written, and the file is opened again.  Next to the file stands the meta
page that was saved last.
-/

namespace CocoDB.DefaultPager

open Lib

/-- The meta page the next `SaveMeta` writes. -/
def nextMeta (pager : DefaultPager) : MetaPage :=
  { pager.info with generation := pager.info.generation + 1 }

/-- The write the next `SaveMeta` makes. -/
def metaWrite (pager : DefaultPager) : Write :=
  ⟨(otherSlot pager.activeMetaSlot).val * defaultPageSize,
    pager.nextMeta.encode⟩

inductive MetaPhase where
  | closed (contents : Contents)
  | opened (pager : DefaultPager)

def MetaPhase.contents : MetaPhase → Contents
  | .closed contents => contents
  | .opened pager => pager.backend.contents

/-- A database file and the meta page that was last saved in it. -/
structure MetaFile where
  phase : MetaPhase
  saved : MetaPage

inductive MetaAction where
  | change (info : MetaPage)
  | save
  | crashTorn
  | crashWritten
  | close
  | reopen (cacheBytes : Nat) (readOnly : Bool)

def MetaAction.isSave : MetaAction → Bool
  | .save => true
  | .crashWritten => true
  | _ => false

inductive MetaStep : MetaAction → MetaFile → MetaFile → Prop
  | change {pager : DefaultPager} {saved : MetaPage} (info : MetaPage)
      (sized : info.databaseID.length = 16) :
      MetaStep (.change info) ⟨.opened pager, saved⟩
        ⟨.opened { pager with info := info }, saved⟩
  | save {pager : DefaultPager} {saved : MetaPage}
      (writable : pager.readOnly = false) :
      MetaStep .save ⟨.opened pager, saved⟩
        ⟨.opened pager.saveMeta, pager.saveMeta.info⟩
  | saveReadOnly {pager : DefaultPager} {saved : MetaPage}
      (reading : pager.readOnly = true) :
      MetaStep .save ⟨.opened pager, saved⟩ ⟨.opened pager.saveMeta, saved⟩
  | crashTorn {pager : DefaultPager} {saved : MetaPage} {after : Contents}
      (writable : pager.readOnly = false)
      (torn : TornWrite pager.backend.contents pager.metaWrite after)
      (unreadable : readMeta (.ofContents after)
        (otherSlot pager.activeMetaSlot) = none) :
      MetaStep .crashTorn ⟨.opened pager, saved⟩ ⟨.closed after, saved⟩
  | crashWritten {pager : DefaultPager} {saved : MetaPage}
      (writable : pager.readOnly = false) :
      MetaStep .crashWritten ⟨.opened pager, saved⟩
        ⟨.closed pager.saveMeta.backend.contents, pager.saveMeta.info⟩
  | close {pager : DefaultPager} {saved : MetaPage} :
      MetaStep .close ⟨.opened pager, saved⟩
        ⟨.closed pager.backend.contents, saved⟩
  | reopen {contents : Contents} {saved : MetaPage} {cacheBytes : Nat}
      {readOnly : Bool} {randomA randomB : Bytes} {pager : DefaultPager}
      (succeeds : openPager (.ofContents contents) cacheBytes readOnly
        randomA randomB = .ok pager) :
      MetaStep (.reopen cacheBytes readOnly) ⟨.closed contents, saved⟩
        ⟨.opened pager, saved⟩

def saveCount (actions : List MetaAction) : Nat :=
  actions.countP MetaAction.isSave

def Keeps : MetaAction → MetaFile → Prop
  | .change info, ⟨.opened pager, _⟩ =>
      info.generation = pager.info.generation ∧
        info.pageSize = pager.info.pageSize
  | _, _ => True

/-- The next `SaveMeta` overwrites the other slot and nothing else. -/
def SparesSlot (slot : Fin 2) (pager : DefaultPager) : Prop :=
  pager.saveMeta.backend.contents =
      pager.backend.contents.write
        ⟨(otherSlot slot).val * defaultPageSize,
          pager.saveMeta.info.encode⟩ ∧
    ∀ position, slot.val * defaultPageSize ≤ position →
      position < slot.val * defaultPageSize + defaultPageSize →
      pager.saveMeta.backend.contents.data position =
        pager.backend.contents.data position

/-- `OpenPager` finds the meta page that was last saved, and neither the pager it
returns nor the one that is open writes over that meta page. -/
def Survives (file : MetaFile) : Prop :=
  ∃ slot : Fin 2,
    (∀ cacheBytes readOnly randomA randomB, ∃ pager : DefaultPager,
      openPager (.ofContents file.phase.contents) cacheBytes readOnly
        randomA randomB = .ok pager ∧
      pager.info = file.saved ∧ pager.activeMetaSlot = slot ∧
      (readOnly = false → SparesSlot slot pager)) ∧
    ∀ pager, file.phase = .opened pager → pager.readOnly = false →
      SparesSlot slot pager

/-! ## The invariant -/

/-- After so many saves: one slot holds the last saved meta page, the other one
is unreadable or older, and an open pager knows which is which. -/
structure Alternates (count : Nat) (slot : Fin 2) (file : MetaFile) :
    Prop where
  large : 2 * defaultPageSize ≤ file.phase.contents.size
  current : readMeta (.ofContents file.phase.contents) slot = some file.saved
  formed : file.saved.WellFormed
  older : ∀ info, readMeta (.ofContents file.phase.contents)
    (otherSlot slot) = some info → info.generation < file.saved.generation
  counted : file.saved.generation.toNat ≤ 1 + count
  active : ∀ pager, file.phase = .opened pager →
    pager.activeMetaSlot = slot ∧
      pager.info.generation = file.saved.generation ∧ pager.info.WellFormed

section Invariant

variable {count : Nat} {slot : Fin 2} {file : MetaFile} {pager : DefaultPager}
  {saved : MetaPage}

theorem saveMeta_info (writable : pager.readOnly = false) :
    pager.saveMeta.info = pager.nextMeta := by
  simp [saveMeta, nextMeta, writable]

theorem saveMeta_contents (writable : pager.readOnly = false) :
    pager.saveMeta.backend.contents =
      pager.backend.contents.write pager.metaWrite := by
  simp [saveMeta, nextMeta, metaWrite, writable, Backend.sync]

theorem saveMeta_activeMetaSlot (writable : pager.readOnly = false) :
    pager.saveMeta.activeMetaSlot = otherSlot pager.activeMetaSlot := by
  simp [saveMeta, writable]

theorem saveMeta_readOnly (pager : DefaultPager) :
    pager.saveMeta.readOnly = pager.readOnly := by
  unfold saveMeta
  split <;> rfl

theorem nextMeta_formed (formed : pager.info.WellFormed) :
    pager.nextMeta.WellFormed :=
  ⟨formed.databaseID_length, formed.pageSize_eq⟩

theorem chooseMeta_newer {backend : Backend}
    (current : readMeta backend slot = some saved)
    (older : ∀ info, readMeta backend (otherSlot slot) = some info →
      info.generation < saved.generation) :
    chooseMeta (readMeta backend 0) (readMeta backend 1) =
      some (saved, slot) := by
  have slots : ∀ slot : Fin 2, slot = 0 ∨ slot = 1 := by decide
  obtain rfl | rfl := slots slot
  · have other : otherSlot 0 = 1 := by decide
    rw [other] at older
    rw [current]
    cases read : readMeta backend 1 with
    | none => rfl
    | some info =>
        have less := older info read
        exact if_pos (UInt64.le_of_lt less)
  · have other : otherSlot 1 = 0 := by decide
    rw [other] at older
    rw [current]
    cases read : readMeta backend 0 with
    | none => rfl
    | some info =>
        have less := older info read
        exact if_neg (UInt64.not_le.mpr less)

theorem openPager_newer {contents : Contents}
    (large : 2 * defaultPageSize ≤ contents.size)
    (current : readMeta (.ofContents contents) slot = some saved)
    (older : ∀ info, readMeta (.ofContents contents) (otherSlot slot) =
      some info → info.generation < saved.generation)
    (cacheBytes : Nat) (readOnly : Bool) (randomA randomB : Bytes) :
    openPager (.ofContents contents) cacheBytes readOnly randomA randomB =
      .ok (fresh (.ofContents contents) saved slot cacheBytes readOnly) := by
  rw [openPager_eq large, chooseMeta_newer current older]

theorem Alternates.opens (alternates : Alternates count slot file)
    (cacheBytes : Nat) (readOnly : Bool) (randomA randomB : Bytes) :
    openPager (.ofContents file.phase.contents) cacheBytes readOnly
      randomA randomB =
        .ok (fresh (.ofContents file.phase.contents) file.saved slot
          cacheBytes readOnly) :=
  openPager_newer alternates.large alternates.current alternates.older
    cacheBytes readOnly randomA randomB

theorem sparesSlot (writable : pager.readOnly = false)
    (formed : pager.info.WellFormed) (active : pager.activeMetaSlot = slot) :
    SparesSlot slot pager := by
  refine ⟨?_, ?_⟩
  · rw [saveMeta_contents writable, saveMeta_info writable, metaWrite, active]
  · intro position lower upper
    rw [saveMeta_contents writable]
    refine Contents.write_data_outside _ ?_
    rintro ⟨reached, before⟩
    have different : slot.val ≠ (otherSlot slot).val :=
      fun same => other_ne slot (Fin.ext same)
    have disjoint := pages_disjoint defaultPageSize different
    simp only [metaWrite, (nextMeta_formed formed).encode_length, active]
      at reached before
    omega

theorem Alternates.survives (alternates : Alternates count slot file) :
    Survives file := by
  refine ⟨slot, ?_, ?_⟩
  · intro cacheBytes readOnly randomA randomB
    refine ⟨_, alternates.opens cacheBytes readOnly randomA randomB, rfl, rfl, ?_⟩
    intro writable
    exact sparesSlot writable alternates.formed rfl
  · intro pager opened writable
    obtain ⟨active, _, formed⟩ := alternates.active pager opened
    exact sparesSlot writable formed active

/-! ### Steps -/

theorem Alternates.written
    (alternates : Alternates count slot ⟨.opened pager, saved⟩)
    (few : 1 + count < 2 ^ 64 - 1) {phase : MetaPhase}
    (contents : phase.contents =
      pager.backend.contents.write pager.metaWrite)
    (active : ∀ next, phase = .opened next →
      next.activeMetaSlot = otherSlot slot ∧ next.info = pager.nextMeta) :
    Alternates (count + 1) (otherSlot slot) ⟨phase, pager.nextMeta⟩ := by
  obtain ⟨activeSlot, generation, formed⟩ := alternates.active pager rfl
  have nextFormed := nextMeta_formed formed
  have place : pager.metaWrite =
      ⟨(otherSlot slot).val * defaultPageSize, pager.nextMeta.encode⟩ := by
    rw [metaWrite, activeSlot]
  have large : 2 * defaultPageSize ≤
      (pager.backend.contents.write pager.metaWrite).size :=
    alternates.large.trans (Nat.le_max_left _ _)
  have counted : saved.generation.toNat ≤ 1 + count := alternates.counted
  have advanced : pager.nextMeta.generation.toNat =
      saved.generation.toNat + 1 := by
    show (pager.info.generation + 1).toNat = _
    rw [generation]
    have room : saved.generation.toNat + 1 < 2 ^ 64 := by omega
    exact toNat_succ64 room
  refine ⟨?_, ?_, nextFormed, ?_, ?_, ?_⟩
  · show 2 * defaultPageSize ≤ phase.contents.size
    rw [contents]
    exact large
  · show readMeta (.ofContents phase.contents) _ = _
    rw [contents]
    rw [place] at large ⊢
    exact readMeta_write nextFormed (otherSlot slot) large
  · intro info read
    have other : readMeta (.ofContents
        (pager.backend.contents.write pager.metaWrite)) slot = some saved := by
      rw [place]
      exact (readMeta_torn alternates.large nextFormed.databaseID_length
        (other_ne slot)
        (Contents.tornWrite_write _ _)).trans alternates.current
    change readMeta (.ofContents phase.contents) _ = _ at read
    rw [contents, other_other, other] at read
    rw [← Option.some.inj read]
    have less : saved.generation.toNat < pager.nextMeta.generation.toNat := by
      omega
    exact UInt64.lt_iff_toNat_lt.mpr less
  · show pager.nextMeta.generation.toNat ≤ 1 + (count + 1)
    omega
  · intro next opened
    obtain ⟨nextSlot, info⟩ := active next opened
    rw [info]
    exact ⟨nextSlot, rfl, nextFormed⟩

theorem Alternates.torn
    (alternates : Alternates count slot ⟨.opened pager, saved⟩)
    {after : Contents}
    (torn : TornWrite pager.backend.contents pager.metaWrite after)
    (unreadable : readMeta (.ofContents after)
      (otherSlot pager.activeMetaSlot) = none) :
    Alternates count slot ⟨.closed after, saved⟩ := by
  obtain ⟨activeSlot, _, formed⟩ := alternates.active pager rfl
  rw [metaWrite, activeSlot] at torn
  rw [activeSlot] at unreadable
  refine ⟨alternates.large.trans torn.size_ge, ?_, alternates.formed, ?_,
    alternates.counted, ?_⟩
  · exact (readMeta_torn alternates.large
      (nextMeta_formed formed).databaseID_length (other_ne slot) torn).trans alternates.current
  · intro info read
    exact absurd (unreadable.symm.trans read) nofun
  · intro pager opened
    cases opened

theorem Alternates.step {action : MetaAction} {next : MetaFile}
    (alternates : Alternates count slot file)
    (few : 1 + (count + saveCount [action]) < 2 ^ 64)
    (step : Guarded Keeps MetaStep action file next) :
    ∃ slot, Alternates (count + saveCount [action]) slot next := by
  obtain ⟨keeps, taken⟩ := step
  cases taken with
  | change info sized =>
      refine ⟨slot, alternates.large, alternates.current, alternates.formed,
        alternates.older, alternates.counted, ?_⟩
      intro pager opened
      obtain ⟨activeSlot, generation, formed⟩ := alternates.active _ rfl
      cases opened
      exact ⟨activeSlot, keeps.1.trans generation, sized,
        keeps.2.trans formed.pageSize_eq⟩
  | save writable =>
      obtain ⟨activeSlot, _, _⟩ := alternates.active _ rfl
      rw [saveMeta_info writable]
      refine ⟨otherSlot slot, alternates.written ?_
        (saveMeta_contents writable) ?_⟩
      · change 1 + (count + 1) < 2 ^ 64 at few
        omega
      · intro next opened
        cases opened
        exact ⟨(saveMeta_activeMetaSlot writable).trans (by rw [activeSlot]),
          saveMeta_info writable⟩
  | @saveReadOnly pager saved reading =>
      have same : pager.saveMeta = pager := if_pos reading
      rw [same]
      exact ⟨slot, alternates.large, alternates.current, alternates.formed,
        alternates.older, alternates.counted.trans (by omega),
        alternates.active⟩
  | crashTorn writable torn unreadable =>
      exact ⟨slot, alternates.torn torn unreadable⟩
  | crashWritten writable =>
      rw [saveMeta_info writable]
      refine ⟨otherSlot slot, alternates.written ?_
        (saveMeta_contents writable) ?_⟩
      · change 1 + (count + 1) < 2 ^ 64 at few
        omega
      · intro next opened
        cases opened
  | close =>
      refine ⟨slot, alternates.large, alternates.current, alternates.formed,
        alternates.older, alternates.counted, ?_⟩
      intro pager opened
      cases opened
  | reopen succeeds =>
      have opens := (alternates.opens _ _ _ _).symm.trans
        succeeds
      cases opens
      refine ⟨slot, alternates.large, alternates.current, alternates.formed,
        alternates.older, alternates.counted, ?_⟩
      intro pager opened
      cases opened
      exact ⟨rfl, rfl, alternates.formed⟩

theorem Alternates.execution {actions : List MetaAction} {final : MetaFile}
    (execution : Execution (Guarded Keeps MetaStep) file actions final)
    (alternates : Alternates count slot file)
    (few : 1 + (count + saveCount actions) < 2 ^ 64) :
    ∃ slot, Alternates (count + saveCount actions) slot final := by
  induction execution generalizing count slot with
  | nil file => exact ⟨slot, alternates⟩
  | @cons action rest start next final first _ inductionHypothesis =>
      have total : saveCount (action :: rest) =
          saveCount [action] + saveCount rest := by
        rw [← List.singleton_append]
        exact List.countP_append
      rw [total] at few ⊢
      obtain ⟨nextSlot, following⟩ := alternates.step (by omega) first
      obtain ⟨finalSlot, reached⟩ := inductionHypothesis following (by omega)
      exact ⟨finalSlot, by rwa [← Nat.add_assoc]⟩

end Invariant

section Runs

variable {cacheBytes : Nat} {randomA randomB : Bytes}

theorem created_alternates (sizedA : randomA.length = 16)
    (sizedB : randomB.length = 16) {pager : DefaultPager}
    (created : openPager (.ofContents .empty) cacheBytes false randomA
      randomB = .ok pager) :
    Alternates 0 slotA ⟨.opened pager, pager.info⟩ ∧
      pager.readOnly = false ∧ pager.info.generation = 1 := by
  have formedA := MetaPage.newInitial_wellFormed sizedA
  have formedB : ({ MetaPage.newInitial randomB with generation := 0 } :
      MetaPage).WellFormed := ⟨sizedB, rfl⟩
  obtain ⟨backend, contents, rfl⟩ := openPager_created created
  refine ⟨⟨?_, ?_, formedA, ?_, Nat.le_refl 1, ?_⟩, rfl, rfl⟩
  · show 2 * defaultPageSize ≤ backend.contents.size
    rw [contents, metaPair_size formedA formedB]
  · show readMeta (.ofContents backend.contents) slotA = _
    rw [contents, readMeta_metaPair_first formedA formedB]
    rfl
  · intro info read
    change readMeta (.ofContents backend.contents) _ = _ at read
    rw [contents, readMeta_metaPair_second formedA formedB] at read
    cases read
    exact (by decide : (0 : UInt64) < 1)
  · intro pager opened
    cases opened
    exact ⟨rfl, rfl, formedA⟩

/-- Through any run of changes, saves, crashes and reopens the last saved meta
page is the one that is found, and it is never written over. -/
theorem metaPages_survive (sizedA : randomA.length = 16)
    (sizedB : randomB.length = 16) {pager : DefaultPager}
    (created : openPager (.ofContents .empty) cacheBytes false randomA
      randomB = .ok pager)
    {actions : List MetaAction} {final : MetaFile}
    (execution : Execution (Guarded Keeps MetaStep)
      ⟨.opened pager, pager.info⟩ actions final)
    (few : saveCount actions < 2 ^ 64 - 1) : Survives final := by
  obtain ⟨start, _⟩ := created_alternates sizedA sizedB created
  obtain ⟨slot, reached⟩ := start.execution execution (by omega)
  exact reached.survives

/-- A change of the flags, a save, a save cut off by a crash, and a reopen. -/
theorem metaPages_survive_sample :
    ∃ pager final, openPager (.ofContents .empty) 0 false
        (List.replicate 16 0) (List.replicate 16 0) = .ok pager ∧
      Execution (Guarded Keeps MetaStep) ⟨.opened pager, pager.info⟩
        [.change { pager.info with flags := 5 }, .save, .crashWritten,
          .reopen 0 false] final ∧ Survives final := by
  obtain ⟨pager, created⟩ := openPager_empty 0 (List.replicate 16 0)
    (List.replicate 16 0)
  obtain ⟨start, writable, _⟩ := created_alternates rfl rfl created
  obtain ⟨_, _, formed⟩ := start.active pager rfl
  have kept : Guarded Keeps MetaStep
      (.change { pager.info with flags := 5 }) ⟨.opened pager, pager.info⟩
      ⟨.opened { pager with info := { pager.info with flags := 5 } },
        pager.info⟩ :=
    ⟨⟨rfl, rfl⟩, .change _ formed.databaseID_length⟩
  generalize changed : { pager with
    info := { pager.info with flags := 5 } } = marked at kept
  have markedWritable : marked.readOnly = false := by
    rw [← changed]
    exact writable
  have saves : Guarded Keeps MetaStep .save ⟨.opened marked, pager.info⟩
      ⟨.opened marked.saveMeta, marked.saveMeta.info⟩ :=
    ⟨trivial, .save markedWritable⟩
  have savedWritable : marked.saveMeta.readOnly = false := by
    rw [saveMeta_readOnly, markedWritable]
  have crashes : Guarded Keeps MetaStep .crashWritten
      ⟨.opened marked.saveMeta, marked.saveMeta.info⟩ _ :=
    ⟨trivial, .crashWritten savedWritable⟩
  have reached : Execution (Guarded Keeps MetaStep)
      ⟨.opened pager, pager.info⟩
      [.change { pager.info with flags := 5 }, .save, .crashWritten] _ :=
    .cons kept (.cons saves (.cons crashes (.nil _)))
  obtain ⟨_, alternates⟩ := start.execution reached
    (by simp [saveCount, List.countP_cons, MetaAction.isSave])
  have reopens := alternates.opens 0 false [] []
  have whole := reached.append
    (.cons (show Guarded Keeps MetaStep (.reopen 0 false) _ _ from
      ⟨trivial, .reopen reopens⟩) (.nil _))
  exact ⟨pager, _, created, whole,
    metaPages_survive rfl rfl created whole
      (by simp [saveCount, List.countP_cons, MetaAction.isSave])⟩

/-! ## Where it ends -/

/-- A written meta page that is not found: it is unreadable or older than the
one in the other slot. -/
theorem not_survives {pager : DefaultPager} {saved : MetaPage} {slot : Fin 2}
    (large : 2 * defaultPageSize ≤ pager.backend.contents.size)
    (current : readMeta (.ofContents pager.backend.contents) slot =
      some saved)
    (active : pager.activeMetaSlot = slot)
    (writable : pager.readOnly = false)
    (sized : pager.info.databaseID.length = 16)
    (hidden : ∀ info, (MetaPage.decode pager.nextMeta.encode).toOption =
      some info → info.generation < saved.generation)
    (different : saved ≠ pager.nextMeta) :
    ¬ Survives ⟨.opened pager.saveMeta, pager.saveMeta.info⟩ := by
  rintro ⟨_, opens, _⟩
  obtain ⟨found, succeeds, info, _⟩ := opens 0 false [] []
  have nextSized : pager.nextMeta.databaseID.length = 16 := sized
  have written := saveMeta_contents writable
  rw [metaWrite, active] at written
  have grown : 2 * defaultPageSize ≤
      (pager.backend.contents.write
        ⟨(otherSlot slot).val * defaultPageSize,
          pager.nextMeta.encode⟩).size :=
    large.trans (Nat.le_max_left _ _)
  have kept : readMeta (.ofContents pager.saveMeta.backend.contents) slot =
      some saved := by
    rw [written]
    exact (readMeta_torn large nextSized (other_ne slot)
      (Contents.tornWrite_write _ _)).trans current
  have older : ∀ info, readMeta
      (.ofContents pager.saveMeta.backend.contents) (otherSlot slot) =
        some info → info.generation < saved.generation := by
    intro info read
    rw [written, readMeta_write_slot nextSized _ grown] at read
    exact hidden info read
  have selected := openPager_newer (by rwa [written]) kept older 0 false [] []
  have same := selected.symm.trans succeeds
  cases same
  exact different (info.trans (saveMeta_info writable))

theorem not_survives_wrapped {pager : DefaultPager} {saved : MetaPage}
    {slot : Fin 2} (large : 2 * defaultPageSize ≤ pager.backend.contents.size)
    (current : readMeta (.ofContents pager.backend.contents) slot =
      some saved)
    (active : pager.activeMetaSlot = slot)
    (writable : pager.readOnly = false) (formed : pager.info.WellFormed)
    (positive : 0 < saved.generation)
    (wrapped : pager.nextMeta.generation = 0) :
    ¬ Survives ⟨.opened pager.saveMeta, pager.saveMeta.info⟩ := by
  refine not_survives large current active writable formed.databaseID_length
    ?_ ?_
  · intro info read
    rw [(nextMeta_formed formed).decode_encode] at read
    rw [← Option.some.inj read, wrapped]
    exact positive
  · intro same
    rw [same, wrapped] at positive
    exact absurd positive (by decide)

theorem not_survives_unsized {pager : DefaultPager} {saved : MetaPage}
    {slot : Fin 2} (large : 2 * defaultPageSize ≤ pager.backend.contents.size)
    (current : readMeta (.ofContents pager.backend.contents) slot =
      some saved)
    (active : pager.activeMetaSlot = slot)
    (writable : pager.readOnly = false)
    (sized : pager.info.databaseID.length = 16)
    (unsized : pager.info.pageSize = 0) (positive : saved.pageSize ≠ 0) :
    ¬ Survives ⟨.opened pager.saveMeta, pager.saveMeta.info⟩ := by
  have nextSized : pager.nextMeta.databaseID.length = 16 := sized
  have nextUnsized : pager.nextMeta.pageSize = 0 := unsized
  refine not_survives large current active writable sized ?_ ?_
  · intro info read
    rw [MetaPage.decode_encode_unsized nextSized nextUnsized] at read
    cases read
  · intro same
    rw [same] at positive
    exact positive nextUnsized

theorem saves_only (sizedA : randomA.length = 16)
    (sizedB : randomB.length = 16) {pager : DefaultPager}
    (created : openPager (.ofContents .empty) cacheBytes false randomA
      randomB = .ok pager) (count : Nat) (few : 1 + count < 2 ^ 64) :
    ∃ slot final,
      Execution (Guarded Keeps MetaStep) ⟨.opened pager, pager.info⟩
        (List.replicate count .save) ⟨.opened final, final.info⟩ ∧
      Alternates count slot ⟨.opened final, final.info⟩ ∧
      final.readOnly = false ∧
      final.info.generation.toNat = 1 + count := by
  induction count with
  | zero =>
      obtain ⟨start, writable, generation⟩ :=
        created_alternates sizedA sizedB created
      exact ⟨slotA, pager, .nil _, start, writable, by rw [generation]; rfl⟩
  | succ count inductionHypothesis =>
      obtain ⟨slot, last, run, alternates, writable, generation⟩ :=
        inductionHypothesis (by omega)
      have saves : Guarded Keeps MetaStep .save ⟨.opened last, last.info⟩
          ⟨.opened last.saveMeta, last.saveMeta.info⟩ :=
        ⟨trivial, .save writable⟩
      have counted : saveCount [.save] = 1 := rfl
      obtain ⟨nextSlot, next⟩ := alternates.step
        (by rw [counted]; omega) saves
      refine ⟨nextSlot, last.saveMeta, ?_, next,
        (saveMeta_readOnly last).trans writable, ?_⟩
      · rw [List.replicate_succ']
        exact run.append (.cons saves (.nil _))
      · rw [saveMeta_info writable]
        show (last.info.generation + 1).toNat = _
        rw [toNat_succ64 (by omega), generation]
        omega

/-- With one save more than the theorem allows the generation returns to zero
and the meta page saved before the last is found.  A caller that sets the
generation or the page size itself gets the same. -/
theorem metaPages_lost :
    ∃ pager, openPager (.ofContents .empty) 0 false (List.replicate 16 0)
        (List.replicate 16 0) = .ok pager ∧
      (∃ final, Execution (Guarded Keeps MetaStep)
          ⟨.opened pager, pager.info⟩
          (List.replicate (2 ^ 64 - 1) .save) final ∧
        saveCount (List.replicate (2 ^ 64 - 1) .save) < 2 ^ 64 ∧
        ¬ Survives final) ∧
      (∃ final, Execution MetaStep ⟨.opened pager, pager.info⟩
          [.change { pager.info with generation := 0xFFFFFFFFFFFFFFFF },
            .save]
          final ∧ ¬ Survives final) ∧
      ∃ final, Execution MetaStep ⟨.opened pager, pager.info⟩
          [.change { pager.info with pageSize := 0 }, .save] final ∧
        ¬ Survives final := by
  obtain ⟨pager, created⟩ := openPager_empty 0 (List.replicate 16 0)
    (List.replicate 16 0)
  obtain ⟨start, writable, generation⟩ := created_alternates rfl rfl created
  obtain ⟨active, _, formed⟩ := start.active pager rfl
  refine ⟨pager, created, ?_, ?_, ?_⟩
  · have most : 2 ^ 64 - 1 = (2 ^ 64 - 2) + 1 := by norm_num
    obtain ⟨slot, last, run, alternates, lastWritable, top⟩ :=
      saves_only rfl rfl created (2 ^ 64 - 2) (by norm_num)
    obtain ⟨lastActive, _, lastFormed⟩ := alternates.active last rfl
    have wrapped : last.nextMeta.generation = 0 := by
      refine UInt64.toNat_inj.mp ?_
      show (last.info.generation + 1).toNat = 0
      rw [UInt64.toNat_add, top]
      rfl
    have positive : (0 : UInt64) < last.info.generation := by
      rw [UInt64.lt_iff_toNat_lt, top]
      decide
    have lost := not_survives_wrapped alternates.large alternates.current
      lastActive lastWritable lastFormed positive wrapped
    refine ⟨_, ?_, ?_, lost⟩
    · rw [most, List.replicate_succ']
      exact run.append (.cons ⟨trivial, .save lastWritable⟩ (.nil _))
    · rw [saveCount, List.countP_replicate]
      norm_num [MetaAction.isSave]
  · refine ⟨_, .cons (.change _ formed.databaseID_length)
      (.cons (.save writable) (.nil _)), ?_⟩
    refine not_survives_wrapped start.large start.current active writable
      ⟨formed.databaseID_length, formed.pageSize_eq⟩ ?_
      (by decide : (0xFFFFFFFFFFFFFFFF : UInt64) + 1 = 0)
    show 0 < pager.info.generation
    rw [generation]
    decide
  · refine ⟨_, .cons (.change _ formed.databaseID_length)
      (.cons (.save writable) (.nil _)), ?_⟩
    refine not_survives_unsized start.large start.current active writable
      formed.databaseID_length rfl ?_
    show pager.info.pageSize ≠ 0
    rw [formed.pageSize_eq]
    decide

end Runs

end CocoDB.DefaultPager
