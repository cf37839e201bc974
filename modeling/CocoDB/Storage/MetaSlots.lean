import CocoDB.Storage.DefaultPager

/-!
# The two meta pages

What the two slots hold after a write to one of them, whole or torn, and which of
them `OpenPager` selects.
-/

namespace CocoDB.DefaultPager

open Lib

theorem other_other (slot : Fin 2) : otherSlot (otherSlot slot) = slot := by
  revert slot
  decide

theorem other_ne (slot : Fin 2) : slot ≠ otherSlot slot := by
  revert slot
  decide

theorem slot_end (slot : Fin 2) :
    slot.val * defaultPageSize + defaultPageSize ≤ 2 * defaultPageSize := by
  revert slot
  decide

section Slots

variable {contents other : Contents}

theorem readMeta_of_readAt {backend : Backend} {slot : Fin 2} {bytes : Bytes}
    (readable : backend.readAt (some (slot.val * defaultPageSize))
      defaultPageSize = some bytes) :
    readMeta backend slot = (MetaPage.decode bytes).toOption := by
  cases decoded : MetaPage.decode bytes with
  | error _ => simp only [readMeta, readable, decoded, Except.toOption]
  | ok _ => simp only [readMeta, readable, decoded, Except.toOption]

theorem readMeta_eq (large : 2 * defaultPageSize ≤ contents.size)
    (slot : Fin 2) :
    readMeta (.ofContents contents) slot =
      (MetaPage.decode
        (contents.data.read (slot.val * defaultPageSize)
          defaultPageSize)).toOption := by
  refine readMeta_of_readAt ?_
  have bound := slot_end slot
  exact if_pos (bound.trans large)

theorem readMeta_congr (large : 2 * defaultPageSize ≤ contents.size)
    (otherLarge : 2 * defaultPageSize ≤ other.size) {slot : Fin 2}
    (agree : ∀ position, slot.val * defaultPageSize ≤ position →
      position < slot.val * defaultPageSize + defaultPageSize →
      contents.data position = other.data position) :
    readMeta (.ofContents contents) slot =
      readMeta (.ofContents other) slot := by
  rw [readMeta_eq large, readMeta_eq otherLarge, Buf.read_congr agree]

theorem readMeta_write_slot {info : MetaPage}
    (sized : info.databaseID.length = 16) (slot : Fin 2)
    (large : 2 * defaultPageSize ≤ (contents.write
      ⟨slot.val * defaultPageSize, info.encode⟩).size) :
    readMeta (.ofContents (contents.write
      ⟨slot.val * defaultPageSize, info.encode⟩)) slot =
        (MetaPage.decode info.encode).toOption := by
  have stored := Buf.read_write_same contents.data
    (slot.val * defaultPageSize) info.encode
  rw [MetaPage.encode_length sized] at stored
  have bytes : (contents.write
      ⟨slot.val * defaultPageSize, info.encode⟩).data.read
        (slot.val * defaultPageSize) defaultPageSize = info.encode := stored
  rw [readMeta_eq large, bytes]

theorem readMeta_write {info : MetaPage} (formed : info.WellFormed)
    (slot : Fin 2)
    (large : 2 * defaultPageSize ≤ (contents.write
      ⟨slot.val * defaultPageSize, info.encode⟩).size) :
    readMeta (.ofContents (contents.write
      ⟨slot.val * defaultPageSize, info.encode⟩)) slot = some info := by
  rw [readMeta_write_slot formed.databaseID_length slot large,
    formed.decode_encode]
  rfl

theorem readMeta_torn (large : 2 * defaultPageSize ≤ contents.size)
    {info : MetaPage} (sized : info.databaseID.length = 16)
    {slot different : Fin 2} (apart : slot ≠ different)
    (torn : TornWrite contents ⟨different.val * defaultPageSize, info.encode⟩
      other) :
    readMeta (.ofContents other) slot =
      readMeta (.ofContents contents) slot := by
  refine readMeta_congr (large.trans torn.size_ge) large ?_
  intro position lower upper
  refine torn.outside position ?_
  rintro ⟨reached, before⟩
  have disjoint := pages_disjoint defaultPageSize
    (fun same => apart (Fin.ext same))
  simp only [MetaPage.encode_length sized] at reached before
  omega

theorem chooseMeta_some {Good : MetaPage → Prop}
    {metaA metaB : Option MetaPage}
    (goodA : ∀ info, metaA = some info → Good info)
    (goodB : ∀ info, metaB = some info → Good info)
    (readable : metaA.isSome ∨ metaB.isSome) :
    ∃ info slot, chooseMeta metaA metaB = some (info, slot) ∧ Good info := by
  cases metaA with
  | none =>
      cases metaB with
      | none => exact absurd readable (by decide)
      | some infoB => exact ⟨infoB, 1, rfl, goodB infoB rfl⟩
  | some infoA =>
      cases metaB with
      | none => exact ⟨infoA, 0, rfl, goodA infoA rfl⟩
      | some infoB =>
          unfold chooseMeta
          simp only
          split
          · exact ⟨infoA, 0, rfl, goodA infoA rfl⟩
          · exact ⟨infoB, 1, rfl, goodB infoB rfl⟩

theorem readMeta_of_chooseMeta {backend : Backend} {info : MetaPage}
    {slot : Fin 2}
    (chosen : chooseMeta (readMeta backend 0) (readMeta backend 1) =
      some (info, slot)) : readMeta backend slot = some info := by
  unfold chooseMeta at chosen
  split at chosen
  · cases chosen
  · next found _ =>
      cases chosen
      exact found
  · next found =>
      cases chosen
      exact found
  · next foundA foundB =>
      split at chosen
      · cases chosen
        exact foundA
      · cases chosen
        exact foundB

theorem openPager_eq (large : 2 * defaultPageSize ≤ contents.size)
    {cacheBytes : Nat} {randomA randomB : Bytes} (readOnly : Bool) :
    openPager (.ofContents contents) cacheBytes readOnly randomA randomB =
      match chooseMeta (readMeta (.ofContents contents) 0)
        (readMeta (.ofContents contents) 1) with
      | none => .error .corruptMeta
      | some (info, slot) =>
          .ok (fresh (.ofContents contents) info slot cacheBytes readOnly) := by
  have nonempty : ¬ (Backend.ofContents contents).contents.size = 0 := by
    show ¬ contents.size = 0
    have positive : 0 < defaultPageSize := by decide
    omega
  cases choice : chooseMeta (readMeta (.ofContents contents) 0)
      (readMeta (.ofContents contents) 1) with
  | none => simp only [openPager, nonempty, if_false, choice]
  | some pair => simp only [openPager, nonempty, if_false, choice]

end Slots

/-! ## A new file -/

def metaPair (first second : MetaPage) : Contents :=
  (Contents.empty.write ⟨slotA.val * defaultPageSize, first.encode⟩).write
    ⟨(otherSlot slotA).val * defaultPageSize, second.encode⟩

theorem openPager_empty (cacheBytes : Nat) (randomA randomB : Bytes) :
    ∃ pager, openPager (.ofContents .empty) cacheBytes false randomA
      randomB = .ok pager :=
  ⟨_, rfl⟩

theorem openPager_created {cacheBytes : Nat} {randomA randomB : Bytes}
    {pager : DefaultPager}
    (created : openPager (.ofContents .empty) cacheBytes false randomA
      randomB = .ok pager) :
    ∃ backend : Backend,
      backend.contents = metaPair (MetaPage.newInitial randomA)
        { MetaPage.newInitial randomB with generation := 0 } ∧
      pager = fresh backend (MetaPage.newInitial randomA) slotA cacheBytes
        false := by
  have empty : (Backend.ofContents .empty).contents.size = 0 := rfl
  unfold openPager at created
  rw [if_pos empty] at created
  cases created
  exact ⟨_, rfl, rfl⟩

section Pair

variable {first second : MetaPage}

theorem metaPair_size (firstFormed : first.WellFormed)
    (secondFormed : second.WellFormed) :
    (metaPair first second).size = 2 * defaultPageSize := by
  rw [metaPair, Contents.write_size, Contents.write_size,
    firstFormed.encode_length, secondFormed.encode_length]
  exact (by decide : max (max 0 (slotA.val * defaultPageSize +
    defaultPageSize)) ((otherSlot slotA).val * defaultPageSize +
      defaultPageSize) = 2 * defaultPageSize)

theorem readMeta_metaPair_first (firstFormed : first.WellFormed)
    (secondFormed : second.WellFormed) :
    readMeta (.ofContents (metaPair first second)) slotA = some first := by
  have large : 2 * defaultPageSize ≤ (metaPair first second).size :=
    Nat.le_of_eq (metaPair_size firstFormed secondFormed).symm
  have stored := Buf.read_write_same Contents.empty.data
    (slotA.val * defaultPageSize) first.encode
  rw [firstFormed.encode_length] at stored
  have apart : slotA.val * defaultPageSize + defaultPageSize ≤
      (otherSlot slotA).val * defaultPageSize := by decide
  have bytes : (metaPair first second).data.read
      (slotA.val * defaultPageSize) defaultPageSize = first.encode := by
    rw [metaPair, Contents.write_data, Contents.write_data,
      Buf.read_write_disjoint (.inl apart), stored]
  rw [readMeta_eq large, bytes, firstFormed.decode_encode]
  rfl

theorem readMeta_metaPair_second (firstFormed : first.WellFormed)
    (secondFormed : second.WellFormed) :
    readMeta (.ofContents (metaPair first second)) (otherSlot slotA) =
      some second :=
  readMeta_write secondFormed (otherSlot slotA)
    (Nat.le_of_eq (metaPair_size firstFormed secondFormed).symm)

end Pair

end CocoDB.DefaultPager
