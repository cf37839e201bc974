import CocoDB.Record.DirectorySpec
import CocoDB.Record.Store

/-!
# Versions

The store as a shelf: under an identifier stands a version and the identifier of
the one before.  How versions lie in the pages, and what a reader gets.
-/

namespace CocoDB.Record

open Lib LawfulPager DefaultPager BTree

/-! ## Overflow chains -/

inductive Spilled (pager : DefaultPager) : PageID → Bytes → Prop
  | done : Spilled pager invalidPageID []
  | page {id : PageID} {rest : Bytes} :
      pager.Held id → (pager.pageOf id).header.type = .pageOverflow →
      Overflow.payload (pager.pageOf id) ≠ [] →
      Spilled pager (Overflow.nextPage (pager.pageOf id)) rest →
      Spilled pager id (Overflow.payload (pager.pageOf id) ++ rest)

variable {pager after : DefaultPager} {cost : Nat}

theorem Spilled.advance {id : PageID} {data : Bytes}
    (spilled : Spilled pager id data) (preserves : Preserves pager after) :
    Spilled after id data := by
  induction spilled with
  | done => exact .done
  | @page id rest held type nonempty _ inductionHypothesis =>
      have kept := preserves.overflow held type
      rw [← kept.payload_eq] at nonempty ⊢
      refine .page (preserves.held held) kept.type_eq nonempty ?_
      rw [kept.next_eq]
      exact inductionHypothesis

theorem gather_spec {totalLength : Nat} :
    ∀ {fuel : Nat} {id : PageID} {result rest : Bytes} {pager : DefaultPager},
      pager.Sound → Spilled pager id rest →
      result.length + rest.length = totalLength → rest.length < fuel →
      ∃ after, Store.gather totalLength fuel id result pager =
          (.ok (result ++ rest), after) ∧ Works pager after 0
  | fuel + 1, _, result, _, pager, sound, .done, length, _ => by
      refine ⟨pager, ?_, .refl sound⟩
      rw [Store.gather, if_neg fun both => both.1 rfl, List.append_nil,
        List.take_of_length_le (by rw [List.length_nil] at length; omega)]
  | fuel + 1, id, result, _, pager, sound, @Spilled.page _ _ rest held type
      nonempty tail, length, enough => by
      obtain ⟨ref, next, got, object, same, _, works⟩ := get_spec sound held
      have some : 0 < (Overflow.payload (pager.pageOf id)).length :=
        List.length_pos_of_ne_nil nonempty
      rw [List.length_append] at length enough
      have tailNext := tail.advance works.toPreserves
      obtain ⟨last, gathered, worksLater⟩ := @gather_spec totalLength fuel _
        (result ++ Overflow.payload (pager.pageOf id)) rest next works.sound
        tailNext (by rw [List.length_append]; omega) (by omega)
      refine ⟨last, ?_, works.trans worksLater⟩
      rw [Store.gather, if_pos ⟨sound.ne_invalid held, by omega⟩, got]
      simp only [same]
      rw [gathered, List.append_assoc]

/-! ## Versions -/

/-- A version of a record; a deleted one has no payload. -/
structure Version where
  txnID : TxnID
  payload : Option Bytes
  deriving DecidableEq

/-- What stands under an identifier: a version of a record, and where to look
for the one before. -/
structure Entry where
  recID : RecordID
  prev : RecordID
  version : Version
  deriving DecidableEq

def Entry.header (entry : Entry) : Header :=
  Store.newHeader entry.recID entry.prev entry.version.txnID
    entry.version.payload

def Body (pager : DefaultPager) (data body : Bytes) : Prop :=
  if maxInlinePayload < data.length then
    ∃ first : PageID, body = be 8 first.toNat ++ be 4 data.length ∧
      data.length < 2 ^ 32 ∧ Spilled pager first data
  else body = data

theorem body_overflow {data : Bytes} {first : PageID}
    (long : maxInlinePayload < data.length) (small : data.length < 2 ^ 32)
    (spilled : Spilled pager first data) :
    Body pager data (be 8 first.toNat ++ be 4 data.length) := by
  unfold Body
  rw [if_pos long]
  exact ⟨first, rfl, small, spilled⟩

theorem body_inline {data : Bytes} (short : ¬ maxInlinePayload < data.length) :
    Body pager data data := by
  unfold Body
  rw [if_neg short]

theorem Body.advance {data body : Bytes} (shape : Body pager data body)
    (preserves : Preserves pager after) : Body after data body := by
  unfold Body at shape ⊢
  split
  · rename_i long
    rw [if_pos long] at shape
    obtain ⟨first, rfl, small, spilled⟩ := shape
    exact ⟨first, rfl, small, spilled.advance preserves⟩
  · rename_i short
    rw [if_neg short] at shape
    exact shape

structure Filed (pager : DefaultPager) (loc : Location) (entry : Entry) :
    Prop where
  held : pager.Held loc.page
  page : RecordPage (pager.pageOf loc.page)
  stored : ∃ body, Slotted.content (pager.pageOf loc.page) loc.slot =
      some (entry.header.encode ++ body) ∧
    Body pager (entry.version.payload.getD []) body

theorem Filed.advance {loc : Location} {entry : Entry}
    (filed : Filed pager loc entry) (preserves : Preserves pager after) :
    Filed after loc entry := by
  obtain ⟨held, page, body, stored, shape⟩ := filed
  have kept := preserves.record held page
  exact ⟨preserves.held held, kept.page, body, kept.slots stored,
    shape.advance preserves⟩

abbrev Shelf := RecordID → Option Entry

/-- The directory leads to the versions of the shelf. -/
structure Keeps (tree : BTree.Tree DefaultPager) (tall : Nat)
    (shelf : Shelf) : Prop where
  filed : ∃ dir, Directory.Lists tree tall dir ∧ ∀ id,
    (dir id = none ∧ shelf id = none) ∨
      ∃ loc entry, dir id = some loc ∧ shelf id = some entry ∧
        Filed tree.pager loc entry

namespace Keeps

variable {tree : BTree.Tree DefaultPager} {tall : Nat} {shelf : Shelf}

theorem sound (keeps : Keeps tree tall shelf) : tree.pager.Sound := by
  obtain ⟨dir, lists, _⟩ := keeps.filed
  exact lists.sound

theorem frames (keeps : Keeps tree tall shelf)
    (frames : Frames tree.pager after) :
    Keeps { tree with pager := after } tall shelf := by
  obtain ⟨dir, lists, each⟩ := keeps.filed
  refine ⟨dir, lists.frames frames, fun id => ?_⟩
  rcases each id with missing | ⟨loc, entry, found, stands, filed⟩
  · exact .inl missing
  · exact .inr ⟨loc, entry, found, stands, filed.advance frames.toPreserves⟩

end Keeps

/-! ## Reading -/

def sees (snapID : TxnID) (committed : TxnID → Bool)
    (currentTxnID txnID : TxnID) : Bool :=
  txnID = currentTxnID ∨ (txnID ≤ snapID ∧ committed txnID = true)

def Entry.answer (entry : Entry) : Except Error (Header × Bytes) :=
  match entry.version.payload with
  | none => .error .slotNotFound
  | some data => .ok (entry.header, data)

/-- Reading a shelf: the first version that is visible, as far as the reader
looks back. -/
def Shelf.read (visible : TxnID → Bool) (shelf : Shelf) : Nat → RecordID →
    Except Error (Header × Bytes)
  | 0, _ => .error .slotNotFound
  | fuel + 1, id =>
      if id ≠ invalidRecordID ∧ id ≠ 0 then
        match shelf id with
        | none => .error .slotNotFound
        | some entry =>
            if visible entry.version.txnID then entry.answer
            else Shelf.read visible shelf fuel entry.prev
      else .error .slotNotFound

theorem header_isVisible (entry : Entry) (snapID currentTxnID : TxnID)
    (committed : TxnID → Bool) :
    entry.header.isVisible snapID committed currentTxnID =
      sees snapID committed currentTxnID entry.version.txnID := by
  unfold Header.isVisible sees
  have begins : entry.header.beginTxn = entry.version.txnID := rfl
  have ends : entry.header.endTxn = 0 := rfl
  rw [begins, ends]
  by_cases own : entry.version.txnID = currentTxnID
  · simp [own]
  · by_cases late : snapID < entry.version.txnID
    · have above : ¬ entry.version.txnID ≤ snapID := UInt64.not_le.mpr late
      simp [own, late, above]
    · have below : entry.version.txnID ≤ snapID := UInt64.not_lt.mp late
      cases committed entry.version.txnID <;> simp [own, late, below]

theorem newFlags_spec (payload : Option Bytes) :
    (Store.newFlags payload &&& flagDeleted ≠ 0 ↔ payload = none) ∧
      (Store.newFlags payload &&& flagOverflow ≠ 0 ↔
        maxInlinePayload < (payload.getD []).length) := by
  cases payload with
  | none => decide
  | some data =>
      by_cases long : maxInlinePayload < data.length
      · have flags : Store.newFlags (some data) = flagOverflow := by
          simp [Store.newFlags, long]
        rw [flags]
        refine ⟨⟨fun set => absurd (by decide) set, fun none =>
          (nomatch none)⟩, fun _ => long, fun _ => by decide⟩
      · have flags : Store.newFlags (some data) = 0 := by
          simp [Store.newFlags, long]
        rw [flags]
        exact ⟨⟨fun set => absurd (by decide) set, fun none =>
          (nomatch none)⟩, fun set => absurd (by decide) set, fun more =>
          absurd more long⟩

namespace Store

variable {store : Store} {tall : Nat} {dir : Directory.LocationMap}

theorem isCommitted_setPager
    (continues : store.pager.Continues after) :
    (store.setPager after).manager.isCommitted =
      store.manager.isCommitted := by
  have same : after.info.lastTxnID = store.manager.pager.info.lastTxnID := by
    rw [continues.info]
    rfl
  funext txnID
  show (_ || decide (txnID ≤ after.info.lastTxnID)) = _
  rw [same]
  rfl

theorem locate_spec (lists : Directory.Lists store.tree tall dir) (id : RecordID) :
    ∃ after, store.locate id = (.ok (dir id), store.setPager after) ∧
      Works store.pager after 0 ∧
      Directory.Lists (store.setPager after).tree tall dir := by
  obtain ⟨found, listed, root, works⟩ := Directory.get_spec lists id
  unfold locate
  rcases outcome : Directory.get id store.tree with ⟨result, tree⟩
  rw [outcome] at found listed root works
  obtain ⟨treeRoot, treePager⟩ := tree
  simp only at found root works
  subst found root
  exact ⟨treePager, rfl, works, listed⟩

theorem wrap_layout {ref : Nat}
    (layout : Slotted.Layout (store.pager.heap ref)) :
    store.wrap ref = store := by
  unfold wrap
  rw [wrapSlotted_layout layout]
  unfold DefaultPager.setObject
  rw [Function.update_eq_self]
  rfl

theorem openPage_spec {id : PageID} (sound : store.pager.Sound)
    (held : store.pager.Held id)
    (page : RecordPage (store.pager.pageOf id)) :
    ∃ ref after, store.openPage id = (.ok ref, store.setPager after) ∧
      after.objectOf id = some ref ∧
      after.heap ref = store.pager.pageOf id ∧
      Works store.pager after 0 := by
  obtain ⟨ref, after, got, object, same, _, works⟩ := get_spec sound held
  refine ⟨ref, after, ?_, object, same, works⟩
  unfold openPage
  rw [got]
  have layout : Slotted.Layout ((store.setPager after).pager.heap ref) := by
    rw [show (store.setPager after).pager.heap ref = after.heap ref from rfl,
      same]
    exact page.layout
  simp only [wrap_layout layout]

theorem get_of_content {page : Page} {slot : Nat} {bytes : Bytes}
    (stored : Slotted.content page slot = some bytes) :
    Slotted.get page slot = .ok bytes := by
  unfold Slotted.content at stored
  cases result : Slotted.get page slot with
  | error cause =>
      rw [result] at stored
      cases stored
  | ok found =>
      rw [result] at stored
      rw [Option.some.inj stored]

theorem payloadOf_spec {entry : Entry} {body : Bytes}
    (sound : store.pager.Sound)
    (shape : Body store.pager (entry.version.payload.getD []) body) :
    ∃ after, store.payloadOf entry.header body =
        (.ok (entry.version.payload.getD []), store.setPager after) ∧
      Works store.pager after 0 := by
  have flag : entry.header.flags &&& flagOverflow ≠ 0 ↔
      maxInlinePayload < (entry.version.payload.getD []).length :=
    (newFlags_spec entry.version.payload).2
  unfold payloadOf
  unfold Body at shape
  generalize entry.version.payload.getD [] = data at shape flag ⊢
  by_cases long : maxInlinePayload < data.length
  · rw [if_pos long] at shape
    obtain ⟨first, rfl, small, spilled⟩ := shape
    have length : ofBE (be 4 data.length) = data.length := by
      rw [ofBE_be]
      exact Nat.mod_eq_of_lt small
    have wide : ¬ (be 8 first.toNat ++ be 4 data.length).length < 12 := by
      rw [List.length_append, be_length, be_length]
      omega
    rw [if_pos (flag.mpr long), if_neg wide,
      List.take_left' (be_length 8 _), List.drop_left' (be_length 8 _),
      List.take_of_length_le (be_length 4 _).le, length, ofBE_be64]
    have fuel : data.length <
        (data.length + 1) * (Pager.pageCount store.pager + 1) + 1 := by
      have grows : data.length + 1 ≤
          (data.length + 1) * (Pager.pageCount store.pager + 1) :=
        Nat.le_mul_of_pos_right _ (Nat.succ_pos _)
      omega
    obtain ⟨after, gathered, works⟩ := @gather_spec data.length _ first [] _
      store.pager sound spilled (by simp) fuel
    refine ⟨after, ?_, works⟩
    unfold readOverflowChain
    rw [gathered]
    rfl
  · rw [if_neg long] at shape
    subst shape
    refine ⟨store.pager, ?_, .refl sound⟩
    rw [if_neg fun set => long (flag.mp set)]
    rfl

variable {shelf : Shelf}

/-- The version under an identifier, as both readers and writers find it. -/
structure Found (store : Store) (entry : Entry) (loc : Location) (ref : Nat)
    (opened : DefaultPager) : Prop where
  works : Works store.pager opened 0
  object : opened.objectOf loc.page = some ref
  filed : Filed opened loc entry
  bytes : ∃ body, Slotted.get (opened.heap ref) loc.slot =
      .ok (entry.header.encode ++ body) ∧
    Body opened (entry.version.payload.getD []) body
  small : loc.slot < 65536

theorem find_spec (keeps : Keeps store.tree tall shelf) (id : RecordID) :
    (∃ located, store.locate id = (.ok none, store.setPager located) ∧
        shelf id = none ∧ Works store.pager located 0) ∨
      ∃ entry loc ref located opened,
        store.locate id = (.ok (some loc), store.setPager located) ∧
        (store.setPager located).openPage loc.page =
          (.ok ref, store.setPager opened) ∧
        shelf id = some entry ∧ Found store entry loc ref opened := by
  obtain ⟨dir, lists, each⟩ := keeps.filed
  obtain ⟨located, locateEq, worksFirst, _⟩ := locate_spec lists id
  rcases each id with ⟨missing, none⟩ | ⟨loc, entry, found, stands, filed⟩
  · rw [missing] at locateEq
    exact .inl ⟨located, locateEq, none, worksFirst⟩
  · rw [found] at locateEq
    have filedFirst : Filed located loc entry :=
      filed.advance worksFirst.toPreserves
    obtain ⟨ref, opened, openEq, object, same, worksSecond⟩ :=
      @openPage_spec (store.setPager located) loc.page worksFirst.sound
        filedFirst.held filedFirst.page
    have filedNow : Filed opened loc entry :=
      filedFirst.advance worksSecond.toPreserves
    refine .inr ⟨entry, loc, ref, located, opened, locateEq, openEq, stands,
      worksFirst.trans worksSecond, object, filedNow, ?_, lists.small found⟩
    obtain ⟨body, stored, shape⟩ := filedNow.stored
    rw [pageOf_object object] at stored
    exact ⟨body, get_of_content stored, shape⟩

theorem readVersions_spec {readSlot : Page → Nat → Except Error Bytes}
    (same : readSlot = Slotted.get) {snapID currentTxnID : TxnID} :
    ∀ {fuel : Nat} {id : RecordID} {store : Store},
      Keeps store.tree tall shelf →
      ∃ after, readVersions readSlot snapID currentTxnID fuel id store =
          (shelf.read (sees snapID store.manager.isCommitted currentTxnID)
            fuel id, store.setPager after) ∧
        Works store.pager after 0
  | 0, _, store, keeps => ⟨store.pager, rfl, .refl keeps.sound⟩
  | fuel + 1, id, store, keeps => by
      rw [readVersions, Shelf.read]
      by_cases valid : id ≠ invalidRecordID ∧ id ≠ 0
      · rw [if_pos valid, if_pos valid]
        rcases find_spec keeps id with ⟨located, locateEq, none, works⟩ |
          ⟨entry, loc, ref, located, opened, locateEq, openEq, stands, found⟩
        · rw [locateEq, none]
          exact ⟨located, rfl, works⟩
        · obtain ⟨body, bytes, shape⟩ := found.bytes
          have committed := isCommitted_setPager found.works.continues
          rw [locateEq, stands]
          simp only
          rw [openEq]
          simp only
          rw [same, show (store.setPager opened).pager.heap ref =
            opened.heap ref from rfl, bytes]
          simp only [Header.decode_encode]
          rw [header_isVisible, committed]
          cases visible : sees snapID store.manager.isCommitted currentTxnID
              entry.version.txnID with
          | false =>
              obtain ⟨after, readEq, worksLater⟩ :=
                @readVersions_spec readSlot same snapID currentTxnID fuel
                  entry.prev (store.setPager opened) (keeps.frames found.works.frames)
              rw [committed] at readEq
              exact ⟨after, same ▸ readEq, found.works.trans worksLater⟩
          | true =>
              have deleted : entry.header.isDeleted =
                  decide (entry.version.payload = none) :=
                decide_eq_decide.mpr (newFlags_spec _).1
              rw [deleted, if_pos rfl, if_pos rfl, Entry.answer]
              cases kept : entry.version.payload with
              | none => exact ⟨opened, rfl, found.works⟩
              | some data =>
                  obtain ⟨after, payloadEq, worksLater⟩ :=
                    @payloadOf_spec (store.setPager opened) entry body
                      found.works.sound shape
                  rw [List.drop_left' (Header.encode_length _), payloadEq,
                    kept]
                  exact ⟨after, rfl, found.works.trans worksLater⟩
      · rw [if_neg valid, if_neg valid]
        exact ⟨store.pager, rfl, .refl keeps.sound⟩

end Store

end CocoDB.Record
