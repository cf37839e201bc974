import CocoDB.BTree.Uniform
import CocoDB.Record.Directory
import CocoDB.Storage.Overflow
import CocoDB.Storage.PagerObjects

/-!
# The pages of the record store

Versions lie in slotted pages and in chains of overflow pages.  `Advances` says
what all calls of the store have in common: slots that are taken stay as they
are, and so do the chains.
-/

namespace CocoDB.Record

open Lib LawfulPager DefaultPager BTree

structure RecordPage (page : Page) : Prop where
  type_eq : page.header.type = .pageRecord
  layout : Slotted.Layout page

structure SlotsKept (before after : Page) : Prop where
  page : RecordPage after
  slots : ∀ {slot bytes}, Slotted.content before slot = some bytes →
    Slotted.content after slot = some bytes

structure ChunkKept (before after : Page) : Prop where
  type_eq : after.header.type = .pageOverflow
  payload_eq : Overflow.payload after = Overflow.payload before
  next_eq : Overflow.nextPage after = Overflow.nextPage before

/-- The pages differ in the checksum, the sequence number and the flag at
most. -/
structure SameBody (before after : Page) : Prop where
  type_eq : after.header.type = before.header.type
  slotCount_eq : after.header.slotCount = before.header.slotCount
  freeStart_eq : after.header.freeStart = before.header.freeStart
  freeEnd_eq : after.header.freeEnd = before.header.freeEnd
  data : ∀ {position}, 32 ≤ position →
    after.data position = before.data position

namespace SameBody

variable {before middle after : Page}

theorem refl (page : Page) : SameBody page page :=
  ⟨rfl, rfl, rfl, rfl, fun _ => rfl⟩

theorem trans (first : SameBody before middle)
    (second : SameBody middle after) : SameBody before after :=
  ⟨second.type_eq.trans first.type_eq,
    second.slotCount_eq.trans first.slotCount_eq,
    second.freeStart_eq.trans first.freeStart_eq,
    second.freeEnd_eq.trans first.freeEnd_eq,
    fun far => (second.data far).trans (first.data far)⟩

theorem read (same : SameBody before after) {offset length : Nat}
    (far : 32 ≤ offset) :
    after.data.read offset length = before.data.read offset length :=
  Buf.read_congr fun _ lower _ => same.data (far.trans lower)

theorem readSlot (same : SameBody before after) {slot : Nat}
    (small : slot < 4080) :
    Slotted.readSlot after.data slot = Slotted.readSlot before.data slot := by
  have offset := Slotted.slotOffset_eq small
  exact Slotted.readSlot_congr fun position lower _ =>
    same.data (by rw [offset] at lower; omega)

theorem live (same : SameBody before after) (few : before.header.slotCount ≤
    4080) {slot : Nat} :
    Slotted.Live after slot ↔ Slotted.Live before slot := by
  unfold Slotted.Live
  rw [same.slotCount_eq]
  refine and_congr_right fun below => ?_
  rw [same.readSlot (by omega)]

theorem layout (same : SameBody before after)
    (layout : Slotted.Layout before) : Slotted.Layout after := by
  have few := layout.slotCount_le
  have slots : ∀ {slot}, Slotted.Live after slot →
      Slotted.Live before slot ∧ Slotted.readSlot after.data slot =
        Slotted.readSlot before.data slot := by
    intro slot live
    have old := (same.live few).mp live
    exact ⟨old, same.readSlot (old.1.trans_le few)⟩
  refine ⟨?_, ?_, ?_, ?_, ?_, ?_, ?_⟩
  · rw [same.freeStart_eq, same.slotCount_eq]
    exact layout.start_eq
  · rw [same.freeEnd_eq, same.slotCount_eq]
    exact layout.start_le
  · rw [same.freeEnd_eq]
    exact layout.end_le
  · intro slot live
    rw [(slots live).2]
    exact layout.inside slot (slots live).1
  · intro slot live
    rw [(slots live).2, same.freeEnd_eq]
    exact layout.above slot (slots live).1
  · intro left right leftLive rightLive
    rw [(slots leftLive).2, (slots rightLive).2]
    exact layout.disjoint left right (slots leftLive).1 (slots rightLive).1
  · have bytes : Slotted.liveBytes after = Slotted.liveBytes before := by
      unfold Slotted.liveBytes
      rw [same.slotCount_eq]
      exact Slotted.slotBytes_congr fun index below => by
        rw [same.readSlot (by omega)]
    rw [same.freeEnd_eq, bytes]
    exact layout.packed

theorem content (same : SameBody before after)
    (layout : Slotted.Layout before) :
    Slotted.content after = Slotted.content before := by
  have few := layout.slotCount_le
  funext slot
  by_cases live : Slotted.Live before slot
  · have now := (same.live few).mpr live
    rw [layout.content_live live, (same.layout layout).content_live now,
      same.readSlot (live.1.trans_le few)]
    by_cases empty : (Slotted.readSlot before.data slot).length = 0
    · rw [empty, Buf.read_zero_length, Buf.read_zero_length]
    · have above := layout.above slot live (by omega)
      have start := layout.start_le
      rw [same.read (by omega)]
  · rw [Slotted.content_not_live live, Slotted.content_not_live fun now =>
      live ((same.live few).mp now)]

theorem filled (same : SameBody before after) {payloads : List Bytes}
    (filled : Filled before payloads) : Filled after payloads :=
  ⟨same.layout filled.layout, same.slotCount_eq.trans filled.slotCount_eq,
    (same.content filled.layout).trans filled.content_eq⟩

theorem readPageID (same : SameBody before after) {offset : Nat}
    (far : 32 ≤ offset) :
    BTree.readPageID after.data offset = BTree.readPageID before.data
      offset := by
  unfold BTree.readPageID
  rw [same.read far]

theorem sameNode (same : SameBody before after) : SameNode before after := by
  refine ⟨fun leaf => ⟨same.type_eq.trans leaf.type_eq,
    same.filled leaf.filled⟩, fun node => ⟨same.type_eq.trans node.type_eq,
    same.filled node.filled, ?_⟩⟩
  rw [← node.rightmost_eq]
  exact same.readPageID (Nat.le_refl 32)

theorem links (same : SameBody before after) :
    prevLeaf after = prevLeaf before ∧ nextLeaf after = nextLeaf before :=
  ⟨same.readPageID (Nat.le_refl 32), same.readPageID (by decide)⟩

theorem isNode (same : SameBody before after) (node : IsNode before) :
    IsNode after := by
  unfold IsNode
  rw [same.type_eq]
  exact node

theorem nodeOn (same : SameBody before after) {limits : Limits} {land : Land}
    {level : Nat} (node : NodeOn limits land level before) :
    NodeOn limits land level after := by
  cases node with
  | leaf type_eq holds fine prev next =>
      refine .leaf (same.type_eq.trans type_eq) ?_ fine ?_ ?_
      · rcases holds with ⟨none, count⟩ | leaf
        · exact .inl ⟨none, same.slotCount_eq.trans count⟩
        · exact .inr (same.sameNode.leaf leaf)
      · rw [same.links.1]
        exact prev
      · rw [same.links.2]
        exact next
  | internal node fine last =>
      exact .internal (same.sameNode.internal node) fine last

theorem slotsKept (same : SameBody before after)
    (page : RecordPage before) : SlotsKept before after :=
  ⟨⟨same.type_eq.trans page.type_eq, same.layout page.layout⟩, fun stored => by
    rw [same.content page.layout]
    exact stored⟩

theorem chunkKept (same : SameBody before after)
    (type : before.header.type = .pageOverflow) : ChunkKept before after := by
  have count : Overflow.chunkLength after = Overflow.chunkLength before := by
    unfold Overflow.chunkLength
    rw [same.read (by decide)]
  refine ⟨same.type_eq.trans type, ?_, ?_⟩
  · unfold Overflow.payload
    rw [count, same.read (by decide)]
  · unfold Overflow.nextPage
    rw [same.read (by decide)]

end SameBody

structure Preserves (before after : DefaultPager) : Prop where
  sound : after.Sound
  held : ∀ {id}, before.Held id → after.Held id
  record : ∀ {id}, before.Held id → RecordPage (before.pageOf id) →
    SlotsKept (before.pageOf id) (after.pageOf id)
  overflow : ∀ {id}, before.Held id →
    (before.pageOf id).header.type = .pageOverflow →
    ChunkKept (before.pageOf id) (after.pageOf id)

/-- The nodes of trees are still there, too. -/
structure Frames (before after : DefaultPager) : Prop extends
    Preserves before after where
  nodes : ∀ {id}, before.Held id → IsNode (before.pageOf id) →
    SameBody (before.pageOf id) (after.pageOf id)

/-- The pager has moved on and has given out at most `cost` pages. -/
structure Advances (before after : DefaultPager) (cost : Nat) : Prop extends
    Preserves before after where
  continues : before.Continues after
  count : after.info.nextPageID.toNat ≤
    before.info.nextPageID.toNat + cost

theorem count_le {before after : DefaultPager} {touched : Set PageID}
    {cost : Nat} (evolves : Evolves before after touched cost) :
    after.info.nextPageID.toNat ≤ before.info.nextPageID.toNat + cost := by
  have bound : 2 ^ 64 - 1 - before.info.nextPageID.toNat ≤
      2 ^ 64 - 1 - after.info.nextPageID.toNat + cost := evolves.room_le
  have small := UInt64.toNat_lt before.info.nextPageID
  have smallAfter := UInt64.toNat_lt after.info.nextPageID
  omega

namespace Advances

variable {before middle after : DefaultPager} {cost more : Nat}

theorem refl (sound : before.Sound) : Advances before before 0 :=
  ⟨⟨sound, id, fun _ page => ⟨page, id⟩, fun _ type => ⟨type, rfl, rfl⟩⟩,
    .refl before, Nat.le_refl _⟩

theorem trans (first : Advances before middle cost)
    (second : Advances middle after more) :
    Advances before after (cost + more) := by
  refine ⟨⟨second.sound, fun held => second.held (first.held held), ?_, ?_⟩,
    first.continues.trans second.continues, ?_⟩
  · intro id held page
    have early := first.record held page
    have late := second.record (first.held held) early.page
    exact ⟨late.page, fun stored => late.slots (early.slots stored)⟩
  · intro id held type
    have early := first.overflow held type
    have late := second.overflow (first.held held) early.type_eq
    exact ⟨late.type_eq, late.payload_eq.trans early.payload_eq,
      late.next_eq.trans early.next_eq⟩
  · have lower := first.count
    have upper := second.count
    omega

theorem afford (advances : Advances before after cost)
    (enough : cost ≤ more) : Advances before after more :=
  ⟨advances.toPreserves, advances.continues,
    advances.count.trans (Nat.add_le_add_left enough _)⟩

theorem of_evolves {touched : Set PageID}
    (evolves : Evolves before after touched cost)
    (continues : before.Continues after)
    (apart : ∀ id, id ∈ touched → (before.pageOf id).header.type ≠ .pageRecord ∧
      (before.pageOf id).header.type ≠ .pageOverflow) :
    Advances before after cost := by
  refine ⟨⟨evolves.good, evolves.keeps, ?_, ?_⟩, continues, ?_⟩
  · intro id held page
    have outside : id ∉ touched := fun member =>
      (apart id member).1 page.type_eq
    have same : after.pageOf id = before.pageOf id :=
      evolves.frame held outside
    rw [same]
    exact ⟨page, fun stored => stored⟩
  · intro id held type
    have outside : id ∉ touched := fun member => (apart id member).2 type
    have same : after.pageOf id = before.pageOf id :=
      evolves.frame held outside
    rw [same]
    exact ⟨type, rfl, rfl⟩
  · exact count_le evolves

end Advances

/-- The calls outside the directory leave its nodes alone, too. -/
structure Works (before after : DefaultPager) (cost : Nat) : Prop extends
    Advances before after cost where
  nodes : ∀ {id}, before.Held id → IsNode (before.pageOf id) →
    SameBody (before.pageOf id) (after.pageOf id)

namespace Works

variable {before middle after : DefaultPager} {cost more : Nat}

theorem refl (sound : before.Sound) : Works before before 0 :=
  ⟨.refl sound, fun _ _ => .refl _⟩

theorem trans (first : Works before middle cost)
    (second : Works middle after more) :
    Works before after (cost + more) := by
  refine ⟨first.toAdvances.trans second.toAdvances, ?_⟩
  intro id held node
  have early := first.nodes held node
  exact early.trans (second.nodes (first.held held) (early.isNode node))

theorem frames (works : Works before after cost) : Frames before after :=
  ⟨works.toPreserves, works.nodes⟩

theorem afford (works : Works before after cost) (enough : cost ≤ more) :
    Works before after more :=
  ⟨works.toAdvances.afford enough, works.nodes⟩

theorem of_evolves (evolves : Evolves before after ∅ cost)
    (continues : before.Continues after) : Works before after cost := by
  refine ⟨.of_evolves evolves continues fun _ member => (nomatch member), ?_⟩
  intro id held node
  have same : after.pageOf id = before.pageOf id :=
    evolves.frame held (Set.notMem_empty id)
  rw [same]
  exact .refl _

end Works

variable {pager : DefaultPager} {id : PageID}

theorem node_apart {page : Page} (node : IsNode page) :
    page.header.type ≠ .pageRecord ∧ page.header.type ≠ .pageOverflow := by
  rcases node with leaf | internal
  · rw [leaf]
    exact ⟨nofun, nofun⟩
  · rw [internal]
    exact ⟨nofun, nofun⟩

theorem get_spec (sound : pager.Sound) (held : pager.Held id) :
    ∃ ref after, pager.get id = (.ok ref, after) ∧
      after.objectOf id = some ref ∧
      after.heap ref = pager.pageOf id ∧
      after.info = pager.info ∧ Works pager after 0 := by
  obtain ⟨ref, after, entry, got, afterSound, found, same, info, frame⟩ :=
    sound.get_spec held
  have continues := sound.continues_get held
  rw [got] at continues
  have object : after.objectOf id = some ref :=
    objectOf_eq_some.mpr ⟨entry, found, same⟩
  have evolves : Evolves pager after ∅ 0 := by
    refine ⟨afterSound, fun other => (frame _ other).1, fun other _ =>
      (frame _ other).2, ?_⟩
    show 2 ^ 64 - 1 - pager.info.nextPageID.toNat ≤
      2 ^ 64 - 1 - after.info.nextPageID.toNat + 0
    rw [info]
    exact Nat.le_refl _
  refine ⟨ref, after, got, object, ?_, info, .of_evolves evolves continues⟩
  rw [← pageOf_object object]
  exact (frame id held).2

theorem allocate_spec (sound : pager.Sound)
    (roomy : pager.info.nextPageID.toNat + 1 < 2 ^ 64) (type : PageType) :
    ∃ ref after, pager.allocate type = (ref, after) ∧
      after.objectOf pager.info.nextPageID = some ref ∧
      after.heap ref = Page.newPage pager.info.nextPageID type ∧
      ¬ pager.Held pager.info.nextPageID ∧
      Evolves pager after ∅ 1 ∧ pager.Continues after := by
  obtain ⟨ref, after, entry, extended, afterSound, info, found, same, page,
    frame⟩ := sound.extend_spec type roomy
  have continues := sound.continues_allocate type
  have shape : pager.allocate type = (ref, after) := by
    unfold DefaultPager.allocate
    rw [if_pos sound.noFree, extended]
  rw [shape] at continues
  have next : after.info.nextPageID.toNat =
      pager.info.nextPageID.toNat + 1 := by
    rw [info]
    exact toNat_succ64 roomy
  have evolves : Evolves pager after ∅ 1 := by
    refine ⟨afterSound, fun other => (frame _ other).1, fun other _ =>
      (frame _ other).2, ?_⟩
    show 2 ^ 64 - 1 - pager.info.nextPageID.toNat ≤
      2 ^ 64 - 1 - after.info.nextPageID.toNat + 1
    omega
  exact ⟨ref, after, shape, objectOf_eq_some.mpr ⟨entry, found, same⟩, page,
    fun held => absurd held.1 (Nat.lt_irrefl _), evolves, continues⟩

theorem setObject_spec {ref : Nat} (sound : pager.Sound)
    (object : pager.objectOf id = some ref) {page : Page}
    (sameID : page.header.id = id) :
    Evolves pager (pager.setObject ref page) {id} 0 ∧
      pager.Continues (pager.setObject ref page) ∧
      (pager.setObject ref page).pageOf id = page := by
  obtain ⟨entry, found, rfl⟩ := objectOf_eq_some.mp object
  obtain ⟨stored, here, others⟩ := sound.setObject page found sameID
  refine ⟨⟨stored, fun held => held.mono rfl (Nat.le_refl _) fun there =>
    there, fun {other} _ outside => others other outside, Nat.le_refl _⟩,
    continues_of_entries (fun _ => rfl) rfl, here⟩

theorem setObject_works {ref : Nat} (sound : pager.Sound)
    (object : pager.objectOf id = some ref) {page : Page}
    (sameID : page.header.id = id)
    (record : RecordPage (pager.heap ref) →
      SlotsKept (pager.heap ref) page)
    (overflow : (pager.heap ref).header.type = .pageOverflow →
      ChunkKept (pager.heap ref) page)
    (node : IsNode (pager.heap ref) → SameBody (pager.heap ref) page) :
    Works pager (pager.setObject ref page) 0 := by
  obtain ⟨evolves, continues, here⟩ := setObject_spec sound object sameID
  rw [← pageOf_object object] at record overflow node
  have unchanged : ∀ {other}, pager.Held other → other ≠ id →
      (pager.setObject ref page).pageOf other = pager.pageOf other :=
    fun held different => evolves.frame held different
  refine ⟨⟨⟨evolves.good, evolves.keeps, ?_, ?_⟩, continues, Nat.le_refl _⟩,
    ?_⟩
  · intro other held isRecord
    by_cases same : other = id
    · subst same
      rw [here]
      exact record isRecord
    · rw [unchanged held same]
      exact ⟨isRecord, fun stored => stored⟩
  · intro other held type
    by_cases same : other = id
    · subst same
      rw [here]
      exact overflow type
    · rw [unchanged held same]
      exact ⟨type, rfl, rfl⟩
  · intro other held isNode
    by_cases same : other = id
    · subst same
      rw [here]
      exact node isNode
    · rw [unchanged held same]
      exact .refl _

theorem wrapSlotted_layout {page : Page} (layout : Slotted.Layout page) :
    Slotted.wrapSlotted page = page := by
  have lower := layout.start_le
  have started : ¬ page.header.freeStart < slotDirectoryStart := by
    rw [layout.start_eq]
    unfold slotDirectoryStart
    omega
  have ended : page.header.freeEnd ≠ 0 := by omega
  unfold Slotted.wrapSlotted
  simp only [started, if_false, ended]

end CocoDB.Record
