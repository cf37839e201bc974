import CocoDB.Record.Versions

/-!
# Writing versions

What each part of `WriteRecord` does to the pages.
-/

namespace CocoDB.Record

open Lib LawfulPager DefaultPager BTree

/-! ## Transactions -/

/-- The transaction can write, and what it has tracked are the objects of the
cache. -/
structure Engaged (pager : DefaultPager) (tx : Transaction) : Prop where
  readOnly_eq : tx.readOnly = false
  isOpen_eq : tx.isOpen = true
  tracks : ∀ {id ref}, (id, ref) ∈ tx.dirtyPages →
    pager.objectOf id = some ref

def Tracked (tx tracked : Transaction) : Prop :=
  ∃ pages, tracked = { tx with dirtyPages := pages }

section Transactions

variable {pager after : DefaultPager} {tx middle tracked : Transaction}

theorem Tracked.refl (tx : Transaction) : Tracked tx tx := ⟨tx.dirtyPages, rfl⟩

theorem Tracked.trans (first : Tracked tx middle)
    (second : Tracked middle tracked) : Tracked tx tracked := by
  obtain ⟨_, rfl⟩ := first
  obtain ⟨pages, rfl⟩ := second
  exact ⟨pages, rfl⟩

theorem Tracked.txnID_eq (track : Tracked tx tracked) :
    tracked.txnID = tx.txnID := by
  obtain ⟨_, rfl⟩ := track
  rfl

theorem Engaged.continues (engaged : Engaged pager tx)
    (continues : pager.Continues after) : Engaged after tx :=
  ⟨engaged.readOnly_eq, engaged.isOpen_eq, fun inside =>
    continues.objects (engaged.tracks inside)⟩

theorem Engaged.trackDirty (engaged : Engaged pager tx)
    (sound : pager.Sound) {id : PageID} {ref : Nat}
    (object : pager.objectOf id = some ref) :
    ∃ tracked, tx.trackDirty ref pager = .ok tracked ∧
      Tracked tx tracked ∧ Engaged pager tracked := by
  have writes : ¬ tx.readOnly = true := by
    rw [engaged.readOnly_eq]
    exact Bool.false_ne_true
  have sameID : (pager.heap ref).header.id = id := by
    rw [← pageOf_object object]
    exact sound.pageOf_id (sound.held_object object)
  unfold Transaction.trackDirty
  rw [if_neg writes, if_pos engaged.isOpen_eq, sameID]
  refine ⟨_, rfl, ⟨_, rfl⟩, engaged.readOnly_eq, engaged.isOpen_eq, ?_⟩
  intro other place inside
  rcases List.mem_cons.mp inside with same | old
  · obtain ⟨rfl, rfl⟩ := Prod.mk.inj same
    exact object
  · exact engaged.tracks (List.mem_filter.mp old).1

end Transactions

/-! ## Overflow chains -/

/-- The last page of a chain under construction. -/
structure Tail (pager : DefaultPager) (id : PageID) (ref : Nat) : Prop where
  object : pager.objectOf id = some ref
  type_eq : (pager.pageOf id).header.type = .pageOverflow
  next_eq : Overflow.nextPage (pager.pageOf id) = invalidPageID

def linkedTo (pager : DefaultPager) (prev : Option Nat) : Set PageID :=
  { id | ∃ ref, prev = some ref ∧ pager.objectOf id = some ref }

/-- The page after the chain behind it has been written. -/
structure Linked (before after : Page) (start : PageID) : Prop where
  type_eq : after.header.type = .pageOverflow
  payload_eq : Overflow.payload after = Overflow.payload before
  next_eq : Overflow.nextPage after = start

structure Spills (before after : DefaultPager) (prev : Option Nat)
    (remaining : Bytes) (start : PageID) : Prop where
  evolves : Evolves before after (linkedTo before prev) remaining.length
  continues : before.Continues after
  spilled : Spilled after start remaining
  linked : ∀ {id ref}, prev = some ref → Tail before id ref →
    Linked (before.pageOf id) (after.pageOf id) start

variable {pager : DefaultPager}

theorem newChunk_spec (sound : pager.Sound) (remaining : Bytes)
    (roomy : pager.info.nextPageID.toNat + 1 < 2 ^ 64) :
    ∃ ref allocated, pager.allocate .pageOverflow = (ref, allocated) ∧
      ∀ page, (Overflow.writeChunk remaining (Overflow.setNextPage
          invalidPageID (allocated.heap ref))).2 = page →
        page.header.id = pager.info.nextPageID ∧
        ¬ pager.Held pager.info.nextPageID ∧
        Evolves pager (allocated.setObject ref page) ∅ 1 ∧
        pager.Continues (allocated.setObject ref page) ∧
        Tail (allocated.setObject ref page) pager.info.nextPageID ref ∧
        (allocated.setObject ref page).pageOf pager.info.nextPageID = page ∧
        Overflow.payload page = remaining.take Overflow.maxPayload := by
  obtain ⟨ref, allocated, shape, object, fresh, new, evolves, continues⟩ :=
    allocate_spec sound roomy .pageOverflow
  refine ⟨ref, allocated, shape, fun page written => ?_⟩
  obtain ⟨payload, next, _⟩ := Overflow.writeChunk_spec remaining
    (Overflow.setNextPage invalidPageID (allocated.heap ref))
  rw [Overflow.nextPage_setNextPage, written] at next
  rw [written] at payload
  have header : page.header =
      (Page.newPage pager.info.nextPageID .pageOverflow).header := by
    rw [← written, ← fresh]
    rfl
  have sameID : page.header.id = pager.info.nextPageID := by
    rw [header]
    rfl
  obtain ⟨stored, kept, here⟩ := setObject_spec evolves.good object sameID
  refine ⟨sameID, new, ?_, continues.trans kept, ⟨kept.objects object, ?_, ?_⟩,
    here, payload⟩
  · exact evolves.trans_fresh new (stored.mono fun _ member => .inl member)
  · rw [here, header]
    rfl
  · rw [here]
    exact next

theorem linkedTo_some (sound : pager.Sound) {id : PageID} {ref : Nat}
    (object : pager.objectOf id = some ref) :
    linkedTo pager (some ref) = {id} := by
  obtain ⟨entry, found, same⟩ := objectOf_eq_some.mp object
  ext other
  refine ⟨?_, fun member => ?_⟩
  · rintro ⟨known, equal, there⟩
    obtain rfl := Option.some.inj equal
    obtain ⟨entry', found', same'⟩ := objectOf_eq_some.mp there
    exact sound.distinct found' found (same'.trans same.symm)
  · rw [Set.mem_singleton_iff.mp member]
    exact ⟨ref, rfl, object⟩

theorem linkTail_spec {written : DefaultPager} (sound : written.Sound)
    {prev : Option Nat} (newID : PageID)
    (tail : ∀ {ref}, prev = some ref → ∃ id, Tail written id ref) :
    ∃ linked, Store.linkTo newID prev written = linked ∧
      Evolves written linked (linkedTo written prev) 0 ∧
      written.Continues linked ∧
      ∀ {id ref}, prev = some ref → Tail written id ref →
        Linked (written.pageOf id) (linked.pageOf id) newID := by
  cases prev with
  | none =>
      exact ⟨written, rfl, .refl sound, .refl written,
        fun known => (nomatch known)⟩
  | some before =>
      obtain ⟨id, last⟩ := tail rfl
      have sameID : (Overflow.setNextPage newID
          (written.heap before)).header.id = id := by
        rw [← pageOf_object last.object]
        exact sound.pageOf_id (sound.held_object last.object)
      obtain ⟨stored, kept, here⟩ :=
        setObject_spec sound last.object sameID
      refine ⟨_, rfl, stored.mono ?_, kept, ?_⟩
      · intro other member
        rw [Set.mem_singleton_iff.mp member]
        exact ⟨before, rfl, last.object⟩
      · intro other ref known otherTail
        obtain rfl := Option.some.inj known
        have same : other ∈ ({id} : Set PageID) := by
          rw [← linkedTo_some sound last.object]
          exact ⟨before, rfl, otherTail.object⟩
        obtain rfl := Set.mem_singleton_iff.mp same
        rw [show (Store.linkTo newID (some before) written).pageOf other = _
          from here, ← pageOf_object last.object]
        exact ⟨last.type_eq, Overflow.payload_setNextPage _ _,
          Overflow.nextPage_setNextPage _ _⟩

theorem Tail.evolves {after : DefaultPager} {id : PageID} {ref cost : Nat}
    {touched : Set PageID} (tail : Tail pager id ref) (sound : pager.Sound)
    (evolves : Evolves pager after touched cost)
    (continues : pager.Continues after) (outside : id ∉ touched) :
    Tail after id ref ∧ after.pageOf id = pager.pageOf id := by
  have same : after.pageOf id = pager.pageOf id :=
    evolves.frame (sound.held_object tail.object) outside
  refine ⟨⟨continues.objects tail.object, ?_, ?_⟩, same⟩
  · rw [same]
    exact tail.type_eq
  · rw [same]
    exact tail.next_eq

theorem linkedTo_subset {after : DefaultPager} {prev : Option Nat}
    {cost : Nat} (sound : pager.Sound) (evolves : Evolves pager after ∅ cost)
    (continues : pager.Continues after)
    (tail : ∀ {ref}, prev = some ref → ∃ id, Tail pager id ref) :
    linkedTo after prev ⊆ linkedTo pager prev := by
  rintro id ⟨ref, rfl, object⟩
  obtain ⟨known, there⟩ := tail rfl
  have now := there.evolves sound evolves continues (Set.notMem_empty _)
  have member : id ∈ ({known} : Set PageID) := by
    rw [← linkedTo_some evolves.good now.1.object]
    exact ⟨ref, rfl, object⟩
  rw [Set.mem_singleton_iff.mp member]
  exact ⟨ref, rfl, there.object⟩

theorem Spills.chunk {before linked after : DefaultPager} {prev : Option Nat}
    {remaining : Bytes} {count ref : Nat} {newID start : PageID}
    (evolves : Evolves before linked (linkedTo before prev) 1)
    (continues : before.Continues linked)
    (new : ¬ before.Held newID) (sound : before.Sound)
    (last : Tail linked newID ref)
    (payload : Overflow.payload (linked.pageOf newID) =
      remaining.take Overflow.maxPayload)
    (counted : count = min remaining.length Overflow.maxPayload)
    (nonempty : 0 < remaining.length)
    (joined : ∀ {id old}, prev = some old → Tail before id old →
      Linked (before.pageOf id) (linked.pageOf id) newID)
    (rest : Spills linked after (some ref) (remaining.drop count) start) :
    Spills before after prev remaining newID := by
  have only := linkedTo_some evolves.good last.object
  have size := List.length_drop (i := count) (l := remaining)
  have positive : 0 < count := by
    rw [counted]
    exact Nat.lt_min.mpr ⟨nonempty, by decide⟩
  have held := rest.evolves.keeps (evolves.good.held_object last.object)
  have here := rest.linked rfl last
  refine ⟨?_, continues.trans rest.continues, ?_, ?_⟩
  · have whole := evolves.trans_fresh new (rest.evolves.mono (by
      rw [only]
      exact Set.singleton_subset_iff.mpr (.inl rfl)))
    exact whole.afford (by omega)
  · have bytes : remaining = Overflow.payload (after.pageOf newID) ++
        remaining.drop count := by
      rw [here.payload_eq, payload, counted]
      rcases Nat.le_total remaining.length Overflow.maxPayload with le | ge
      · rw [List.take_of_length_le le, Nat.min_eq_left le,
          List.drop_length, List.append_nil]
      · rw [Nat.min_eq_right ge, List.take_append_drop]
    rw [bytes]
    refine .page held here.type_eq ?_ ?_
    · rw [here.payload_eq, payload, ← List.length_pos_iff, List.length_take]
      exact Nat.lt_min.mpr ⟨by decide, nonempty⟩
    · rw [here.next_eq]
      exact rest.spilled
  · intro id old known tail
    have linkedNow := joined known tail
    have there := sound.held_object tail.object
    have same : after.pageOf id = linked.pageOf id := by
      refine rest.evolves.frame (evolves.keeps there) ?_
      rw [only]
      exact fun equal => new (Set.mem_singleton_iff.mp equal ▸ there)
    rw [same]
    exact linkedNow

namespace Store

/-- What the loop of `writeOverflowChain` does with the given fuel. -/
def SpillSpec (fuel : Nat) : Prop :=
  ∀ {tx : Transaction} {remaining : Bytes} {first : PageID}
    {prev : Option Nat} {store : Store},
    Engaged store.pager tx → store.pager.Sound → remaining.length ≤ fuel →
    store.pager.info.nextPageID.toNat + remaining.length < 2 ^ 64 →
    (∀ {ref}, prev = some ref → ∃ id, Tail store.pager id ref) →
    ∃ start after tracked,
      spill tx fuel remaining first prev store =
        (.ok (if first = invalidPageID then start else first), tracked,
          store.setPager after) ∧
      Tracked tx tracked ∧ Engaged after tracked ∧
      Spills store.pager after prev remaining start

theorem spill_nil {fuel : Nat} {tx : Transaction} {first : PageID}
    {prev : Option Nat} {store : Store} (engaged : Engaged store.pager tx)
    (sound : store.pager.Sound) :
    ∃ start after tracked,
      spill tx fuel [] first prev store =
        (.ok (if first = invalidPageID then start else first), tracked,
          store.setPager after) ∧
      Tracked tx tracked ∧ Engaged after tracked ∧
      Spills store.pager after prev [] start := by
  have nothing : spill tx fuel [] first prev store = (.ok first, tx, store) := by
    cases fuel <;> simp [spill]
  refine ⟨invalidPageID, store.pager, tx, ?_, .refl tx, engaged, .refl sound,
    .refl _, .done, fun _ tail => ⟨tail.type_eq, rfl, tail.next_eq⟩⟩
  have head : (if first = invalidPageID then invalidPageID else first) =
      first := by
    split
    · rename_i same
      exact same.symm
    · rfl
  rw [nothing, head]
  rfl

theorem spill_cons {fuel : Nat} (later : SpillSpec fuel) {tx : Transaction}
    {remaining : Bytes} {first : PageID} {prev : Option Nat} {store : Store}
    (engaged : Engaged store.pager tx) (sound : store.pager.Sound)
    (short : remaining.length ≤ fuel + 1)
    (roomy : store.pager.info.nextPageID.toNat + remaining.length < 2 ^ 64)
    (tail : ∀ {ref}, prev = some ref → ∃ id, Tail store.pager id ref)
    (nonempty : 0 < remaining.length) :
    ∃ start after tracked,
      spill tx (fuel + 1) remaining first prev store =
        (.ok (if first = invalidPageID then start else first), tracked,
          store.setPager after) ∧
      Tracked tx tracked ∧ Engaged after tracked ∧
      Spills store.pager after prev remaining start := by
  obtain ⟨ref, allocated, shape, each⟩ :=
    newChunk_spec sound remaining (by omega)
  rcases chunk : Overflow.writeChunk remaining (Overflow.setNextPage
    invalidPageID (allocated.heap ref)) with ⟨count, page⟩
  obtain ⟨_, _, counted⟩ := Overflow.writeChunk_spec remaining
    (Overflow.setNextPage invalidPageID (allocated.heap ref))
  rw [chunk] at counted each
  simp only at counted
  obtain ⟨pageID, new, evolves, continues, last, here, payload⟩ :=
    each page rfl
  obtain ⟨tracked, track, grown, engagedNow⟩ :=
    (engaged.continues continues).trackDirty evolves.good last.object
  have before : ∀ {id old}, Tail store.pager id old →
      Tail (allocated.setObject ref page) id old ∧
        (allocated.setObject ref page).pageOf id =
          store.pager.pageOf id :=
    fun there => there.evolves sound evolves continues
      (Set.notMem_empty _)
  obtain ⟨linked, linkEq, evolvesLink, continuesLink, joined⟩ :=
    linkTail_spec evolves.good page.header.id fun known => by
      obtain ⟨id, there⟩ := tail known
      exact ⟨id, (before there).1⟩
  have narrower := linkedTo_subset sound evolves continues tail
  have apart : store.pager.info.nextPageID ∉
      linkedTo (allocated.setObject ref page) prev := by
    intro member
    obtain ⟨_, _, object⟩ := narrower member
    exact new (sound.held_object object)
  have whole : Evolves store.pager linked (linkedTo store.pager prev) 1 :=
    (evolves.mono (Set.empty_subset _)).trans (evolvesLink.mono narrower)
  obtain ⟨lastNow, same⟩ :=
    last.evolves evolves.good evolvesLink continuesLink apart
  have bound := count_le whole
  have size := List.length_drop (i := count) (l := remaining)
  have positive : 0 < count := by
    rw [counted]
    exact Nat.lt_min.mpr ⟨nonempty, by decide⟩
  obtain ⟨start, after, final, spillEq, trackLater, engagedLater, spills⟩ :=
    @later tracked (remaining.drop count) (if first = invalidPageID then
      page.header.id else first) (some ref) (store.setPager linked)
      (engagedNow.continues continuesLink) evolvesLink.good (by omega)
      (show linked.info.nextPageID.toNat + _ < _ by omega)
      (fun known => ⟨_, Option.some.inj known ▸ lastNow⟩)
  refine ⟨page.header.id, after, final, ?_, grown.trans trackLater,
    engagedLater, ?_⟩
  · have valid : page.header.id ≠ invalidPageID := by
      rw [pageID]
      exact evolves.good.ne_invalid (evolves.good.held_object last.object)
    have head : ¬ (if first = invalidPageID then page.header.id
        else first) = invalidPageID := by
      split
      · exact valid
      · assumption
    have filled : remaining ≠ [] := List.ne_nil_of_length_pos nonempty
    rw [if_neg head] at spillEq
    rw [spill, if_neg filled, shape]
    simp only [chunk, track]
    rw [linkEq, spillEq]
    rfl
  · rw [pageID]
    rw [pageID] at joined
    refine .chunk whole (continues.trans continuesLink) new sound lastNow
      ?_ counted nonempty ?_ spills
    · rw [same, here]
      exact payload
    · intro id old known there
      rw [← (before there).2]
      exact joined known (before there).1

theorem spill_spec (fuel : Nat) : SpillSpec fuel := by
  induction fuel with
  | zero =>
      intro tx remaining first prev store engaged sound short _ _
      obtain rfl := List.eq_nil_of_length_eq_zero (Nat.le_zero.mp short)
      exact spill_nil engaged sound
  | succ fuel inductionHypothesis =>
      intro tx remaining first prev store engaged sound short roomy tail
      cases remaining with
      | nil => exact spill_nil engaged sound
      | cons byte rest =>
          exact spill_cons inductionHypothesis engaged sound short roomy tail
            (Nat.succ_pos _)

end Store

/-! ## Slots -/

def Active (pager : DefaultPager) (pages : List Nat) : Prop :=
  ∀ ref, ref ∈ pages →
    ∃ id, pager.objectOf id = some ref ∧ RecordPage (pager.pageOf id)

theorem Active.preserves {after : DefaultPager} {pages : List Nat}
    (active : Active pager pages) (sound : pager.Sound)
    (preserves : Preserves pager after)
    (objects : ∀ {id ref}, pager.objectOf id = some ref →
      after.objectOf id = some ref) : Active after pages := by
  intro ref inside
  obtain ⟨id, object, page⟩ := active ref inside
  exact ⟨id, objects object,
    (preserves.record (sound.held_object object) page).page⟩

theorem Active.advance {after : DefaultPager} {pages : List Nat} {cost : Nat}
    (active : Active pager pages) (sound : pager.Sound)
    (advances : Advances pager after cost) : Active after pages :=
  active.preserves sound advances.toPreserves advances.continues.objects

theorem insert_fits {page : Page} (layout : Slotted.Layout page)
    {bytes : Bytes} (fits : bytes.length + slotSize ≤ Slotted.freeSpace page) :
    ∃ slot after, Slotted.insert page bytes = (.ok slot, after) ∧
      slot < 65536 ∧ after.header.id = page.header.id ∧
      after.header.type = page.header.type ∧ Slotted.Layout after ∧
      Slotted.content after slot = some bytes ∧
      ∀ {other stored}, Slotted.content page other = some stored →
        Slotted.content after other = some stored := by
  have lower := layout.start_le
  have upper := layout.end_le
  have packed := layout.packed
  rw [layout.freeSpace_eq] at fits
  unfold slotSize at fits
  have spec := layout.insert_spec (show bytes.length < 65532 by omega)
  have cost : Slotted.entryCost page ≤ 4 := by
    unfold Slotted.entryCost slotSize
    split <;> omega
  obtain ⟨done, unused, content, count, _⟩ := spec.fits (by
    unfold Slotted.insertDemand
    omega)
  have layoutAfter := spec.layout_out
  have identity := spec.identity
  rcases outcome : Slotted.insert page bytes with ⟨result, after⟩
  rw [outcome] at done content layoutAfter identity
  simp only at done content layoutAfter identity
  subst done
  generalize (Slotted.findUnused page).getD page.header.slotCount = slot at *
  have here : Slotted.content after slot = some bytes := by
    rw [content, Function.update_self]
  refine ⟨slot, after, rfl, ?_, identity.1, identity.2, layoutAfter, here, ?_⟩
  · have live : Slotted.Live after slot := by
      by_contra missing
      rw [Slotted.content_not_live missing] at here
      cases here
    have few := layoutAfter.slotCount_le
    exact (live.1.trans_le few).trans (by decide)
  · intro other stored known
    rw [content, Function.update_of_ne ?_, known]
    rintro rfl
    rw [Slotted.content_not_live unused] at known
    cases known

namespace Store

variable {store : Store}

theorem findActive_spec {needed : Nat} : ∀ {pages : List Nat} {index : Nat},
    Active store.pager pages →
    ∃ found, findActive needed index pages store = (found, store) ∧
      ∀ {place ref}, found = some (place, ref) →
        ref ∈ pages ∧ needed ≤ Slotted.freeSpace (store.pager.heap ref)
  | [], _, _ => ⟨none, rfl, fun known => (nomatch known)⟩
  | ref :: rest, index, active => by
      obtain ⟨id, object, page⟩ := active ref (List.mem_cons_self ..)
      rw [pageOf_object object] at page
      rw [findActive, wrap_layout page.layout]
      by_cases fits : needed ≤ Slotted.freeSpace (store.pager.heap ref)
      · refine ⟨some (index, ref), by simp only [fits, if_true], ?_⟩
        rintro _ _ ⟨⟩
        exact ⟨List.mem_cons_self .., fits⟩
      · obtain ⟨found, foundEq, each⟩ :=
          @findActive_spec needed rest (index + 1) fun other inside =>
            active other (List.mem_cons_of_mem _ inside)
        refine ⟨found, by simp only [fits, if_false, foundEq], ?_⟩
        intro place other known
        exact ⟨List.mem_cons_of_mem _ (each known).1, (each known).2⟩

structure Roomy (pager : DefaultPager) (pages : List Nat) (ref needed : Nat) :
    Prop where
  page : ∃ id, pager.objectOf id = some ref ∧ RecordPage (pager.pageOf id)
  fits : needed ≤ Slotted.freeSpace (pager.heap ref)
  active : Active pager pages

theorem activePage_spec {needed : Nat} (sound : store.pager.Sound)
    (active : Active store.pager store.activePages) (small : needed ≤ 16320)
    (roomy : store.pager.info.nextPageID.toNat + 1 < 2 ^ 64) :
    ∃ index ref after pages, store.activePage needed = ((index, ref),
        { store.setPager after with activePages := pages }) ∧
      Works store.pager after 1 ∧ Roomy after pages ref needed := by
  obtain ⟨found, findEq, each⟩ :=
    @findActive_spec store needed store.activePages 0 active
  unfold activePage
  rw [findEq]
  rcases found with _ | ⟨index, ref⟩
  · obtain ⟨ref, allocated, shape, object, fresh, new, evolves, continues⟩ :=
      allocate_spec sound roomy .pageRecord
    have wrapped : Slotted.wrapSlotted (allocated.heap ref) =
        Slotted.fresh store.pager.info.nextPageID .pageRecord := by
      rw [fresh]
      rfl
    obtain ⟨stored, kept, here⟩ := setObject_spec evolves.good object
      (show (Slotted.fresh store.pager.info.nextPageID
        .pageRecord).header.id = _ from rfl)
    have works := Works.of_evolves
      (evolves.trans_fresh new (stored.mono fun _ member => .inl member))
      (continues.trans kept)
    have page : RecordPage ((allocated.setObject ref (Slotted.fresh
        store.pager.info.nextPageID .pageRecord)).pageOf
        store.pager.info.nextPageID) := by
      rw [here]
      exact ⟨rfl, Slotted.fresh_layout _ _⟩
    refine ⟨store.activePages.length, ref, _, store.activePages ++ [ref], ?_,
      works, ⟨_, kept.objects object, page⟩, ?_, ?_⟩
    · simp only [shape, wrap]
      rw [show (store.setPager allocated).pager.heap ref =
        allocated.heap ref from rfl, wrapped]
      rfl
    · rw [← pageOf_object (kept.objects object), here]
      exact small
    · intro old inside
      rcases List.mem_append.mp inside with before | last
      · exact active.advance sound works.toAdvances old before
      · rw [List.mem_singleton.mp last]
        exact ⟨_, kept.objects object, page⟩
  · obtain ⟨inside, fits⟩ := each rfl
    exact ⟨index, ref, store.pager, store.activePages, rfl,
      (Works.refl sound).afford (Nat.zero_le 1), active ref inside, fits, active⟩

structure Placed (pager : DefaultPager) (bytes : Bytes) (ref slot : Nat) :
    Prop where
  page : ∃ id, pager.objectOf id = some ref ∧ RecordPage (pager.pageOf id)
  content : Slotted.content (pager.heap ref) slot = some bytes
  small : slot < 65536

theorem allocateRecordSlot_spec {tx : Transaction} {bytes : Bytes}
    (sound : store.pager.Sound)
    (active : Active store.pager store.activePages)
    (engaged : Engaged store.pager tx) (small : bytes.length ≤ 4040)
    (roomy : store.pager.info.nextPageID.toNat + 1 < 2 ^ 64) :
    ∃ ref slot tracked after,
      store.allocateRecordSlot tx bytes = (.ok (ref, slot), tracked, after) ∧
      after = { store.setPager after.pager with
        activePages := after.activePages } ∧
      Tracked tx tracked ∧ Engaged after.pager tracked ∧
      Works store.pager after.pager 1 ∧
      Active after.pager after.activePages ∧
      Placed after.pager bytes ref slot := by
  have needed : u16 (bytes.length + slotSize) = bytes.length + slotSize :=
    u16_of_lt (by unfold slotSize; omega)
  obtain ⟨index, ref, chosen, pages, chosenEq, worksFirst, room⟩ :=
    activePage_spec sound active (show u16 (bytes.length + slotSize) ≤ 16320
      by rw [needed]; unfold slotSize; omega) roomy
  obtain ⟨id, object, page⟩ := room.page
  have held := worksFirst.sound.held_object object
  have fits := room.fits
  rw [needed] at fits
  rw [pageOf_object object] at page
  obtain ⟨slot, filled, insertEq, smallSlot, sameID, sameType, layout, here,
    others⟩ := insert_fits page.layout fits
  have slots : SlotsKept (chosen.heap ref) filled :=
    ⟨⟨sameType.trans page.type_eq, layout⟩, others⟩
  have headerID : filled.header.id = id := by
    rw [sameID, ← pageOf_object object]
    exact worksFirst.sound.pageOf_id held
  have worksSecond : Works chosen (chosen.setObject ref filled) 0 := by
    refine setObject_works worksFirst.sound object headerID
      (fun _ => slots) ?_ ?_
    · intro type
      rw [page.type_eq] at type
      cases type
    · intro node
      exact absurd page.type_eq (node_apart node).1
  obtain ⟨_, _, hereNow⟩ :=
    setObject_spec worksFirst.sound object headerID
  have objectNow := worksSecond.continues.objects object
  have works := worksFirst.trans worksSecond
  obtain ⟨tracked, trackEq, track, engagedNow⟩ :=
    (engaged.continues works.continues).trackDirty works.sound objectNow
  have activeNow := room.active.advance worksFirst.sound
    worksSecond.toAdvances
  have placed : Placed (chosen.setObject ref filled) bytes ref slot := by
    refine ⟨⟨id, objectNow, ?_⟩, ?_, smallSlot⟩
    · rw [hereNow]
      exact slots.page
    · rw [← pageOf_object objectNow, hereNow]
      exact here
  unfold allocateRecordSlot
  simp only [chosenEq]
  rw [show ({ store.setPager chosen with activePages := pages } :
    Store).pager.heap ref = chosen.heap ref from rfl, insertEq]
  simp only
  rw [show (setPager ((pager { store.setPager chosen with activePages :=
    pages }).setObject ref filled) { store.setPager chosen with activePages :=
    pages }).pager = chosen.setObject ref filled from rfl, trackEq]
  simp only
  split
  · refine ⟨ref, slot, tracked, _, rfl, rfl, track, engagedNow, works, ?_,
      placed⟩
    exact fun old inside => activeNow old (List.mem_of_mem_eraseIdx inside)
  · exact ⟨ref, slot, tracked, _, rfl, rfl, track, engagedNow, works,
      activeNow, placed⟩

end Store

end CocoDB.Record
