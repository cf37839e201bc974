import CocoDB.Storage.Page
import Mathlib.Data.Set.Insert

/-!
# The pager interface

What the index structures use of `storage.Pager`.  A page obtained from `Get` or
`Allocate` is a pointer in the source: `page` reads through it and `setPage`
writes through it.  `LawfulPager` is the contract of a pager that does not
fail on the pages it handed out and that allocates fresh pages for as long as
page identifiers last.
-/

namespace CocoDB

/-- The operations of a pager with state `σ`. -/
class Pager (σ : Type) where
  /-- `Get`: make the page available, or fail. -/
  get : PageID → σ → Except Error Unit × σ
  /-- The page behind a pointer. -/
  page : σ → PageID → Page
  /-- Write through a pointer. -/
  setPage : PageID → Page → σ → σ
  /-- `MarkDirty` -/
  markDirty : PageID → σ → σ
  /-- `Allocate`: the identifier of a new blank page of the given kind. -/
  allocate : PageType → σ → Except Error PageID × σ
  /-- `Meta().NextPageID`: identifiers from here on were never given out. -/
  pageCount : σ → Nat

/-- The contract of a pager.  `Good` is its own invariant, `Allocated` the set
of pages it has handed out, and the next `room` calls of `Allocate` succeed. -/
class LawfulPager (σ : Type) [Pager σ] where
  Good : σ → Prop
  Allocated : σ → PageID → Prop
  room : σ → Nat
  allocated_lt : ∀ {state id}, Good state → Allocated state id →
    id.toNat < Pager.pageCount state
  allocated_valid : ∀ {state id}, Good state → Allocated state id →
    id ≠ invalidPageID
  page_id : ∀ {state id}, Good state → Allocated state id →
    (Pager.page state id).header.id = id
  get_ok : ∀ {state id}, Good state → Allocated state id →
    (Pager.get id state).1 = .ok () ∧ Good (Pager.get id state).2
  get_allocated : ∀ {state id other}, Good state → Allocated state id →
    Allocated state other → Allocated (Pager.get id state).2 other
  get_page : ∀ {state id other}, Good state → Allocated state id →
    Allocated state other →
    Pager.page (Pager.get id state).2 other = Pager.page state other
  get_room : ∀ {state id}, Good state → Allocated state id →
    room state ≤ room (Pager.get id state).2
  setPage_good : ∀ {state id page}, Good state → Allocated state id →
    page.header.id = id → Good (Pager.setPage id page state)
  setPage_allocated : ∀ {state id page other}, Good state →
    Allocated state id → page.header.id = id → Allocated state other →
    Allocated (Pager.setPage id page state) other
  setPage_same : ∀ {state id page}, Good state → Allocated state id →
    page.header.id = id →
    Pager.page (Pager.setPage id page state) id = page
  setPage_other : ∀ {state id page other}, Good state →
    Allocated state id → page.header.id = id → Allocated state other →
    other ≠ id →
    Pager.page (Pager.setPage id page state) other = Pager.page state other
  setPage_room : ∀ {state id page}, Good state → Allocated state id →
    page.header.id = id → room state ≤ room (Pager.setPage id page state)
  markDirty_good : ∀ {state id}, Good state → Allocated state id →
    Good (Pager.markDirty id state)
  markDirty_allocated : ∀ {state id other}, Good state →
    Allocated state id → Allocated state other →
    Allocated (Pager.markDirty id state) other
  markDirty_page : ∀ {state id other}, Good state → Allocated state id →
    Allocated state other → (Pager.page state id).dirty = true →
    Pager.page (Pager.markDirty id state) other = Pager.page state other
  markDirty_room : ∀ {state id}, Good state → Allocated state id →
    room state ≤ room (Pager.markDirty id state)
  allocate_spec : ∀ {state} type, Good state → 0 < room state →
    ∃ id after, Pager.allocate type state = (.ok id, after) ∧
      Good after ∧ ¬ Allocated state id ∧ Allocated after id ∧
      (∀ other, Allocated state other → Allocated after other) ∧
      Pager.page after id = Page.newPage id type ∧
      (∀ other, Allocated state other →
        Pager.page after other = Pager.page state other) ∧
      room state ≤ room after + 1

section Evolution

variable {σ : Type} [Pager σ] [LawfulPager σ]

open LawfulPager

/-- `after` is reached from `before` by operations that rewrite at most the
pages in `touched` and allocate at most `cost` pages. -/
structure Evolves (before after : σ) (touched : Set PageID)
    (cost : Nat) : Prop where
  good : Good after
  keeps : ∀ {id}, Allocated before id → Allocated after id
  frame : ∀ {id}, Allocated before id → id ∉ touched →
    Pager.page after id = Pager.page before id
  room_le : room before ≤ room after + cost

namespace Evolves

variable {before middle after : σ} {first second touched : Set PageID}
  {cost more : Nat}

theorem refl (good : Good before) : Evolves before before touched 0 :=
  ⟨good, id, fun _ _ => rfl, Nat.le_refl _⟩

theorem trans (start : Evolves before middle touched cost)
    (rest : Evolves middle after touched more) :
    Evolves before after touched (cost + more) := by
  refine ⟨rest.good, fun held => rest.keeps (start.keeps held), ?_, ?_⟩
  · intro id held outside
    rw [rest.frame (start.keeps held) outside, start.frame held outside]
  · have firstBound := start.room_le
    have secondBound := rest.room_le
    omega

theorem mono (evolution : Evolves before after first cost)
    (wider : first ⊆ second) : Evolves before after second cost :=
  ⟨evolution.good, evolution.keeps,
    fun held outside =>
      evolution.frame held fun member => outside (wider member),
    evolution.room_le⟩

theorem afford (evolution : Evolves before after touched cost)
    (enough : cost ≤ more) : Evolves before after touched more :=
  ⟨evolution.good, evolution.keeps, evolution.frame,
    evolution.room_le.trans (Nat.add_le_add_left enough _)⟩

theorem trans_fresh (start : Evolves before middle touched cost)
    {fresh : PageID} (new : ¬ Allocated before fresh)
    (rest : Evolves middle after (insert fresh touched) more) :
    Evolves before after touched (cost + more) := by
  refine ⟨rest.good, fun held => rest.keeps (start.keeps held), ?_, ?_⟩
  · intro id held outside
    have different : id ≠ fresh := fun same => new (same ▸ held)
    rw [rest.frame (start.keeps held), start.frame held outside]
    exact fun member => member.elim different outside
  · have firstBound := start.room_le
    have secondBound := rest.room_le
    omega

end Evolves

theorem evolves_get {state : σ} {id : PageID} (good : Good state)
    (held : Allocated state id) :
    Evolves state (Pager.get id state).2 ∅ 0 :=
  ⟨(get_ok good held).2, get_allocated good held,
    fun other _ => get_page good held other, get_room good held⟩

theorem evolves_setPage {state : σ} {id : PageID} {page : Page}
    (good : Good state) (held : Allocated state id)
    (same : page.header.id = id) :
    Evolves state (Pager.setPage id page state) {id} 0 :=
  ⟨setPage_good good held same, setPage_allocated good held same,
    fun other outside => setPage_other good held same other outside,
    setPage_room good held same⟩

theorem evolves_markDirty {state : σ} {id : PageID} (good : Good state)
    (held : Allocated state id)
    (dirty : (Pager.page state id).dirty = true) :
    Evolves state (Pager.markDirty id state) ∅ 0 :=
  ⟨markDirty_good good held, markDirty_allocated good held,
    fun other _ => markDirty_page good held other dirty,
    markDirty_room good held⟩

theorem evolves_allocate {state : σ} (type : PageType) (good : Good state)
    (roomy : 0 < room state) :
    ∃ id after, Pager.allocate type state = (.ok id, after) ∧
      Evolves state after ∅ 1 ∧ ¬ Allocated state id ∧
      Allocated after id := by
  obtain ⟨id, after, allocated, goodAfter, fresh, held, keeps, _, others,
    bound⟩ := allocate_spec type good roomy
  exact ⟨id, after, allocated,
    ⟨goodAfter, fun {other} => keeps other,
      fun {other} old _ => others other old, bound⟩, fresh, held⟩

end Evolution

end CocoDB

/-! ## What the calls of a pager keep

A property of the pager that every call keeps is kept by everything that only
uses the pager through its calls: it can be made part of the contract.
-/

namespace CocoDB

open LawfulPager

section Kept

variable {σ : Type} [Pager σ] [LawfulPager σ]

/-- The calls of the pager keep a property. -/
structure Kept (property : σ → Prop) : Prop where
  get : ∀ {state id}, Good state → Allocated state id → property state →
    property (Pager.get id state).2
  setPage : ∀ {state id page}, Good state → Allocated state id →
    page.header.id = id → property state →
    property (Pager.setPage id page state)
  markDirty : ∀ {state id}, Good state → Allocated state id →
    property state → property (Pager.markDirty id state)
  allocate : ∀ {state} type, Good state → 0 < room state →
    property state → property (Pager.allocate type state).2

variable {property : σ → Prop}

@[reducible]
def Kept.contract (kept : Kept property) : LawfulPager σ where
  Good state := Good state ∧ property state
  Allocated := Allocated
  room := room
  allocated_lt good := allocated_lt good.1
  allocated_valid good := allocated_valid good.1
  page_id good := page_id good.1
  get_ok good held := ⟨(get_ok good.1 held).1, (get_ok good.1 held).2,
    kept.get good.1 held good.2⟩
  get_allocated good := get_allocated good.1
  get_page good := get_page good.1
  get_room good := get_room good.1
  setPage_good good held same := ⟨setPage_good good.1 held same,
    kept.setPage good.1 held same good.2⟩
  setPage_allocated good := setPage_allocated good.1
  setPage_same good := setPage_same good.1
  setPage_other good := setPage_other good.1
  setPage_room good := setPage_room good.1
  markDirty_good good held := ⟨markDirty_good good.1 held,
    kept.markDirty good.1 held good.2⟩
  markDirty_allocated good := markDirty_allocated good.1
  markDirty_page good := markDirty_page good.1
  markDirty_room good := markDirty_room good.1
  allocate_spec := by
    intro state type good roomy
    obtain ⟨id, after, allocated, goodAfter, rest⟩ :=
      allocate_spec type good.1 roomy
    have keeps := kept.allocate type good.1 roomy good.2
    rw [allocated] at keeps
    exact ⟨id, after, allocated, ⟨goodAfter, keeps⟩, rest⟩

end Kept

end CocoDB
