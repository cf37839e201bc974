import CocoDB.Lib.Links
import CocoDB.Storage.Page
import Mathlib.Data.List.AList

/-!
# A cache shard and its list

`internal/storage/shard.go` with its pointers: the entries of a shard are at
addresses, linked from the most to the least recently used one, and a map leads
from page identifiers to addresses.  An entry that is dropped is not used again.
-/

namespace CocoDB

open Lib

structure EntryData where
  id : PageID
  page : Nat
  pins : Int32
  dirty : Bool
  pageLSN : LSN

structure EntryNode extends EntryData where
  prev : Option Nat
  next : Option Nat

/-- `CacheShard`, with the memory it points into: the entries, up to the next
free address, and the page objects. -/
structure LinkedShard where
  capacity : Int
  entries : AList fun _ : PageID => Nat
  head : Option Nat
  tail : Option Nat
  node : Nat → EntryNode
  allocated : Nat
  pages : Nat → Page

namespace LinkedShard

/-- `newCacheShard`, in a memory with some page objects -/
def newCacheShard (capacity : Int) (node : Nat → EntryNode)
    (pages : Nat → Page) : LinkedShard where
  capacity := capacity
  entries := ∅
  head := none
  tail := none
  node := node
  allocated := 0
  pages := pages

def setNode (e : Nat) (change : EntryNode → EntryNode)
    (shard : LinkedShard) : LinkedShard :=
  { shard with node := Function.update shard.node e (change (shard.node e)) }

theorem setNode_self (e : Nat) (change : EntryNode → EntryNode)
    (shard : LinkedShard) :
    (shard.setNode e change).node e = change (shard.node e) :=
  Function.update_self _ _ _

theorem setNode_of_ne {e other : Nat} (different : other ≠ e)
    (change : EntryNode → EntryNode) (shard : LinkedShard) :
    (shard.setNode e change).node other = shard.node other :=
  Function.update_of_ne different _ _

def addToHead (e : Nat) (shard : LinkedShard) : LinkedShard :=
  let placed := shard.setNode e fun entry =>
    { entry with prev := none, next := shard.head }
  let linked :=
    match shard.head with
    | some old => placed.setNode old fun entry => { entry with prev := some e }
    | none => placed
  { linked with head := some e, tail := linked.tail.or (some e) }

def removeEntry (e : Nat) (shard : LinkedShard) : LinkedShard :=
  let forward :=
    match (shard.node e).prev with
    | some before => shard.setNode before fun entry =>
        { entry with next := (shard.node e).next }
    | none => { shard with head := (shard.node e).next }
  let backward :=
    match (forward.node e).next with
    | some after => forward.setNode after fun entry =>
        { entry with prev := (forward.node e).prev }
    | none => { forward with tail := (forward.node e).prev }
  backward.setNode e fun entry => { entry with prev := none, next := none }

def moveToHead (e : Nat) (shard : LinkedShard) : LinkedShard :=
  if shard.head = some e then shard else (shard.removeEntry e).addToHead e

/-- The walk of `evictOne` from the tail.  It takes at most as many steps as
there are entries. -/
def victim (shard : LinkedShard) : Option Nat :=
  seek (fun e => (shard.node e).prev) (fun e => (shard.node e).pins = 0)
    (shard.entries.entries.length + 1) shard.tail

def evictOne (shard : LinkedShard) : Option Nat × LinkedShard :=
  match shard.victim with
  | some cur =>
      let removed := shard.removeEntry cur
      (some cur, { removed with
        entries := removed.entries.erase (removed.node cur).id })
  | none => (none, shard)

/-- `Get`: the page object -/
def get (id : PageID) (shard : LinkedShard) : Option Nat × LinkedShard :=
  match shard.entries.lookup id with
  | none => (none, shard)
  | some e =>
      (some (shard.node e).page,
        (shard.setNode e fun entry =>
          { entry with pins := entry.pins + 1 }).moveToHead e)

/-- The entry `Put` makes for a page that is not in the shard. -/
def insert (page : Nat) (shard : LinkedShard) : LinkedShard :=
  let id := (shard.pages page).header.id
  { shard with
    node := Function.update shard.node shard.allocated
      { id := id, page := page, pins := 1, dirty := (shard.pages page).dirty,
        pageLSN := (shard.pages page).header.lsn, prev := none, next := none }
    allocated := shard.allocated + 1
    entries := shard.entries.insert id shard.allocated }

/-- `Put`: the entry that was evicted -/
def put (page : Nat) (shard : LinkedShard) : Option Nat × LinkedShard :=
  match shard.entries.lookup (shard.pages page).header.id with
  | some e =>
      (none, (shard.setNode e fun entry =>
        { entry with
          page := page, pins := entry.pins + 1
          dirty := (shard.pages page).dirty
          pageLSN := (shard.pages page).header.lsn }).moveToHead e)
  | none =>
      let grown := (shard.insert page).addToHead shard.allocated
      if grown.capacity < grown.entries.entries.length then grown.evictOne
      else (none, grown)

def pin (id : PageID) (shard : LinkedShard) : Bool × LinkedShard :=
  match shard.entries.lookup id with
  | some e =>
      (true, shard.setNode e fun entry => { entry with pins := entry.pins + 1 })
  | none => (false, shard)

def unpin (id : PageID) (shard : LinkedShard) : LinkedShard :=
  match shard.entries.lookup id with
  | some e =>
      shard.setNode e fun entry =>
        if 0 < entry.pins then { entry with pins := entry.pins - 1 }
        else entry
  | none => shard

/-- `MarkDirty`, of the entry and of its page object -/
def markDirty (id : PageID) (lsn : LSN) (shard : LinkedShard) : LinkedShard :=
  match shard.entries.lookup id with
  | some e =>
      let marked := shard.setNode e fun entry =>
        { entry with dirty := true, pageLSN := lsn }
      let page := shard.pages (shard.node e).page
      { marked with
        pages := Function.update shard.pages (shard.node e).page
          { page with
            dirty := true, header := { page.header with lsn := lsn } } }
  | none => shard

/-- `Remove`: the entry that was removed -/
def remove (id : PageID) (shard : LinkedShard) : Option Nat × LinkedShard :=
  match shard.entries.lookup id with
  | some e =>
      let removed := shard.removeEntry e
      (some e, { removed with entries := removed.entries.erase id })
  | none => (none, shard)

/-! ## The links -/

def links (shard : LinkedShard) : Links Nat where
  next e := (shard.node e).next
  prev e := (shard.node e).prev
  head := shard.head
  tail := shard.tail

variable {shard : LinkedShard} {e : Nat}

theorem links_addToHead (e : Nat) (shard : LinkedShard) :
    (shard.addToHead e).links = shard.links.addToHead e := by
  simp only [links, addToHead, Links.addToHead, setNode]
  cases shard.head with
  | none =>
      congr 1
      · funext other
        by_cases same : other = e <;> simp [Function.update, same]
      · funext other
        by_cases same : other = e <;> simp [Function.update, same]
  | some old =>
      congr 1
      · funext other
        by_cases same : other = e <;> by_cases last : other = old <;>
          simp_all [Function.update]
      · funext other
        by_cases same : other = e <;> by_cases last : other = old <;>
          simp_all [Function.update]

theorem links_removeEntry (e : Nat) (shard : LinkedShard) :
    (shard.removeEntry e).links = shard.links.removeEntry e := by
  -- the two ends of the entry are read before and after the first change
  have ends : ∀ before : Nat, ((shard.setNode before fun entry =>
        { entry with next := (shard.node e).next }).node e).next =
          (shard.node e).next ∧
      ((shard.setNode before fun entry =>
        { entry with next := (shard.node e).next }).node e).prev =
          (shard.node e).prev := by
    intro before
    by_cases same : e = before <;> simp [setNode, Function.update, same]
  simp only [links, removeEntry, Links.removeEntry, bypass]
  cases first : (shard.node e).prev with
  | none =>
      cases second : (shard.node e).next with
      | none =>
          simp only [first, setNode]
          congr 1
          · funext other
            by_cases same : other = e <;> simp [Function.update, same]
          · funext other
            by_cases same : other = e <;> simp [Function.update, same]
      | some after =>
          simp only [first, setNode]
          congr 1
          · funext other
            by_cases same : other = e <;> by_cases last : other = after <;>
              simp_all [Function.update]
          · funext other
            by_cases same : other = e <;> by_cases last : other = after <;>
              simp_all [Function.update]
  | some before =>
      simp only [ends before]
      cases second : (shard.node e).next with
      | none =>
          simp only [first, setNode]
          congr 1
          · funext other
            by_cases same : other = e <;> by_cases last : other = before <;>
              simp_all [Function.update]
          · funext other
            by_cases same : other = e <;> by_cases last : other = before <;>
              simp_all [Function.update]
      | some after =>
          simp only [first, setNode]
          congr 1
          · funext other
            by_cases same : other = e <;> by_cases last : other = before <;>
              by_cases next : other = after <;>
                simp_all [Function.update]
          · funext other
            by_cases same : other = e <;> by_cases last : other = before <;>
              by_cases next : other = after <;>
                simp_all [Function.update]

/-! ## What list surgery leaves alone -/

structure SameEntries (one two : LinkedShard) : Prop where
  capacity : one.capacity = two.capacity
  entries : one.entries = two.entries
  data : ∀ e, (one.node e).toEntryData = (two.node e).toEntryData
  allocated : one.allocated = two.allocated
  pages : one.pages = two.pages

theorem sameEntries_refl (shard : LinkedShard) : SameEntries shard shard :=
  ⟨rfl, rfl, fun _ => rfl, rfl, rfl⟩

theorem SameEntries.trans {one two three : LinkedShard}
    (first : SameEntries one two) (second : SameEntries two three) :
    SameEntries one three :=
  ⟨first.capacity.trans second.capacity, first.entries.trans second.entries,
    fun e => (first.data e).trans (second.data e),
    first.allocated.trans second.allocated, first.pages.trans second.pages⟩

theorem sameEntries_setNode {change : EntryNode → EntryNode}
    (same : ∀ entry, (change entry).toEntryData = entry.toEntryData)
    (e : Nat) (shard : LinkedShard) :
    SameEntries (shard.setNode e change) shard where
  capacity := rfl
  entries := rfl
  data other := by
    by_cases here : other = e
    · rw [here, setNode_self, same]
    · rw [setNode_of_ne here]
  allocated := rfl
  pages := rfl

theorem SameEntries.ends {one two : LinkedShard} (same : SameEntries one two)
    (head tail : Option Nat) :
    SameEntries { one with head := head, tail := tail } two :=
  ⟨same.capacity, same.entries, same.data, same.allocated, same.pages⟩

theorem sameEntries_addToHead (e : Nat) (shard : LinkedShard) :
    SameEntries (shard.addToHead e) shard := by
  have placed : ∀ head : Option Nat,
      SameEntries (shard.setNode e fun entry =>
        { entry with prev := none, next := head }) shard := by
    intro head
    apply sameEntries_setNode
    exact fun _ => rfl
  have linked : ∀ (old : Nat) (other : LinkedShard),
      SameEntries (other.setNode old fun entry =>
        { entry with prev := some e }) other := by
    intro old other
    apply sameEntries_setNode
    exact fun _ => rfl
  simp only [addToHead]
  cases shard.head with
  | none => exact (placed none).ends (some e) (shard.tail.or (some e))
  | some old =>
      exact ((linked old _).trans (placed (some old))).ends (some e)
        (shard.tail.or (some e))

theorem sameEntries_removeEntry (e : Nat) (shard : LinkedShard) :
    SameEntries (shard.removeEntry e) shard := by
  have forward : ∀ (target : Option Nat) (before : Nat) (other : LinkedShard),
      SameEntries (other.setNode before fun entry =>
        { entry with next := target }) other := by
    intro target before other
    apply sameEntries_setNode
    exact fun _ => rfl
  have backward : ∀ (target : Option Nat) (after : Nat) (other : LinkedShard),
      SameEntries (other.setNode after fun entry =>
        { entry with prev := target }) other := by
    intro target after other
    apply sameEntries_setNode
    exact fun _ => rfl
  have cut : ∀ other : LinkedShard,
      SameEntries (other.setNode e fun entry =>
        { entry with prev := none, next := none }) other := by
    intro other
    apply sameEntries_setNode
    exact fun _ => rfl
  simp only [removeEntry]
  apply (cut _).trans
  cases (shard.node e).prev with
  | none =>
      have first : SameEntries { shard with head := (shard.node e).next }
          shard := (sameEntries_refl shard).ends (shard.node e).next shard.tail
      cases next : (shard.node e).next with
      | none =>
          simp only [next] at first ⊢
          exact first.ends none (shard.node e).prev
      | some after =>
          simp only [next] at first ⊢
          exact (backward _ after _).trans first
  | some before =>
      have first := forward (shard.node e).next before shard
      dsimp only
      split
      · exact (backward _ _ _).trans first
      · exact first.ends shard.head _

theorem sameEntries_moveToHead (e : Nat) (shard : LinkedShard) :
    SameEntries (shard.moveToHead e) shard := by
  simp only [moveToHead]
  split
  · exact sameEntries_refl shard
  · exact (sameEntries_addToHead e _).trans (sameEntries_removeEntry e shard)

/-! ## The shape of a shard -/

/-- From head to tail and back the list is made of the entries of the map, each
once. -/
structure Shaped (shard : LinkedShard) (order : List Nat) : Prop where
  laidOut : shard.links.LaidOut order
  mapped : ∀ id e, shard.entries.lookup id = some e ↔
    e ∈ order ∧ (shard.node e).id = id
  known : ∀ e ∈ order, e < shard.allocated

variable {order : List Nat}

theorem shaped_newCacheShard (capacity : Int) (node : Nat → EntryNode)
    (pages : Nat → Page) : (newCacheShard capacity node pages).Shaped [] where
  laidOut := Links.laidOut_nil _ _
  mapped id e := by
    rw [newCacheShard, AList.lookup_empty]
    simp
  known := by simp

theorem Shaped.length_eq (shaped : shard.Shaped order) :
    shard.entries.entries.length = order.length := by
  have ids : (shard.entries.entries.map Sigma.fst).Nodup :=
    shard.entries.nodupKeys
  have entries : ∀ entry : Sigma fun _ : PageID => Nat,
      entry ∈ shard.entries.entries ↔
        entry.2 ∈ order ∧ (shard.node entry.2).id = entry.1 := by
    intro entry
    rw [← shaped.mapped entry.1 entry.2]
    exact (AList.mem_lookup_iff).symm
  have addresses : (shard.entries.entries.map Sigma.snd).Perm order := by
    apply (List.perm_ext_iff_of_nodup _ shaped.laidOut.distinct).mpr
    · intro e
      rw [List.mem_map]
      constructor
      · rintro ⟨entry, member, rfl⟩
        exact ((entries entry).mp member).1
      · intro member
        exact ⟨⟨(shard.node e).id, e⟩, (entries _).mpr ⟨member, rfl⟩, rfl⟩
    · apply List.Nodup.map_on _ ids.of_map
      intro one first two second same
      have left := ((entries one).mp first).2
      have right := ((entries two).mp second).2
      rw [same] at left
      exact Sigma.ext (left.symm.trans right) (heq_of_eq same)
  rw [← addresses.length_eq, List.length_map]

theorem Shaped.of_sameEntries {other : LinkedShard} {after : List Nat}
    (shaped : shard.Shaped order) (same : SameEntries other shard)
    (laidOut : other.links.LaidOut after)
    (members : ∀ e, e ∈ after ↔ e ∈ order) : other.Shaped after where
  laidOut := laidOut
  mapped id e := by
    have data := congrArg EntryData.id (same.data e)
    rw [same.entries, members e, data]
    exact shaped.mapped id e
  known e member := by
    rw [same.allocated]
    exact shaped.known e ((members e).mp member)

def touch (e : Nat) (order : List Nat) : List Nat := e :: order.erase e

theorem mem_touch {other : Nat} (member : e ∈ order) :
    other ∈ touch e order ↔ other ∈ order := by
  rw [touch, List.mem_cons]
  constructor
  · rintro (rfl | later)
    · exact member
    · exact List.mem_of_mem_erase later
  · intro inOrder
    by_cases same : other = e
    · exact .inl same
    · exact .inr ((List.mem_erase_of_ne same).mpr inOrder)

theorem Shaped.moveToHead (shaped : shard.Shaped order) (member : e ∈ order) :
    (shard.moveToHead e).Shaped (touch e order) := by
  apply shaped.of_sameEntries (sameEntries_moveToHead e shard) _
    fun _ => mem_touch member
  simp only [LinkedShard.moveToHead]
  split
  · next first =>
      have start := shaped.laidOut.forward.first_eq
      change shard.head = order.head? at start
      rw [first] at start
      obtain ⟨rest, rfl⟩ := List.head?_eq_some_iff.mp start.symm
      rw [touch, List.erase_cons_head]
      exact shaped.laidOut
  · rw [links_addToHead, links_removeEntry]
    apply (shaped.laidOut.erase member).addToHead
    exact fun again => (shaped.laidOut.distinct.mem_erase_iff.mp again).1 rfl

/-! ## What the calls do to the list -/

variable {id : PageID} {change : EntryNode → EntryNode}

theorem Shaped.setNode (shaped : shard.Shaped order) (e : Nat)
    (keepsID : ∀ entry, (change entry).id = entry.id)
    (keepsNext : ∀ entry, (change entry).next = entry.next)
    (keepsPrev : ∀ entry, (change entry).prev = entry.prev) :
    (shard.setNode e change).Shaped order := by
  have same : ∀ {β : Type} (field : EntryNode → β),
      (∀ entry, field (change entry) = field entry) → ∀ other,
        field ((shard.setNode e change).node other) =
          field (shard.node other) := by
    intro β field keeps other
    by_cases here : other = e
    · rw [here, setNode_self, keeps]
    · rw [setNode_of_ne here]
  have links : (shard.setNode e change).links = shard.links := by
    simp only [LinkedShard.links, same _ keepsNext, same _ keepsPrev]
    rfl
  refine ⟨?_, ?_, shaped.known⟩
  · rw [links]
    exact shaped.laidOut
  · intro id other
    rw [same (fun entry => entry.id) keepsID]
    exact shaped.mapped id other

theorem Shaped.of_lookup (shaped : shard.Shaped order)
    (found : shard.entries.lookup id = some e) :
    e ∈ order ∧ (shard.node e).id = id :=
  (shaped.mapped id e).mp found

theorem Shaped.injective (shaped : shard.Shaped order) {other : Nat}
    (member : e ∈ order) (otherMember : other ∈ order)
    (same : (shard.node e).id = (shard.node other).id) : e = other := by
  have one := (shaped.mapped _ e).mpr ⟨member, same⟩
  have two := (shaped.mapped _ other).mpr ⟨otherMember, rfl⟩
  exact Option.some.inj (one.symm.trans two)

theorem Shaped.fresh (shaped : shard.Shaped order) : shard.allocated ∉ order :=
  fun member => Nat.lt_irrefl _ (shaped.known _ member)

theorem Shaped.insert (shaped : shard.Shaped order) {page : Nat}
    (missing : shard.entries.lookup (shard.pages page).header.id = none) :
    ((shard.insert page).addToHead shard.allocated).Shaped
      (shard.allocated :: order) := by
  have same := sameEntries_addToHead shard.allocated (shard.insert page)
  have old : ∀ e ∈ order, (shard.insert page).node e = shard.node e := by
    intro e member
    apply Function.update_of_ne
    rintro rfl
    exact shaped.fresh member
  have fresh : ((shard.insert page).node shard.allocated).id =
      (shard.pages page).header.id := by
    simp only [LinkedShard.insert, Function.update_self]
  refine ⟨?_, ?_, ?_⟩
  · rw [links_addToHead]
    apply Links.LaidOut.addToHead _ shaped.fresh
    have links := shaped.laidOut
    refine ⟨links.forward.congr ?_, links.backward.congr ?_, links.distinct⟩
    · intro e member
      exact congrArg EntryNode.next (old e member)
    · intro e member
      exact congrArg EntryNode.prev (old e (List.mem_reverse.mp member))
  · intro id e
    rw [same.entries, congrArg EntryData.id (same.data e), List.mem_cons]
    change (shard.entries.insert _ _).lookup id = some e ↔ _
    by_cases here : id = (shard.pages page).header.id
    · rw [here, AList.lookup_insert, Option.some_inj]
      constructor
      · rintro rfl
        exact ⟨.inl rfl, fresh⟩
      · rintro ⟨rfl | member, equal⟩
        · rfl
        · rw [old e member] at equal
          have found := (shaped.mapped _ e).mpr ⟨member, equal⟩
          rw [missing] at found
          cases found
    · rw [AList.lookup_insert_ne here, shaped.mapped id e]
      constructor
      · rintro ⟨member, equal⟩
        rw [old e member]
        exact ⟨.inr member, equal⟩
      · rintro ⟨rfl | member, equal⟩
        · exact absurd (equal.symm.trans fresh) here
        · rw [old e member] at equal
          exact ⟨member, equal⟩
  · intro e member
    rw [same.allocated]
    change e < shard.allocated + 1
    rcases List.mem_cons.mp member with rfl | inOrder
    · exact Nat.lt_succ_self _
    · exact Nat.lt_succ_of_lt (shaped.known e inOrder)

def drop (e : Nat) (shard : LinkedShard) : LinkedShard :=
  { shard.removeEntry e with
    entries := (shard.removeEntry e).entries.erase (shard.node e).id }

theorem Shaped.drop (shaped : shard.Shaped order) (member : e ∈ order) :
    (shard.drop e).Shaped (order.erase e) := by
  have same := sameEntries_removeEntry e shard
  refine ⟨?_, ?_, ?_⟩
  · have laidOut := shaped.laidOut.erase member
    rw [← links_removeEntry] at laidOut
    exact laidOut
  · intro id other
    change (AList.erase (shard.node e).id (shard.removeEntry e).entries).lookup
      id = some other ↔ _ ∧ ((shard.removeEntry e).node other).id = id
    rw [same.entries, congrArg EntryData.id (same.data other),
      shaped.laidOut.distinct.mem_erase_iff]
    by_cases here : id = (shard.node e).id
    · rw [here, AList.lookup_erase]
      constructor
      · intro found
        cases found
      · rintro ⟨⟨different, inOrder⟩, equal⟩
        exact absurd (shaped.injective inOrder member equal) different
    · rw [AList.lookup_erase_ne here, shaped.mapped id other]
      constructor
      · rintro ⟨inOrder, equal⟩
        refine ⟨⟨?_, inOrder⟩, equal⟩
        rintro rfl
        exact here equal.symm
      · rintro ⟨⟨_, inOrder⟩, equal⟩
        exact ⟨inOrder, equal⟩
  · intro other inErased
    change other < (shard.removeEntry e).allocated
    rw [same.allocated]
    exact shaped.known other (List.mem_of_mem_erase inErased)

theorem Shaped.victim_eq (shaped : shard.Shaped order) :
    shard.victim = order.reverse.find? fun e => (shard.node e).pins = 0 := by
  apply shaped.laidOut.backward.seek_eq
  rw [List.length_reverse, shaped.length_eq]
  exact Nat.lt_succ_self _

end LinkedShard

end CocoDB
