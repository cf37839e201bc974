import CocoDB.BTree.Structure
import CocoDB.Lib.Links

/-!
# Verifying a tree

`VerifyTree` goes over the items of a tree with a cursor and compares
neighbouring keys.  It sees the leaves from the leftmost one on along their
`NextLeaf` pointers, up to the first one without items, and nothing else: not
the separators, not the leaves behind an empty one, and not whether the chain is
made of the leaves of the tree.
-/

namespace CocoDB.BTree

open Lib

/-! ## The check -/

inductive VerifyError where
  | cursor (error : Error)
  /-- `b+tree ordering violation: %x >= %x` -/
  | ordering (prevKey key : Bytes)
  deriving DecidableEq, Repr

/-- The slices that `Items` takes of a payload are within it. -/
def sliceable (payload : Bytes) : Bool :=
  let kLen := ofBE (payload.take 2)
  let vLen := ofBE ((payload.drop 2).take 2)
  decide (payload.length < 4) ||
    decide (u16 (4 + kLen + vLen) > payload.length) ||
    decide (4 ≤ u16 (4 + kLen) ∧ u16 (4 + kLen) ≤ u16 (4 + kLen + vLen))

/-- `Items` reads the page as a leaf without an index out of range. -/
def readsAsLeaf (page : Page) : Bool :=
  decide (page.header.slotCount ≤ 4080) &&
    (List.range page.header.slotCount).all fun slotID =>
      match Slotted.get page slotID with
      | .error _ => true
      | .ok payload => sliceable payload

/-- `Err()` -/
def Cursor.outcome {σ : Type} (cursor : Cursor σ) : Except VerifyError Unit :=
  match cursor.err with
  | some error => .error (.cursor error)
  | none => .ok ()

section Check

variable {σ : Type} [Pager σ]

/-- The move of a cursor, unless `Items` panics on the leaf it comes to. -/
def landed (moved : Bool × Cursor σ) : Option (Bool × Cursor σ) :=
  if moved.2.err.isNone &&
      !readsAsLeaf (Pager.page moved.2.tree.pager moved.2.leaf) then none
  else some moved

/-- The loop of `VerifyTree`.  There is no result if it takes more rounds than
`fuel`, or panics. -/
def verifyFrom : Nat → Option Bytes → Cursor σ →
    Option (Except VerifyError Unit × Tree σ)
  | 0, _, _ => none
  | fuel + 1, prevKey, cursor =>
      if cursor.isValid = false then some (cursor.outcome, cursor.tree)
      else
        let key := cursor.key
        match prevKey.filter fun before => key.getD [] ≤ before with
        | some before =>
            some (.error (.ordering before (key.getD [])), cursor.tree)
        | none =>
            match landed cursor.next with
            | none => none
            | some (false, after) => some (after.outcome, after.tree)
            | some (true, after) => verifyFrom fuel key after

def verifyTree (fuel : Nat) (tree : Tree σ) :
    Option (Except VerifyError Unit × Tree σ) :=
  if tree.root = invalidPageID then some (.ok (), tree)
  else
    match landed (Cursor.new tree).first with
    | none => none
    | some (false, after) => some (after.outcome, after.tree)
    | some (true, after) => verifyFrom fuel none after

end Check

/-! ## Stores of pages -/

structure PageStore where
  read : PageID → Except Error Page
  count : Nat

namespace PageStore

def pageAt (store : PageStore) (id : PageID) : Page :=
  match store.read id with
  | .ok page => page
  | .error _ => Page.newPage id .pageBTreeLeaf

instance : Pager PageStore where
  get id store := ((store.read id).map fun _ => (), store)
  page := pageAt
  setPage id page store :=
    { store with read := Function.update store.read id (.ok page) }
  markDirty _ store := store
  allocate type store :=
    let id := UInt64.ofNat store.count
    (.ok id,
      { read := Function.update store.read id (.ok (Page.newPage id type))
        count := store.count + 1 })
  pageCount := count

end PageStore

/-- Every page the root leads to can be read and is a node, and no two paths
lead to one page. -/
structure FormsTree (store : PageStore) (root : PageID) : Prop where
  node : ∀ path id, follow store.pageAt root path = some id →
    id.toNat < store.count ∧ ∃ page, store.read id = .ok page ∧
      ((∃ items, LeafPage page items) ∨
        ∃ items rightmost, InternalPage page items rightmost)
  single : ∀ path other id, follow store.pageAt root path = some id →
    follow store.pageAt root other = some id → path = other

/-! ## What a sound check would tell -/

def keysOf (store : PageStore) (ids : List PageID) : List Bytes :=
  ids.flatMap fun id => (leafItems (store.pageAt id)).map LeafItem.key

def chainNext (store : PageStore) (id : PageID) : Option PageID :=
  if nextLeaf (store.pageAt id) = invalidPageID then none
  else some (nextLeaf (store.pageAt id))

/-- The keys of the leaves increase, the chain goes through the leaves and
`Search` finds every key. -/
structure Consistent (tree : Tree PageStore) : Prop where
  ordered : (keysOf tree.pager (leafPages tree)).Pairwise (· < ·)
  chained : Path (chainNext tree.pager) (leafPages tree).head?
    (leafPages tree) none
  found : ∀ id ∈ leafPages tree, ∀ item ∈ leafItems (tree.pager.pageAt id),
    ∃ value, (search item.key tree).1 = .ok (some value)

/-- The leaves with items from a leaf on, if the walk along `NextLeaf` comes to
an end: at a leaf without items, or at the end of the chain. -/
inductive Walked (store : PageStore) : PageID → List PageID → Prop
  | empty {id : PageID} : readsAsLeaf (store.pageAt id) = true →
      leafItems (store.pageAt id) = [] → Walked store id []
  | last {id : PageID} : readsAsLeaf (store.pageAt id) = true →
      leafItems (store.pageAt id) ≠ [] → chainNext store id = none →
      Walked store id [id]
  | on {id next : PageID} {page : Page} {met : List PageID} :
      readsAsLeaf (store.pageAt id) = true →
      leafItems (store.pageAt id) ≠ [] → chainNext store id = some next →
      store.read next = .ok page → Walked store next met →
      Walked store id (id :: met)

def Guided (view : PageID → Page) (route : Page → PageID) :
    PageID → List Nat → Prop
  | _, [] => True
  | id, index :: path =>
      (childIDs (view id))[index]? = some (route (view id)) ∧
        Guided view route (route (view id)) path

/-- What the check relies on without looking: when the walk from the leftmost
leaf ends and meets its keys in order, the chain goes through the leaves, the
separators lead every key to its leaf, and the keys that the walk did not come
to go on in order. -/
def Trusted (tree : Tree PageStore) : Prop :=
  ∀ leftmost met, (leafPages tree).head? = some leftmost →
    Walked tree.pager leftmost met →
    (keysOf tree.pager met).Pairwise (· < ·) →
      Path (chainNext tree.pager) (leafPages tree).head? (leafPages tree)
        none ∧
      (∀ path id, follow tree.pager.pageAt tree.root path = some id →
        (tree.pager.pageAt id).header.type = .pageBTreeLeaf →
        ∀ item ∈ leafItems (tree.pager.pageAt id),
          Guided tree.pager.pageAt (routeChild · item.key) tree.root path) ∧
      (keysOf tree.pager ((leafPages tree).drop met.length)).Pairwise
        (· < ·) ∧
      ∀ before ∈ keysOf tree.pager met,
        ∀ key ∈ keysOf tree.pager ((leafPages tree).drop met.length),
          before < key

section Store

variable {store : PageStore} {root id target : PageID} {path : List Nat}
  {page : Page}

theorem PageStore.pageAt_eq (readable : store.read id = .ok page) :
    store.pageAt id = page := by
  rw [PageStore.pageAt, readable]

theorem PageStore.get_eq (readable : store.read id = .ok page) :
    Pager.get id store = (.ok (), store) := by
  simp only [Pager.get, readable]
  rfl

def Nodes (store : PageStore) (id : PageID) : Prop :=
  ∀ path target, follow store.pageAt id path = some target →
    ∃ page, store.read target = .ok page ∧
      ((∃ items, LeafPage page items) ∨
        ∃ items rightmost, InternalPage page items rightmost)

theorem FormsTree.nodes (forms : FormsTree store root) : Nodes store root :=
  fun path target led => (forms.node path target led).2

theorem Nodes.here (nodes : Nodes store id) :
    ∃ page, store.read id = .ok page ∧ store.pageAt id = page ∧
      ((∃ items, LeafPage page items) ∨
        ∃ items rightmost, InternalPage page items rightmost) := by
  obtain ⟨page, readable, node⟩ := nodes [] id rfl
  exact ⟨page, readable, PageStore.pageAt_eq readable, node⟩

theorem Nodes.child (nodes : Nodes store id)
    (inner : (store.pageAt id).header.type = .pageBTreeInternal)
    {index : Nat} {child : PageID}
    (stored : (childIDs (store.pageAt id))[index]? = some child) :
    Nodes store child := by
  intro path target led
  exact nodes (index :: path) target
    (follow_cons_eq_some.mpr ⟨inner, child, stored, led⟩)

theorem Nodes.internal (nodes : Nodes store id)
    (other : ¬ (store.pageAt id).header.type = .pageBTreeLeaf) :
    ∃ items rightmost,
      InternalPage (store.pageAt id) items rightmost := by
  obtain ⟨page, _, same, leaf | internal⟩ := nodes.here
  · obtain ⟨items, leaf⟩ := leaf
    rw [same] at other
    exact absurd leaf.type_eq other
  · rwa [same]

theorem Nodes.leaf (nodes : Nodes store id)
    (type : (store.pageAt id).header.type = .pageBTreeLeaf) :
    LeafPage (store.pageAt id) (leafItems (store.pageAt id)) := by
  obtain ⟨page, _, same, leaf | internal⟩ := nodes.here
  · obtain ⟨items, leaf⟩ := leaf
    rw [same, leaf.leafItems_eq]
    exact leaf
  · obtain ⟨items, rightmost, node⟩ := internal
    rw [same, node.type_eq] at type
    cases type

theorem walkDown_guided {route : Page → PageID}
    (within : ∀ page items rightmost, InternalPage page items rightmost →
      route page ∈ childIDs page) :
    ∀ {fuel : Nat} {id : PageID} {after : PageStore}, Nodes store id →
      walkDown route fuel id store = (.ok target, after) →
      after = store ∧
        (store.pageAt target).header.type = .pageBTreeLeaf ∧
        ∃ path, follow store.pageAt id path = some target ∧
          Guided store.pageAt route id path
  | 0, _, _, _, walked => by cases walked
  | fuel + 1, id, after, nodes, walked => by
      obtain ⟨page, readable, same, node⟩ := nodes.here
      rw [walkDown, PageStore.get_eq readable] at walked
      change (if (store.pageAt id).header.type = .pageBTreeLeaf then
        (.ok id, store) else walkDown route fuel (route (store.pageAt id))
          store) = (Except.ok target, after) at walked
      by_cases type : (store.pageAt id).header.type = .pageBTreeLeaf
      · rw [if_pos type] at walked
        cases walked
        exact ⟨rfl, type, [], rfl, trivial⟩
      · rw [if_neg type] at walked
        obtain ⟨items, rightmost, internal⟩ := nodes.internal type
        obtain ⟨index, stored⟩ :=
          List.mem_iff_getElem?.mp (within _ _ _ internal)
        obtain ⟨unchanged, final, path, led, guided⟩ :=
          walkDown_guided within (nodes.child internal.type_eq stored) walked
        exact ⟨unchanged, final, index :: path,
          follow_cons_eq_some.mpr ⟨internal.type_eq, _, stored, led⟩,
          stored, guided⟩

theorem Guided.walkDown_eq {route : Page → PageID} :
    ∀ {path : List Nat} {fuel : Nat} {id : PageID}, Nodes store id →
      Guided store.pageAt route id path →
      follow store.pageAt id path = some target →
      (store.pageAt target).header.type = .pageBTreeLeaf →
      path.length < fuel →
      walkDown route fuel id store = (.ok target, store)
  | [], fuel + 1, id, nodes, _, led, type, _ => by
      cases led
      obtain ⟨page, readable, same, _⟩ := nodes.here
      rw [walkDown, PageStore.get_eq readable]
      exact if_pos type
  | index :: path, fuel + 1, id, nodes, guided, led, type, enough => by
      obtain ⟨page, readable, same, _⟩ := nodes.here
      obtain ⟨inner, child, stored, led⟩ := follow_cons_eq_some.mp led
      obtain ⟨here, guided⟩ := guided
      rw [stored] at here
      rw [← Option.some.inj here] at guided
      have other : ¬ (store.pageAt id).header.type = .pageBTreeLeaf := by
        rw [inner]
        decide
      rw [walkDown, PageStore.get_eq readable]
      refine (if_neg other).trans ?_
      change walkDown route fuel (route (store.pageAt id)) store = _
      rw [← Option.some.inj here]
      exact guided.walkDown_eq (nodes.child inner stored) led type
        (Nat.lt_of_succ_lt_succ enough)

theorem InternalPage.routeChild_mem {items : List InternalItem}
    {rightmost : PageID} (node : InternalPage page items rightmost)
    (key : Bytes) : routeChild page key ∈ childIDs page := by
  have last : rightmostChild page ∈ childIDs page :=
    List.mem_append_right _ (List.mem_singleton_self _)
  rw [routeChild]
  split
  · exact last
  · split
    · exact last
    · split
      · next low _ small =>
          rw [node.slotCount_eq] at small
          have stored := List.getElem?_eq_getElem small
          rw [node.childAndKeyAt_eq stored, node.childIDs_eq]
          exact List.mem_append_left _
            (List.mem_map_of_mem (List.getElem_mem small))
      · exact last

/-! ## The leaves of a store -/

theorem follow_append {view : PageID → Page} {back : List Nat} :
    ∀ {front : List Nat} {id : PageID},
      follow view id (front ++ back) =
        (follow view id front).bind fun middle => follow view middle back
  | [], _ => rfl
  | index :: front, id => by
      rw [List.cons_append, follow, follow]
      split
      · rw [Option.bind_assoc]
        exact Option.bind_congr fun child _ => follow_append
      · rfl

theorem FormsTree.length_lt (forms : FormsTree store root)
    (led : follow store.pageAt root path = some target) :
    path.length < store.count := by
  have part : ∀ place ∈ Finset.range (path.length + 1), ∃ id,
      follow store.pageAt root (path.take place) = some id := by
    intro place _
    rw [← List.take_append_drop place path, follow_append] at led
    obtain ⟨middle, first, _⟩ := Option.bind_eq_some_iff.mp led
    exact ⟨middle, first⟩
  choose! at' reached using part
  have small : ∀ place ∈ Finset.range (path.length + 1),
      (at' place).toNat ∈ Finset.range store.count := by
    intro place inside
    exact Finset.mem_range.mpr (forms.node _ _ (reached place inside)).1
  have apart : Set.InjOn (fun place => (at' place).toNat)
      (Finset.range (path.length + 1)) := by
    intro left leftIn right rightIn same
    have leftPath := reached left leftIn
    rw [UInt64.toNat_inj.mp same] at leftPath
    have paths := congrArg List.length
      (forms.single _ _ _ leftPath (reached right rightIn))
    have leftLess := Finset.mem_range.mp leftIn
    have rightLess := Finset.mem_range.mp rightIn
    rw [List.length_take, List.length_take] at paths
    omega
  have count := Finset.card_le_card_of_injOn _ small apart
  rw [Finset.card_range, Finset.card_range] at count
  omega

theorem exists_follow {view : PageID → Page} :
    ∀ {depth : Nat} {id : PageID}, target ∈ leavesBelow view depth id →
      (∀ path found, follow view id path = some found →
        (view found).header.type = .pageBTreeLeaf ∨
          (view found).header.type = .pageBTreeInternal) →
      ∃ path, follow view id path = some target ∧
        (view target).header.type = .pageBTreeLeaf
  | 0, _, member, _ => by cases member
  | depth + 1, id, member, nodes => by
      rw [leavesBelow] at member
      split at member
      · next type =>
          rw [List.mem_singleton.mp member]
          exact ⟨[], rfl, type⟩
      · next other =>
          have inner := (nodes [] id rfl).resolve_left other
          obtain ⟨child, listed, below⟩ := List.mem_flatMap.mp member
          obtain ⟨index, stored⟩ := List.mem_iff_getElem?.mp listed
          obtain ⟨path, led, type⟩ := exists_follow below
            fun path found led => nodes (index :: path) found
              (follow_cons_eq_some.mpr ⟨inner, child, stored, led⟩)
          exact ⟨index :: path,
            follow_cons_eq_some.mpr ⟨inner, child, stored, led⟩, type⟩

theorem Nodes.type (nodes : Nodes store id) :
    ∀ path found, follow store.pageAt id path = some found →
      (store.pageAt found).header.type = .pageBTreeLeaf ∨
        (store.pageAt found).header.type = .pageBTreeInternal := by
  intro path found led
  obtain ⟨page, readable, node⟩ := nodes path found led
  rw [PageStore.pageAt_eq readable]
  rcases node with ⟨items, leaf⟩ | ⟨items, rightmost, internal⟩
  · exact .inl leaf.type_eq
  · exact .inr internal.type_eq

theorem Nodes.leftmost : ∀ {depth : Nat} {id : PageID}, Nodes store id →
    (∀ path found, follow store.pageAt id path = some found →
      path.length < depth) →
    ∃ leaf, walkDown leftmostChild depth id store = (.ok leaf, store) ∧
      (leavesBelow store.pageAt depth id).head? = some leaf
  | 0, id, _, short => absurd (short [] id rfl) (Nat.not_lt_zero _)
  | depth + 1, id, nodes, short => by
      obtain ⟨page, readable, same, _⟩ := nodes.here
      rw [walkDown, PageStore.get_eq readable, leavesBelow]
      by_cases type : (store.pageAt id).header.type = .pageBTreeLeaf
      · rw [if_pos type]
        exact ⟨id, if_pos type, rfl⟩
      · obtain ⟨items, rightmost, internal⟩ := nodes.internal type
        have children : childIDs (store.pageAt id) =
            leftmostChild (store.pageAt id) ::
              (childIDs (store.pageAt id)).tail := by
          rw [internal.leftmostChild_eq, internal.childIDs_eq]
          cases items <;> rfl
        have stored : (childIDs (store.pageAt id))[0]? =
            some (leftmostChild (store.pageAt id)) := by
          rw [children]
          rfl
        obtain ⟨leaf, walked, first⟩ :=
          (nodes.child internal.type_eq stored).leftmost
            fun path found led => Nat.lt_of_succ_lt_succ
              (short (0 :: path) found (follow_cons_eq_some.mpr
                ⟨internal.type_eq, _, stored, led⟩))
        refine ⟨leaf, (if_neg type).trans walked, ?_⟩
        rw [if_neg type, children, List.flatMap_cons, List.head?_append,
          first]
        rfl

end Store

section Walk

variable {tree : Tree PageStore}

theorem leafPages_eq (rooted : tree.root ≠ invalidPageID) :
    leafPages tree =
      leavesBelow tree.pager.pageAt tree.pager.count tree.root := by
  rw [leafPages, if_neg rooted]
  rfl

theorem FormsTree.leftmost (forms : FormsTree tree.pager tree.root)
    (rooted : tree.root ≠ invalidPageID) :
    ∃ leaf, findLeftmostLeaf tree = (.ok leaf, tree.pager) ∧
      (leafPages tree).head? = some leaf := by
  rw [leafPages_eq rooted, findLeftmostLeaf, if_neg rooted]
  exact forms.nodes.leftmost fun path found led => forms.length_lt led

theorem FormsTree.mem_leafPages (forms : FormsTree tree.pager tree.root)
    (rooted : tree.root ≠ invalidPageID) (id : PageID) :
    id ∈ leafPages tree ↔ ∃ path,
      follow tree.pager.pageAt tree.root path = some id ∧
        (tree.pager.pageAt id).header.type = .pageBTreeLeaf := by
  rw [leafPages_eq rooted]
  constructor
  · intro member
    exact exists_follow member forms.nodes.type
  · rintro ⟨path, led, type⟩
    exact mem_leavesBelow led type (forms.length_lt led)

theorem FormsTree.leafPage (forms : FormsTree tree.pager tree.root)
    (rooted : tree.root ≠ invalidPageID) {id : PageID}
    (member : id ∈ leafPages tree) :
    LeafPage (tree.pager.pageAt id) (leafItems (tree.pager.pageAt id)) := by
  obtain ⟨path, led, type⟩ := (forms.mem_leafPages rooted id).mp member
  have under : Nodes tree.pager id := by
    intro rest target further
    apply forms.nodes (path ++ rest) target
    rw [follow_append, led]
    exact further
  exact under.leaf type

/-! ## The rounds of the loop -/

def standing (tree : Tree PageStore) (id : PageID) (index : Nat) :
    Cursor PageStore where
  tree := tree
  leaf := id
  items := leafItems (tree.pager.pageAt id)
  idx := index
  valid := true
  err := none

variable {id next : PageID} {index fuel : Nat} {item : LeafItem}
  {prevKey : Option Bytes} {met : List PageID}

theorem next_within
    (more : index + 1 < (leafItems (tree.pager.pageAt id)).length) :
    (standing tree id index).next = (true, standing tree id (index + 1)) := by
  have inside : ((index : Int) + 1) <
      ((leafItems (tree.pager.pageAt id)).length : Int) := by
    omega
  simp only [standing, Cursor.next, Bool.true_eq_false, if_false]
  exact if_pos inside

theorem next_beyond
    (last : index + 1 = (leafItems (tree.pager.pageAt id)).length) :
    (standing tree id index).next =
      Cursor.follow (nextLeaf (tree.pager.pageAt id)) (fun _ => 0)
        (standing tree id (index + 1)) := by
  have outside : ¬ ((index : Int) + 1) <
      ((leafItems (tree.pager.pageAt id)).length : Int) := by
    omega
  simp only [standing, Cursor.next, Bool.true_eq_false, if_false]
  exact if_neg outside

theorem next_last
    (last : index + 1 = (leafItems (tree.pager.pageAt id)).length)
    (ended : chainNext tree.pager id = none) :
    (standing tree id index).next =
      (false, { standing tree id (index + 1) with valid := false }) := by
  have stop : nextLeaf (tree.pager.pageAt id) = invalidPageID := by
    by_contra other
    rw [chainNext, if_neg other] at ended
    cases ended
  rw [next_beyond last, Cursor.follow, if_pos stop]

theorem chainNext_eq_some (further : chainNext tree.pager id = some next) :
    nextLeaf (tree.pager.pageAt id) = next ∧ next ≠ invalidPageID := by
  rw [chainNext] at further
  split at further
  · cases further
  · next other =>
      cases further
      exact ⟨rfl, other⟩

theorem next_unreadable {error : Error}
    (last : index + 1 = (leafItems (tree.pager.pageAt id)).length)
    (further : chainNext tree.pager id = some next)
    (unreadable : tree.pager.read next = .error error) :
    ∃ after, (standing tree id index).next = (false, after) ∧
      after.err = some error := by
  obtain ⟨same, valid⟩ := chainNext_eq_some further
  have failed : Pager.get next (standing tree id (index + 1)).tree.pager =
      (Except.error error, tree.pager) := by
    simp only [Pager.get, standing, unreadable]
    rfl
  rw [next_beyond last, same, Cursor.follow, if_neg valid, failed]
  exact ⟨_, rfl, rfl⟩

theorem next_enter {page : Page}
    (last : index + 1 = (leafItems (tree.pager.pageAt id)).length)
    (further : chainNext tree.pager id = some next)
    (readable : tree.pager.read next = .ok page) :
    (standing tree id index).next =
      if leafItems (tree.pager.pageAt next) = [] then
        (false, { standing tree next (index + 1) with valid := false })
      else (true, standing tree next 0) := by
  obtain ⟨same, valid⟩ := chainNext_eq_some further
  have got : Pager.get next (standing tree id (index + 1)).tree.pager =
      (Except.ok (), tree.pager) := PageStore.get_eq readable
  rw [next_beyond last, same, Cursor.follow, if_neg valid, got]
  simp only [Cursor.enter, List.length_eq_zero_iff]
  rfl

theorem landed_standing (reads : readsAsLeaf (tree.pager.pageAt id) = true)
    {found : Bool} {cursor : Cursor PageStore} (on : cursor.tree = tree)
    (leaf : cursor.leaf = id) :
    landed (found, cursor) = some (found, cursor) := by
  rw [landed]
  simp only [on, leaf]
  change (if cursor.err.isNone && !readsAsLeaf (tree.pager.pageAt id) then
    none else some (found, cursor)) = _
  rw [reads]
  simp

theorem landed_none (panics : ¬ readsAsLeaf (tree.pager.pageAt id) = true)
    {found : Bool} {cursor : Cursor PageStore} (on : cursor.tree = tree)
    (leaf : cursor.leaf = id) (fine : cursor.err = none) :
    landed (found, cursor) = none := by
  rw [Bool.not_eq_true] at panics
  rw [landed]
  simp only [on, leaf, fine]
  change (if true && !readsAsLeaf (tree.pager.pageAt id) then none
    else some (found, cursor)) = _
  rw [panics]
  rfl

theorem standing_current
    (stored : (leafItems (tree.pager.pageAt id))[index]? = some item) :
    (standing tree id index).isValid = true ∧
      (standing tree id index).key = some item.key := by
  refine ⟨rfl, ?_⟩
  have inside : ¬ ((standing tree id index).isValid = false ∨
      (standing tree id index).idx < 0) := by
    rintro (invalid | negative)
    · cases invalid
    · simp only [standing] at negative
      omega
  rw [Cursor.key, Cursor.current, if_neg inside]
  exact congrArg (Option.map LeafItem.key) stored

theorem verifyFrom_step
    (stored : (leafItems (tree.pager.pageAt id))[index]? = some item)
    (above : ∀ before ∈ prevKey, before < item.key) :
    verifyFrom (fuel + 1) prevKey (standing tree id index) =
      match landed (standing tree id index).next with
      | none => none
      | some (false, after) => some (after.outcome, after.tree)
      | some (true, after) => verifyFrom fuel (some item.key) after := by
  obtain ⟨valid, key⟩ := standing_current stored
  have kept : (prevKey.filter fun before => item.key ≤ before) = none := by
    rw [Option.filter_eq_none_iff]
    intro before same
    rw [decide_eq_true_eq]
    exact not_le.mpr (above before same)
  rw [verifyFrom, if_neg (by rw [valid]; decide)]
  simp only [key, Option.getD_some, kept]
  rcases landed (standing tree id index).next with _ | ⟨_ | _, after⟩ <;> rfl

theorem verifyFrom_stop
    (stored : (leafItems (tree.pager.pageAt id))[index]? = some item)
    {before : Bytes} (below : item.key ≤ before) :
    verifyFrom (fuel + 1) (some before) (standing tree id index) =
      some (.error (.ordering before item.key), tree) := by
  obtain ⟨valid, key⟩ := standing_current stored
  rw [verifyFrom, if_neg (by rw [valid]; decide)]
  simp only [key, Option.getD_some, Option.filter_some,
    decide_eq_true below, if_true]
  rfl

theorem keysOf_cons (store : PageStore) (id : PageID) (met : List PageID) :
    keysOf store (id :: met) =
      (leafItems (store.pageAt id)).map LeafItem.key ++ keysOf store met :=
  List.flatMap_cons

theorem keysOf_drop
    (stored : (leafItems (tree.pager.pageAt id))[index]? = some item) :
    (keysOf tree.pager (id :: met)).drop index =
      item.key :: (keysOf tree.pager (id :: met)).drop (index + 1) := by
  obtain ⟨inside, same⟩ := List.getElem?_eq_some_iff.mp stored
  have bound : index < (keysOf tree.pager (id :: met)).length := by
    rw [keysOf_cons, List.length_append, List.length_map]
    omega
  rw [List.drop_eq_getElem_cons bound]
  congr 1
  simp only [keysOf_cons]
  rw [List.getElem_append_left (by rwa [List.length_map]), List.getElem_map,
    same]

theorem keysOf_drop_last
    (last : index + 1 = (leafItems (tree.pager.pageAt id)).length) :
    (keysOf tree.pager (id :: met)).drop (index + 1) =
      keysOf tree.pager met := by
  rw [keysOf_cons]
  apply List.drop_left'
  rw [List.length_map, last]

theorem pairwise_prevKey {key : Bytes} {keys : List Bytes} :
    (prevKey.toList ++ key :: keys).Pairwise (· < ·) ↔
      (∀ before ∈ prevKey, before < key) ∧
        ((some key).toList ++ keys).Pairwise (· < ·) := by
  cases prevKey with
  | none => simp
  | some before =>
      simp only [Option.toList_some, List.cons_append, List.nil_append,
        Option.mem_some_iff, forall_eq']
      rw [List.pairwise_cons]
      constructor
      · rintro ⟨above, later⟩
        exact ⟨above key List.mem_cons_self, later⟩
      · rintro ⟨above, later⟩
        refine ⟨?_, later⟩
        intro other member
        rcases List.mem_cons.mp member with rfl | behind
        · exact above
        · exact above.trans ((List.pairwise_cons.mp later).1 other behind)

/-! ## What the loop finds out -/

theorem verifyFrom_walked : ∀ {fuel : Nat} {prevKey : Option Bytes}
    {id : PageID} {index : Nat} {after : Tree PageStore},
    readsAsLeaf (tree.pager.pageAt id) = true →
    index < (leafItems (tree.pager.pageAt id)).length →
    verifyFrom fuel prevKey (standing tree id index) =
      some (.ok (), after) →
    ∃ met, Walked tree.pager id met ∧
      (prevKey.toList ++ (keysOf tree.pager met).drop index).Pairwise
        (· < ·) ∧ met ≠ []
  | 0, _, _, _, _, _, _, done => by cases done
  | fuel + 1, prevKey, id, index, after, reads, inside, done => by
      have stored := List.getElem?_eq_getElem inside
      have filled : leafItems (tree.pager.pageAt id) ≠ [] := by
        intro none
        rw [none] at inside
        cases inside
      have above : ∀ before ∈ prevKey,
          before < (leafItems (tree.pager.pageAt id))[index].key := by
        intro before same
        rw [Option.mem_def.mp same] at done
        by_contra below
        rw [verifyFrom_stop stored (not_lt.mp below)] at done
        cases done
      rw [verifyFrom_step stored above] at done
      -- The leaves to come, if the leaf itself is done with.
      suffices rest : ∃ met, Walked tree.pager id (id :: met) ∧
          ((some (leafItems (tree.pager.pageAt id))[index].key).toList ++
            (keysOf tree.pager (id :: met)).drop (index + 1)).Pairwise
              (· < ·) by
        obtain ⟨met, walked, sorted⟩ := rest
        refine ⟨id :: met, walked, ?_, List.cons_ne_nil _ _⟩
        rw [keysOf_drop stored]
        exact pairwise_prevKey.mpr ⟨above, sorted⟩
      by_cases more : index + 1 < (leafItems (tree.pager.pageAt id)).length
      · rw [next_within more, landed_standing reads rfl rfl] at done
        obtain ⟨met, walked, sorted, nonempty⟩ :=
          verifyFrom_walked reads more done
        cases walked with
        | empty _ none => exact absurd none filled
        | last _ _ ended => exact ⟨[], .last reads filled ended, sorted⟩
        | on _ _ further readable walked =>
            exact ⟨_, .on reads filled further readable walked, sorted⟩
      · have last : index + 1 =
            (leafItems (tree.pager.pageAt id)).length := by omega
        cases further : chainNext tree.pager id with
        | none =>
            refine ⟨[], .last reads filled further, ?_⟩
            rw [keysOf_drop_last last]
            exact List.pairwise_singleton _ _
        | some next =>
            cases readable : tree.pager.read next with
            | error error =>
                obtain ⟨failed, moved, err⟩ :=
                  next_unreadable last further readable
                have landing : landed (false, failed) =
                    some (false, failed) := by
                  rw [landed, err]
                  rfl
                rw [moved, landing] at done
                simp only [Cursor.outcome, err] at done
                cases done
            | ok page =>
                rw [next_enter last further readable] at done
                by_cases readsNext :
                    readsAsLeaf (tree.pager.pageAt next) = true
                · by_cases empty : leafItems (tree.pager.pageAt next) = []
                  · refine ⟨[], .on reads filled further readable
                      (.empty readsNext empty), ?_⟩
                    rw [keysOf_drop_last last]
                    exact List.pairwise_singleton _ _
                  · rw [if_neg empty, landed_standing readsNext rfl rfl]
                      at done
                    obtain ⟨met, walked, sorted, _⟩ :=
                      verifyFrom_walked readsNext
                        (List.length_pos_iff.mpr empty) done
                    refine ⟨met, .on reads filled further readable walked,
                      ?_⟩
                    rw [keysOf_drop_last last]
                    exact sorted
                · by_cases empty : leafItems (tree.pager.pageAt next) = []
                  · rw [if_pos empty, landed_none readsNext rfl rfl rfl]
                      at done
                    cases done
                  · rw [if_neg empty, landed_none readsNext rfl rfl rfl]
                      at done
                    cases done

theorem verifyFrom_leaf (reads : readsAsLeaf (tree.pager.pageAt id) = true)
    (ends : ∀ (item : LeafItem) (last : Nat),
      (leafItems (tree.pager.pageAt id))[last]? = some item →
      last + 1 = (leafItems (tree.pager.pageAt id)).length →
      ((some item.key).toList ++ keysOf tree.pager met).Pairwise (· < ·) →
      ∃ fuel after, (match landed (standing tree id last).next with
        | none => none
        | some (false, after) => some (after.outcome, after.tree)
        | some (true, after) => verifyFrom fuel (some item.key) after) =
          some (.ok (), after)) :
    ∀ {count index : Nat} {prevKey : Option Bytes},
      (leafItems (tree.pager.pageAt id)).length = index + count + 1 →
      (prevKey.toList ++
        (keysOf tree.pager (id :: met)).drop index).Pairwise (· < ·) →
      ∃ fuel after, verifyFrom fuel prevKey (standing tree id index) =
        some (.ok (), after)
  | 0, index, prevKey, length, sorted => by
      have inside : index < (leafItems (tree.pager.pageAt id)).length := by
        omega
      have stored := List.getElem?_eq_getElem inside
      have last : index + 1 = (leafItems (tree.pager.pageAt id)).length := by
        omega
      rw [keysOf_drop stored, pairwise_prevKey, keysOf_drop_last last]
        at sorted
      obtain ⟨fuel, after, done⟩ := ends _ index stored last sorted.2
      refine ⟨fuel + 1, after, ?_⟩
      rw [verifyFrom_step stored sorted.1]
      exact done
  | count + 1, index, prevKey, length, sorted => by
      have inside : index < (leafItems (tree.pager.pageAt id)).length := by
        omega
      have more : index + 1 < (leafItems (tree.pager.pageAt id)).length := by
        omega
      have stored := List.getElem?_eq_getElem inside
      rw [keysOf_drop stored, pairwise_prevKey] at sorted
      have rest : (leafItems (tree.pager.pageAt id)).length =
          index + 1 + count + 1 := by
        omega
      obtain ⟨fuel, after, done⟩ := verifyFrom_leaf reads ends rest sorted.2
      refine ⟨fuel + 1, after, ?_⟩
      rw [verifyFrom_step stored sorted.1, next_within more,
        landed_standing reads rfl rfl]
      exact done

theorem Walked.reads (walked : Walked tree.pager id met) :
    readsAsLeaf (tree.pager.pageAt id) = true := by
  cases walked with
  | empty reads _ => exact reads
  | last reads _ _ => exact reads
  | on reads _ _ _ _ => exact reads

theorem Walked.verifyFrom_ok (walked : Walked tree.pager id met) :
    ∀ {prevKey : Option Bytes}, leafItems (tree.pager.pageAt id) ≠ [] →
      (prevKey.toList ++ keysOf tree.pager met).Pairwise (· < ·) →
      ∃ fuel after, verifyFrom fuel prevKey (standing tree id 0) =
        some (.ok (), after) := by
  induction walked with
  | empty _ none =>
      intro _ filled
      exact absurd none filled
  | @last id reads _ ended =>
      intro prevKey filled sorted
      obtain ⟨count, length⟩ := Nat.exists_eq_add_of_le'
        (List.length_pos_iff.mpr filled)
      have whole : (leafItems (tree.pager.pageAt id)).length =
          0 + count + 1 := by
        omega
      apply verifyFrom_leaf reads _ whole sorted
      intro item last stored length _
      rw [next_last length ended, landed_standing reads rfl rfl]
      exact ⟨0, tree, rfl⟩
  | @on id next page met reads _ further readable walked
      inductionHypothesis =>
      intro prevKey filled sorted
      obtain ⟨count, length⟩ := Nat.exists_eq_add_of_le'
        (List.length_pos_iff.mpr filled)
      have whole : (leafItems (tree.pager.pageAt id)).length =
          0 + count + 1 := by
        omega
      apply verifyFrom_leaf reads _ whole sorted
      intro item last stored length later
      rw [next_enter length further readable]
      by_cases empty : leafItems (tree.pager.pageAt next) = []
      · rw [if_pos empty, landed_standing walked.reads rfl rfl]
        exact ⟨0, tree, rfl⟩
      · rw [if_neg empty, landed_standing walked.reads rfl rfl]
        exact inductionHypothesis empty later

/-- `VerifyTree` finds nothing wrong just when the walk from the leftmost leaf
comes to an end and meets its keys in order. -/
theorem FormsTree.verifyTree_ok_iff
    (forms : FormsTree tree.pager tree.root)
    (rooted : tree.root ≠ invalidPageID) :
    (∃ fuel after, verifyTree fuel tree = some (.ok (), after)) ↔
      ∃ leftmost met, (leafPages tree).head? = some leftmost ∧
        Walked tree.pager leftmost met ∧
        (keysOf tree.pager met).Pairwise (· < ·) := by
  obtain ⟨leaf, walked, first⟩ := forms.leftmost rooted
  have placed : (Cursor.new tree).first =
      if leafItems (tree.pager.pageAt leaf) = [] then
        (false, { standing tree leaf 0 with idx := -1, valid := false })
      else (true, standing tree leaf 0) := by
    have released : ¬ (Cursor.new tree).release.tree.root =
        invalidPageID := rooted
    have found : findLeftmostLeaf (Cursor.new tree).release.tree =
        (.ok leaf, tree.pager) := walked
    rw [Cursor.first]
    simp only [if_neg released, found, Cursor.enter,
      List.length_eq_zero_iff]
    rfl
  constructor
  · rintro ⟨fuel, after, done⟩
    rw [verifyTree, if_neg rooted, placed] at done
    by_cases reads : readsAsLeaf (tree.pager.pageAt leaf) = true
    · by_cases empty : leafItems (tree.pager.pageAt leaf) = []
      · exact ⟨leaf, [], first, .empty reads empty, List.Pairwise.nil⟩
      · rw [if_neg empty, landed_standing reads rfl rfl] at done
        obtain ⟨met, walked, sorted, _⟩ := verifyFrom_walked reads
          (List.length_pos_iff.mpr empty) done
        exact ⟨leaf, met, first, walked, sorted⟩
    · by_cases empty : leafItems (tree.pager.pageAt leaf) = []
      · rw [if_pos empty, landed_none reads rfl rfl rfl] at done
        cases done
      · rw [if_neg empty, landed_none reads rfl rfl rfl] at done
        cases done
  · rintro ⟨leftmost, met, same, walked, sorted⟩
    rw [first] at same
    cases same
    simp only [verifyTree, if_neg rooted, placed]
    by_cases empty : leafItems (tree.pager.pageAt leaf) = []
    · rw [if_pos empty, landed_standing walked.reads rfl rfl]
      exact ⟨0, tree, rfl⟩
    · rw [if_neg empty, landed_standing walked.reads rfl rfl]
      exact walked.verifyFrom_ok empty sorted

end Walk

section Sound

variable {store : PageStore} {tree : Tree PageStore} {id : PageID}
  {met leaves : List PageID}

theorem Walked.isPrefix (walked : Walked store id met) :
    ∀ {leaves : List PageID},
      Path (chainNext store) (some id) leaves none → met <+: leaves := by
  induction walked with
  | empty _ _ =>
      intro leaves _
      exact List.nil_prefix
  | last _ _ _ =>
      intro leaves chain
      cases leaves with
      | nil => cases chain
      | cons first rest =>
          rw [Option.some.inj chain.1]
          exact List.cons_prefix_cons.mpr ⟨rfl, List.nil_prefix⟩
  | on _ _ further _ _ inductionHypothesis =>
      intro leaves chain
      cases leaves with
      | nil => cases chain
      | cons first rest =>
          obtain ⟨same, chain⟩ := chain
          rw [← Option.some.inj same, further] at chain
          rw [Option.some.inj same]
          exact List.cons_prefix_cons.mpr ⟨rfl, inductionHypothesis chain⟩

theorem keysOf_append (store : PageStore) (front back : List PageID) :
    keysOf store (front ++ back) = keysOf store front ++ keysOf store back :=
  List.flatMap_append

theorem sorted_of_keysOf (ordered : (keysOf store leaves).Pairwise (· < ·))
    (listed : id ∈ leaves) : SortedItems (leafItems (store.pageAt id)) :=
  List.pairwise_map.mp ((List.pairwise_flatMap.mp ordered).1 id listed)

theorem leaf_unique (ordered : (keysOf store leaves).Pairwise (· < ·))
    {other : PageID} {item otherItem : LeafItem} (listed : id ∈ leaves)
    (otherListed : other ∈ leaves)
    (member : item ∈ leafItems (store.pageAt id))
    (otherMember : otherItem ∈ leafItems (store.pageAt other))
    (same : otherItem.key = item.key) : other = id := by
  have below : ∀ {left right : Nat} {one two : PageID} {first second},
      leaves[left]? = some one → leaves[right]? = some two →
      first ∈ leafItems (store.pageAt one) →
      second ∈ leafItems (store.pageAt two) → left < right →
      first.key < second.key := by
    intro left right one two first second leftAt rightAt oneIn twoIn less
    obtain ⟨leftBound, rfl⟩ := List.getElem?_eq_some_iff.mp leftAt
    obtain ⟨rightBound, rfl⟩ := List.getElem?_eq_some_iff.mp rightAt
    exact List.pairwise_iff_getElem.mp (List.pairwise_flatMap.mp ordered).2
      left right leftBound rightBound less first.key
      (List.mem_map_of_mem oneIn) second.key (List.mem_map_of_mem twoIn)
  obtain ⟨left, leftAt⟩ := List.mem_iff_getElem?.mp listed
  obtain ⟨right, rightAt⟩ := List.mem_iff_getElem?.mp otherListed
  rcases lt_trichotomy left right with less | equal | more
  · exact absurd same (below leftAt rightAt member otherMember less).ne'
  · rw [equal, rightAt] at leftAt
    exact Option.some.inj leftAt
  · exact absurd same (below rightAt leftAt otherMember member more).ne

theorem FormsTree.search_found_iff (forms : FormsTree tree.pager tree.root)
    (rooted : tree.root ≠ invalidPageID)
    (ordered : (keysOf tree.pager (leafPages tree)).Pairwise (· < ·))
    {path : List Nat} {item : LeafItem}
    (led : follow tree.pager.pageAt tree.root path = some id)
    (type : (tree.pager.pageAt id).header.type = .pageBTreeLeaf)
    (member : item ∈ leafItems (tree.pager.pageAt id)) :
    (∃ value, (search item.key tree).1 = .ok (some value)) ↔
      Guided tree.pager.pageAt (routeChild · item.key) tree.root path := by
  have within : ∀ page items rightmost, InternalPage page items rightmost →
      routeChild page item.key ∈ childIDs page :=
    fun _ _ _ node => node.routeChild_mem item.key
  have listed := (forms.mem_leafPages rooted id).mpr ⟨path, led, type⟩
  constructor
  · rintro ⟨value, found⟩
    rw [search, if_neg rooted] at found
    rcases walked : findLeaf item.key tree with ⟨_ | leafID, after⟩
    · rw [walked] at found
      cases found
    · rw [walked] at found
      obtain ⟨rfl, otherType, other, otherLed, guided⟩ :=
        walkDown_guided within forms.nodes walked
      have otherListed :=
        (forms.mem_leafPages rooted leafID).mpr ⟨other, otherLed, otherType⟩
      have result : SearchResult (leafItems (tree.pager.pageAt leafID))
          item.key
          (binarySearch (Pager.page tree.pager leafID) item.key) :=
        (forms.leafPage rooted otherListed).binarySearch_spec
          (sorted_of_keysOf ordered otherListed) item.key
      simp only at found
      rcases place : binarySearch (Pager.page tree.pager leafID) item.key with
        ⟨index, _ | _⟩
      · rw [place] at found
        cases found
      · rw [place] at result
        obtain ⟨held, stored, same⟩ := result
        have equal := leaf_unique ordered listed otherListed member
          (List.mem_of_getElem? stored) same
        subst equal
        rw [forms.single _ _ _ led otherLed]
        exact guided
  · intro guided
    have walked : findLeaf item.key tree = (.ok id, tree.pager) :=
      guided.walkDown_eq forms.nodes led type (forms.length_lt led)
    have leaf := forms.leafPage rooted listed
    have result : SearchResult (leafItems (tree.pager.pageAt id)) item.key
        (binarySearch (Pager.page tree.pager id) item.key) :=
      leaf.binarySearch_spec (sorted_of_keysOf ordered listed) item.key
    rw [search, if_neg rooted, walked]
    simp only
    rcases place : binarySearch (Pager.page tree.pager id) item.key with
      ⟨index, _ | _⟩
    · rw [place] at result
      obtain ⟨_, before, behind⟩ := result
      rw [← List.take_append_drop index
        (leafItems (tree.pager.pageAt id))] at member
      rcases List.mem_append.mp member with low | high
      · exact absurd (before item low) (lt_irrefl _)
      · exact absurd (behind item high) (lt_irrefl _)
    · rw [place] at result
      obtain ⟨held, stored, _⟩ := result
      have read : itemAt (Pager.page tree.pager id) index = some held :=
        leaf.itemAt_eq stored
      refine ⟨held.value, ?_⟩
      simp only [read, Option.map_some]

end Sound

/-! ## A tree with a separator -/

theorem LeafPage.readsAsLeaf_eq {page : Page} {items : List LeafItem}
    (leaf : LeafPage page items) : readsAsLeaf page = true := by
  rw [readsAsLeaf, Bool.and_eq_true, decide_eq_true_eq, List.all_eq_true]
  refine ⟨leaf.filled.layout.slotCount_le, ?_⟩
  intro slotID member
  rw [List.mem_range, leaf.slotCount_eq] at member
  rw [leaf.get_eq (List.getElem?_eq_getElem member)]
  have small := leaf.item_small (List.getElem_mem member)
  generalize items[slotID] = item at small
  simp only [sliceable, leafKeyLength item small, leafValueLength item small,
    Bool.or_eq_true, decide_eq_true_eq]
  refine .inr ⟨?_, ?_⟩
  · rw [u16, Nat.mod_eq_of_lt (by omega)]
    omega
  · rw [u16, u16, Nat.mod_eq_of_lt (by omega), Nat.mod_eq_of_lt small]
    omega

def singleLeaf (id prev next : PageID) (key : Bytes) : Page :=
  (setLeafItems (setNextLeaf (setPrevLeaf (Page.newPage id .pageBTreeLeaf)
    prev) next) [⟨key, []⟩]).2

def twoLeaves (separator : Bytes) : Tree PageStore where
  root := 3
  pager :=
    { read := fun id =>
        if id = 1 then .ok (singleLeaf 1 invalidPageID 2 [1])
        else if id = 2 then .ok (singleLeaf 2 1 invalidPageID [2])
        else if id = 3 then
          .ok (setInternalItems (Page.newPage 3 .pageBTreeInternal)
            [⟨1, separator⟩] 2).2
        else .error .pageNotFound
      count := 4 }

section TwoLeaves

variable {separator : Bytes}

theorem singleLeaf_spec (id prev next : PageID) {key : Bytes}
    (short : key.length ≤ 8) :
    LeafPage (singleLeaf id prev next key) [⟨key, []⟩] ∧
      nextLeaf (singleLeaf id prev next key) = next := by
  have spec := setLeafItems_spec
    (setNextLeaf (setPrevLeaf (Page.newPage id .pageBTreeLeaf) prev) next)
    [⟨key, []⟩] fun item member => by
      rw [List.mem_singleton.mp member]
      exact ⟨short.trans (by decide), Nat.zero_le _⟩
  have fits : LeafFits [LeafItem.mk key []] := by
    simp only [LeafFits, Fits, packedSize, List.map_cons, List.map_nil,
      List.sum_cons, List.sum_nil, LeafItem.encode_length, List.length_nil]
    omega
  exact ⟨(spec.done fits).2.2, spec.next_eq.trans (nextLeaf_setNextLeaf _ _)⟩

theorem twoLeaves_rooted : (twoLeaves separator).root ≠ invalidPageID :=
  show (3 : PageID) ≠ invalidPageID by decide

theorem twoLeaves_left :
    LeafPage ((twoLeaves separator).pager.pageAt 1) [⟨[1], []⟩] ∧
      nextLeaf ((twoLeaves separator).pager.pageAt 1) = 2 :=
  singleLeaf_spec 1 invalidPageID 2 (by decide)

theorem twoLeaves_right :
    LeafPage ((twoLeaves separator).pager.pageAt 2) [⟨[2], []⟩] ∧
      nextLeaf ((twoLeaves separator).pager.pageAt 2) = invalidPageID :=
  singleLeaf_spec 2 1 invalidPageID (by decide)

theorem twoLeaves_root (short : separator.length ≤ 8) :
    InternalPage ((twoLeaves separator).pager.pageAt 3) [⟨1, separator⟩]
      2 := by
  have spec := setInternalItems_spec (Page.newPage 3 .pageBTreeInternal)
    [⟨1, separator⟩] 2 fun item member => by
      rw [List.mem_singleton.mp member]
      exact short.trans (by decide)
  have fits : InternalFits [InternalItem.mk 1 separator] := by
    simp only [InternalFits, Fits, packedSize, List.map_cons, List.map_nil,
      List.sum_cons, List.sum_nil, InternalItem.encode_length]
    omega
  exact (spec.done fits).2.2

theorem follow_twoLeaves (short : separator.length ≤ 8) {path : List Nat}
    {id : PageID} :
    follow (twoLeaves separator).pager.pageAt 3 path = some id ↔
      path = [] ∧ id = 3 ∨ path = [0] ∧ id = 1 ∨ path = [1] ∧ id = 2 := by
  have node := twoLeaves_root short
  have stop : ∀ {leaf : PageID} {items : List LeafItem} {path : List Nat},
      LeafPage ((twoLeaves separator).pager.pageAt leaf) items →
      (follow (twoLeaves separator).pager.pageAt leaf path = some id ↔
        path = [] ∧ id = leaf) := by
    intro leaf items path page
    cases path with
    | nil =>
        rw [follow, Option.some_inj]
        exact ⟨fun same => ⟨rfl, same.symm⟩, fun both => both.2.symm⟩
    | cons index path =>
        rw [follow_cons_eq_some, page.type_eq]
        constructor
        · rintro ⟨clash, _⟩
          cases clash
        · rintro ⟨clash, _⟩
          cases clash
  cases path with
  | nil =>
      rw [follow, Option.some_inj]
      simp [eq_comm]
  | cons index path =>
      rw [follow_cons_eq_some, node.childIDs_eq]
      simp only [node.type_eq, true_and, List.map_cons, List.map_nil,
        List.cons_append, List.nil_append]
      cases index with
      | zero => simp [stop twoLeaves_left.1]
      | succ index =>
          cases index with
          | zero => simp [stop twoLeaves_right.1]
          | succ index => simp

theorem twoLeaves_formsTree (short : separator.length ≤ 8) :
    FormsTree (twoLeaves separator).pager (twoLeaves separator).root where
  node path id led := by
    rcases (follow_twoLeaves short).mp led with
      ⟨_, rfl⟩ | ⟨_, rfl⟩ | ⟨_, rfl⟩
    · exact ⟨show (3 : PageID).toNat < 4 by decide, _, rfl,
        .inr ⟨_, _, twoLeaves_root short⟩⟩
    · exact ⟨show (1 : PageID).toNat < 4 by decide, _, rfl,
        .inl ⟨_, (@twoLeaves_left separator).1⟩⟩
    · exact ⟨show (2 : PageID).toNat < 4 by decide, _, rfl,
        .inl ⟨_, (@twoLeaves_right separator).1⟩⟩
  single path other id led otherLed := by
    rcases (follow_twoLeaves short).mp led with
      ⟨rfl, rfl⟩ | ⟨rfl, rfl⟩ | ⟨rfl, rfl⟩ <;>
    rcases (follow_twoLeaves short).mp otherLed with
      ⟨rfl, same⟩ | ⟨rfl, same⟩ | ⟨rfl, same⟩ <;>
    first | rfl | exact absurd same (by decide)

theorem leafPages_twoLeaves (short : separator.length ≤ 8) :
    leafPages (twoLeaves separator) = [1, 2] := by
  have node := twoLeaves_root short
  have other : ¬ ((twoLeaves separator).pager.pageAt 3).header.type =
      .pageBTreeLeaf := by
    rw [node.type_eq]
    decide
  rw [leafPages_eq twoLeaves_rooted]
  change leavesBelow (twoLeaves separator).pager.pageAt 4 3 = [1, 2]
  rw [leavesBelow, if_neg other, node.childIDs_eq]
  simp [leavesBelow, twoLeaves_left.1.type_eq, twoLeaves_right.1.type_eq]

theorem keysOf_twoLeaves :
    keysOf (twoLeaves separator).pager [1, 2] = [[1], [2]] := by
  rw [keysOf, List.flatMap_cons, List.flatMap_singleton,
    twoLeaves_left.1.leafItems_eq, twoLeaves_right.1.leafItems_eq]
  rfl

theorem walked_twoLeaves : Walked (twoLeaves separator).pager 1 [1, 2] := by
  obtain ⟨left, leftNext⟩ := @twoLeaves_left separator
  obtain ⟨right, rightNext⟩ := @twoLeaves_right separator
  have further : chainNext (twoLeaves separator).pager 1 = some 2 := by
    rw [chainNext, leftNext]
    rfl
  have ended : chainNext (twoLeaves separator).pager 2 = none := by
    rw [chainNext, rightNext]
    rfl
  refine .on left.readsAsLeaf_eq ?_ further rfl
    (.last right.readsAsLeaf_eq ?_ ended)
  · rw [left.leafItems_eq]
    exact List.cons_ne_nil _ _
  · rw [right.leafItems_eq]
    exact List.cons_ne_nil _ _

theorem verifyTree_twoLeaves (short : separator.length ≤ 8) :
    ∃ fuel after,
      verifyTree fuel (twoLeaves separator) = some (.ok (), after) := by
  apply ((twoLeaves_formsTree short).verifyTree_ok_iff
    twoLeaves_rooted).mpr
  refine ⟨1, [1, 2], ?_, walked_twoLeaves, ?_⟩
  · rw [leafPages_twoLeaves short]
    rfl
  · rw [keysOf_twoLeaves]
    decide

theorem sorted_twoLeaves : SortedSeparators [⟨1, separator⟩] :=
  List.pairwise_singleton _ _

theorem routeChild_twoLeaves (short : separator.length ≤ 8) (key : Bytes) :
    routeChild ((twoLeaves separator).pager.pageAt 3) key =
      if key < separator then 1 else 2 := by
  have routed := (twoLeaves_root short).routeChild_spec sorted_twoLeaves key
  generalize routeChild ((twoLeaves separator).pager.pageAt 3) key = child
    at routed
  cases routed with
  | child before item after parts _ below =>
      have member : item ∈ [InternalItem.mk 1 separator] := by
        rw [parts]
        exact List.mem_append_right _ List.mem_cons_self
      rw [List.mem_singleton.mp member] at below ⊢
      exact (if_pos below).symm
  | last above =>
      have reached := above _ (List.mem_singleton_self _)
      exact (if_neg (not_lt.mpr reached)).symm

theorem guided_twoLeaves (short : separator.length ≤ 8) {key : Bytes}
    {index : Nat} :
    Guided (twoLeaves separator).pager.pageAt (routeChild · key) 3 [index] ↔
      if key < separator then index = 0 else index = 1 := by
  have listed : childIDs ((twoLeaves separator).pager.pageAt 3) = [1, 2] :=
    (twoLeaves_root short).childIDs_eq
  rw [Guided, Guided, and_true, listed, routeChild_twoLeaves short]
  by_cases below : key < separator
  · rw [if_pos below, if_pos below]
    match index with
    | 0 => simp
    | 1 => simp
    | index + 2 => simp
  · rw [if_neg below, if_neg below]
    match index with
    | 0 => simp
    | 1 => simp
    | index + 2 => simp

theorem trusted_twoLeaves : Trusted (twoLeaves [2]) := by
  have short : ([2] : Bytes).length ≤ 8 := by decide
  intro leftmost met first walked _
  have chain : Path (chainNext (twoLeaves [2]).pager) (some 1) [1, 2]
      none := by
    refine ⟨rfl, ?_, ?_⟩
    · rw [chainNext, (@twoLeaves_left [2]).2]
      rfl
    · rw [chainNext, (@twoLeaves_right [2]).2]
      rfl
  rw [leafPages_twoLeaves short] at first ⊢
  cases first
  refine ⟨chain, ?_, ?_⟩
  · intro path id led type item member
    rcases (follow_twoLeaves short).mp led with
      ⟨_, rfl⟩ | ⟨rfl, rfl⟩ | ⟨rfl, rfl⟩
    · rw [(twoLeaves_root short).type_eq] at type
      cases type
    · rw [(@twoLeaves_left [2]).1.leafItems_eq, List.mem_singleton]
        at member
      rw [member]
      exact (guided_twoLeaves short).mpr rfl
    · rw [(@twoLeaves_right [2]).1.leafItems_eq, List.mem_singleton]
        at member
      rw [member]
      exact (guided_twoLeaves short).mpr rfl
  · have ordered : (keysOf (twoLeaves [2]).pager [1, 2]).Pairwise
        (· < ·) := by
      rw [keysOf_twoLeaves]
      decide
    rw [List.prefix_iff_eq_append.mp (walked.isPrefix chain) |>.symm,
      keysOf_append, List.pairwise_append] at ordered
    exact ordered.2

end TwoLeaves

end CocoDB.BTree
