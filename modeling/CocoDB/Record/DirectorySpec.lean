import CocoDB.Record.Pages

/-!
# The directory as a map

The tree of the directory has keys of nine bytes and values of ten, so `Put`
succeeds as long as there are pages.
-/

namespace CocoDB.Record

open Lib LawfulPager DefaultPager BTree

namespace Location

theorem encode_length (loc : Location) : loc.encode.length = 10 := by
  simp only [encode, List.length_append, be_length]

theorem decode_encode {loc : Location} (small : loc.slot < 65536) :
    decode loc.encode = loc := by
  have slot : ofBE (be 2 loc.slot) = loc.slot := by
    rw [ofBE_be]
    exact Nat.mod_eq_of_lt small
  unfold decode encode
  rw [List.take_left' (be_length 8 _), List.drop_left' (be_length 8 _),
    List.take_of_length_le (be_length 2 _).le, slot, ofBE_be64]

end Location

namespace Directory

theorem key_length (id : RecordID) : (key id).length = 9 := by
  unfold key Index.encodeUint64 Index.encodeWord
  rw [List.length_cons, be_length]

theorem key_injective {left right : RecordID} (same : key left = key right) :
    left = right := by
  unfold key Index.encodeUint64 Index.encodeWord at same
  have words := (List.cons.inj same).2
  rw [← ofBE_be64 left, words, ofBE_be64]

def limits : Limits := .sized 9 10 (by decide) (by decide)

abbrev LocationMap := RecordID → Option Location

structure Lists (tree : BTree.Tree DefaultPager) (tall : Nat)
    (dir : LocationMap) : Prop where
  shape : ∃ height outline land, height ≤ tall ∧
    Represents tree height outline ∧ Region limits land tree.pager ∧ land.Reaches tree.root ∧
    ∀ id, bindings outline.contents (key id) = (dir id).map Location.encode
  small : ∀ {id loc}, dir id = some loc → loc.slot < 65536

variable {tree : BTree.Tree DefaultPager} {tall : Nat} {dir : LocationMap}

theorem lists_empty {pager : DefaultPager} (sound : pager.Sound) :
    Lists ⟨invalidPageID, pager⟩ 0 fun _ => none := by
  refine ⟨⟨0, 0, ⟨∅, fun _ => 0⟩, Nat.le_refl 0, .empty rfl sound, ?_, .inl rfl,
    fun _ => rfl⟩, fun listed => (nomatch listed)⟩
  exact ⟨sound, fun inside => (nomatch inside), fun inside =>
    (nomatch inside)⟩

theorem Lists.sound (lists : Lists tree tall dir) : tree.pager.Sound := by
  obtain ⟨height, outline, land, _, represents, _⟩ := lists.shape
  exact represents.good

theorem Lists.rise (lists : Lists tree tall dir) {taller : Nat}
    (higher : tall ≤ taller) : Lists tree taller dir := by
  obtain ⟨height, outline, land, low, rest⟩ := lists.shape
  exact ⟨⟨height, outline, land, low.trans higher, rest⟩, lists.small⟩

theorem Lists.cap (lists : Lists tree tall dir) :
    Lists tree (min tall tree.pager.info.nextPageID.toNat) dir := by
  obtain ⟨height, outline, land, low, represents, rest⟩ := lists.shape
  have pages : height ≤ tree.pager.info.nextPageID.toNat :=
    represents.height_le
  exact ⟨⟨height, outline, land, Nat.le_min.mpr ⟨low, pages⟩, represents,
    rest⟩, lists.small⟩

theorem Lists.frames (lists : Lists tree tall dir) {after : DefaultPager}
    (frames : Frames tree.pager after) :
    Lists { tree with pager := after } tall dir := by
  obtain ⟨height, outline, land, low, represents, region, reaches, listed⟩ :=
    lists.shape
  have same : ∀ {id}, id ∈ outline.ids →
      SameBody (tree.pager.pageOf id) (after.pageOf id) := fun inside =>
    frames.nodes (represents.isNode inside).1 (represents.isNode inside).2
  have landSame : ∀ {id}, id ∈ land.pages →
      SameBody (tree.pager.pageOf id) (after.pageOf id) := by
    intro id inside
    refine frames.nodes (region.allocated inside) ?_
    have node := region.node inside
    generalize land.level id = level at node
    cases node with
    | leaf type_eq _ _ _ _ => exact .inl type_eq
    | internal node _ _ => exact .inr node.type_eq
  have represented : Represents { tree with pager := after } height
      outline := by
    cases represents with
    | empty missing _ => exact .empty missing frames.sound
    | grown stands =>
        have leafSame : ∀ id, id ∈ outline.leaves.map Leaf.id →
            SameBody (tree.pager.pageOf id) (after.pageOf id) := by
          intro id member
          obtain ⟨leaf, inside, rfl⟩ := List.mem_map.mp member
          exact same (stands.subtree.listed.mem inside)
        refine .grown ⟨frames.sound, stands.subtree.congr fun id inside =>
          (same inside).sameNode, stands.nodup, fun inside =>
          frames.held (stands.allocated inside), ?_⟩
        exact stands.linked.congr
          (fun id member => (leafSame id member).links.1)
          (fun id member => (leafSame id member).links.2)
  exact ⟨⟨height, outline, land, low, represented, ⟨frames.sound, fun inside =>
    frames.held (region.allocated inside), fun inside =>
    (landSame inside).nodeOn (region.node inside)⟩, reaches, listed⟩,
    lists.small⟩

theorem noteRoot_spec {pager : DefaultPager} (sound : pager.Sound)
    (root : PageID) :
    let noted : DefaultPager :=
      { pager with info := { pager.info with recordDirRoot := root } }
    Works pager noted 0 :=
  .of_evolves ⟨⟨sound.pinned, sound.known, sound.distinct, sound.header_id,
    sound.below, sound.noFree⟩, fun held => held, fun _ _ => rfl,
    Nat.le_refl _⟩ ⟨fun known => known, rfl⟩

theorem get_spec (lists : Lists tree tall dir) (id : RecordID) :
    (get id tree).1 = .ok (dir id) ∧ Lists (get id tree).2 tall dir ∧
      (get id tree).2.root = tree.root ∧
      Works tree.pager (get id tree).2.pager 0 := by
  obtain ⟨height, outline, land, low, represents, region, reaches, listed⟩ :=
    lists.shape
  obtain ⟨found, root, evolves⟩ := represents.search_spec (key id)
  have continues := represents.search_kept (continues_kept tree.pager)
    (.refl _) (key id)
  have works : Works tree.pager (search (key id) tree).2.pager 0 :=
    .of_evolves evolves continues
  have after : Lists (search (key id) tree).2 tall dir := by
    have framed := lists.frames works.frames
    rw [← root] at framed
    exact framed
  rw [listed] at found
  unfold get
  rcases outcome : search (key id) tree with ⟨result, searched⟩
  rw [outcome] at found root after works
  simp only at found
  subst found
  cases here : dir id with
  | none => exact ⟨rfl, after, root, works⟩
  | some loc =>
      have long : ¬ loc.encode.length < 10 := by
        rw [loc.encode_length]
        omega
      simp only [Option.map_some, long, if_false,
        Location.decode_encode (lists.small here)]
      exact ⟨trivial, after, root, works⟩

theorem put_spec (lists : Lists tree tall dir) (id : RecordID) {loc : Location}
    (small : loc.slot < 65536)
    (roomy : tree.pager.info.nextPageID.toNat + tall + 3 ≤ 2 ^ 64) :
    (put id loc tree).1 = .ok () ∧
      Lists (put id loc tree).2 (tall + 1)
        (Function.update dir id (some loc)) ∧
      Advances tree.pager (put id loc tree).2.pager (tall + 2) := by
  obtain ⟨height, outline, land, low, represents, region, reaches, listed⟩ :=
    lists.shape
  have fine : limits.Fine ⟨key id, loc.encode⟩ :=
    ⟨key_length id, loc.encode_length⟩
  have fits : SplitsFit (key id) loc.encode tree :=
    represents.splitsFit_sized region reaches (fun sized => sized)
      (fun sized => sized) fine
  have enough : height + 2 ≤ room tree.pager := by
    show height + 2 ≤ 2 ^ 64 - 1 - tree.pager.info.nextPageID.toNat
    omega
  obtain ⟨total, result⟩ := represents.insert_spec fine.admissible enough
  have done := total.mpr fits
  obtain ⟨newHeight, changed, inserted⟩ := result done
  have wanted := represents.pagesWanted_eq (key id)
  obtain ⟨more, spreads, stays⟩ := region.spread_insert reaches
    (show pagesWanted (key id) tree ≤ room tree.pager by rw [wanted]; exact
      enough) (fun _ => fine)
  have continues := represents.insert_kept (continues_kept tree.pager)
    (.refl _) fine.admissible enough done
  have advances : Advances tree.pager (insert (key id) loc.encode tree).2.pager
      (tall + 2) := by
    refine (Advances.of_evolves inserted.evolves continues ?_).afford (by omega)
    exact fun member inside => node_apart (represents.isNode inside).2
  have after : Lists (insert (key id) loc.encode tree).2 (tall + 1)
      (Function.update dir id (some loc)) := by
    refine ⟨⟨newHeight, changed, more, inserted.height_le.trans (by omega),
      inserted.represents, spreads.region, ?_, ?_⟩, ?_⟩
    · rcases stays with same | inside
      · rw [same]
        exact spreads.covers.reaches reaches
      · exact .inr inside
    · intro other
      rw [inserted.bindings_eq]
      by_cases same : other = id
      · subst same
        rw [Function.update_self, Function.update_self]
        rfl
      · rw [Function.update_of_ne fun equal => same (key_injective equal),
          Function.update_of_ne same, listed]
    · intro other place found
      by_cases same : other = id
      · subst same
        rw [Function.update_self] at found
        rw [← Option.some.inj found]
        exact small
      · rw [Function.update_of_ne same] at found
        exact lists.small found
  unfold put
  rcases outcome : insert (key id) loc.encode tree with ⟨result, next⟩
  rw [outcome] at done after advances
  simp only at done after advances
  subst done
  have noted := noteRoot_spec after.sound next.root
  exact ⟨rfl, after.frames noted.frames, advances.trans noted.toAdvances⟩

end Directory

end CocoDB.Record
