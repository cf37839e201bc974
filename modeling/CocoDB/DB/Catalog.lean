import CocoDB.BTree.CursorSpec
import CocoDB.Queue.Delivery

/-!
# The catalog

`internal/catalog`: the buckets, collections and queues of a database, once in
memory and once in a tree.  The two name their entries differently (`1:name` and
`01:name`).  A catalog that is opened again has what a scan of the tree reaches.
-/

namespace CocoDB.DB

open Lib
open BTree (TreeOp Reached Represents expected_append expected LeafItem
  SortedItems bindings Cursor)

/-! ## Objects -/

structure Object where
  id : UInt64
  type : UInt8
  name : Bytes
  root : PageID
  flags : UInt64
  extraData : Bytes
  deriving DecidableEq, Repr

inductive DecodeError where
  | invalidFormat
  | eof
  deriving DecidableEq, Repr

/-- `Object.Encode` -/
def Object.encode (object : Object) : Bytes :=
  [object.type] ++ (be 8 object.id.toNat ++ (be 8 object.root.toNat ++
    (be 8 object.flags.toNat ++ (be 2 object.name.length ++ (object.name ++
      (be 4 object.extraData.length ++ object.extraData))))))

/-- `binary.Read`, whose error is ignored: a number with missing bytes stays
zero, and the bytes there are gone. -/
def readBE (width : Nat) (data : Bytes) : Nat × Bytes :=
  if data.length < width then (0, [])
  else (ofBE (data.take width), data.drop width)

/-- `Reader.Read` into zeroed bytes; it fails only if nothing is left. -/
def readInto (count : Nat) (data : Bytes) : Bytes × Bytes :=
  (data.take count ++ List.replicate (count - data.length) 0, data.drop count)

/-- `DecodeObject` -/
def decodeObject (data : Bytes) : Except DecodeError Object :=
  if data.length < 25 then .error .invalidFormat
  else
    let type := data.headD 0
    let (id, data) := readBE 8 (data.drop 1)
    let (root, data) := readBE 8 data
    let (flags, data) := readBE 8 data
    let (nameLen, data) := readBE 2 data
    if data = [] then .error .eof
    else
      let (name, data) := readInto nameLen data
      let (extraLen, data) := readBE 4 data
      let (extra, _) := readInto extraLen data
      .ok ⟨.ofNat id, type, name, .ofNat root, .ofNat flags, extra⟩

/-- The lengths of the object fit the fields they are written to. -/
def Object.Writable (object : Object) : Prop :=
  object.name.length < 256 ^ 2 ∧ object.extraData.length < 256 ^ 4

theorem readBE_be {width value : Nat} (small : value < 256 ^ width)
    (rest : Bytes) : readBE width (be width value ++ rest) = (value, rest) := by
  have enough : ¬ (be width value ++ rest).length < width := by simp
  rw [readBE, if_neg enough, List.take_left' (be_length width value),
    List.drop_left' (be_length width value), ofBE_be, Nat.mod_eq_of_lt small]

theorem readInto_append (bytes rest : Bytes) :
    readInto bytes.length (bytes ++ rest) = (bytes, rest) := by
  simp [readInto]

theorem decode_encode {object : Object} (writable : object.Writable) :
    decodeObject object.encode = .ok object := by
  obtain ⟨nameFits, extraFits⟩ := writable
  have long : ¬ object.encode.length < 25 := by
    simp [Object.encode]
    omega
  have more : ∀ name extra : Bytes,
      name ++ (be 4 extra.length ++ extra) ≠ [] := by
    intro name extra none
    have length := congrArg List.length none
    simp at length
  have id := readBE_be (show object.id.toNat < 256 ^ 8 from
    object.id.toNat_lt)
  have root := readBE_be (show object.root.toNat < 256 ^ 8 from
    object.root.toNat_lt)
  have flags := readBE_be (show object.flags.toNat < 256 ^ 8 from
    object.flags.toNat_lt)
  have extra := readInto_append object.extraData []
  rw [List.append_nil] at extra
  rw [decodeObject, if_neg long]
  simp only [Object.encode, List.singleton_append, List.headD_cons,
    List.drop_succ_cons, List.drop_zero, id, root, flags,
    readBE_be nameFits, if_neg (more _ _), readInto_append,
    readBE_be extraFits, extra, UInt64.ofNat_toNat]

/-! ## Keys -/

def colon : UInt8 := 0x3A

/-- `%02d:%s`, the key in the tree. -/
def makeKey (type : UInt8) (name : Bytes) : Bytes :=
  (if type < 10 then [0x30] else []) ++ Queue.decimal type.toNat ++
    colon :: name

/-- `%d:%s`, the key in memory. -/
def memoryKey (type : UInt8) (name : Bytes) : Bytes :=
  Queue.decimal type.toNat ++ colon :: name

theorem decimal_colon (value : Nat) : colon ∉ Queue.decimal value := by
  intro member
  unfold Queue.decimal at member
  split at member
  · exact absurd (List.mem_singleton.mp member) (by decide)
  · obtain ⟨digit, listed, same⟩ := List.mem_map.mp member
    have small := Queue.digits_small listed
    have read := Queue.digit_read small
    rw [same] at read
    simp only [colon, UInt8.reduceToNat] at read
    omega

theorem split_colon {digits others name other : Bytes}
    (clean : colon ∉ digits) (cleanOther : colon ∉ others)
    (same : digits ++ colon :: name = others ++ colon :: other) :
    digits = others ∧ name = other := by
  have front : ∀ {digits : Bytes} (name : Bytes), colon ∉ digits →
      (digits ++ colon :: name).takeWhile
        (fun byte => decide (byte ≠ colon)) = digits := by
    intro digits name clean
    rw [List.takeWhile_append_of_pos]
    · simp
    · intro byte member
      simpa using ne_of_mem_of_not_mem member clean
  have digitsSame : digits = others := by
    rw [← front name clean, same, front other cleanOther]
  subst digitsSame
  exact ⟨rfl, (List.cons.inj (List.append_cancel_left same)).2⟩

theorem decimal_injective {first second : UInt8}
    (same : Queue.decimal first.toNat = Queue.decimal second.toNat) :
    first = second := by
  have read := congrArg Queue.ofDecimal same
  rw [Queue.ofDecimal_decimal, Queue.ofDecimal_decimal] at read
  exact UInt8.toNat_inj.mp read

theorem padded_injective {first second : UInt8}
    (same : (if first < 10 then [0x30] else []) ++
        Queue.decimal first.toNat =
      (if second < 10 then [0x30] else []) ++
        Queue.decimal second.toNat) : first = second := by
  have read : ∀ type : UInt8, Queue.ofDecimal
      ((if type < 10 then [0x30] else []) ++ Queue.decimal type.toNat) =
        type.toNat := by
    intro type
    split
    · have zero : Queue.ofDecimal ([0x30] ++ Queue.decimal type.toNat) =
          Queue.ofDecimal (Queue.decimal type.toNat) := by
        simp [Queue.ofDecimal, Nat.ofDigits_append]
      rw [zero, Queue.ofDecimal_decimal]
    · exact Queue.ofDecimal_decimal _
  have both := congrArg Queue.ofDecimal same
  rw [read, read] at both
  exact UInt8.toNat_inj.mp both

theorem makeKey_injective {type otherType : UInt8} {name otherName : Bytes}
    (same : makeKey type name = makeKey otherType otherName) :
    type = otherType ∧ name = otherName := by
  have clean : ∀ type : UInt8, colon ∉
      (if type < 10 then [0x30] else []) ++ Queue.decimal type.toNat := by
    intro type member
    rcases List.mem_append.mp member with zero | digit
    · split at zero
      · exact absurd (List.mem_singleton.mp zero) (by decide)
      · cases zero
    · exact decimal_colon _ digit
  obtain ⟨digits, names⟩ := split_colon (clean type) (clean otherType) same
  exact ⟨padded_injective digits, names⟩

theorem memoryKey_injective {type otherType : UInt8} {name otherName : Bytes}
    (same : memoryKey type name = memoryKey otherType otherName) :
    type = otherType ∧ name = otherName := by
  obtain ⟨digits, names⟩ := split_colon (decimal_colon type.toNat)
    (decimal_colon otherType.toNat) same
  exact ⟨decimal_injective digits, names⟩

/-! ## The catalog and its tree -/

structure Catalog (σ : Type) where
  tree : BTree.Tree σ
  /-- `Meta().CatalogRoot` of the pager -/
  catalogRoot : PageID
  objects : Bytes → Option Object
  nextOID : UInt64

section Operations

variable {σ : Type}

def created (tree : BTree.Tree σ) : Catalog σ :=
  ⟨tree, invalidPageID, fun _ => none, 1⟩

def Catalog.identified (object : Object) (catalog : Catalog σ) :
    Object × UInt64 :=
  if object.id = 0 then
    ({ object with id := catalog.nextOID }, catalog.nextOID + 1)
  else (object, catalog.nextOID)

variable [Pager σ]

def Catalog.getObject (type : UInt8) (name : Bytes) (catalog : Catalog σ) :
    Option Object :=
  catalog.objects (memoryKey type name)

def Catalog.putObject (object : Object) (catalog : Catalog σ) :
    Except Error Unit × Catalog σ :=
  let (object, nextOID) := catalog.identified object
  match BTree.insert (makeKey object.type object.name) object.encode
      catalog.tree with
  | (.error error, tree) =>
      (.error error, { catalog with tree := tree, nextOID := nextOID })
  | (.ok _, tree) =>
      (.ok (),
        { tree := tree
          catalogRoot := tree.root
          objects := Function.update catalog.objects
            (memoryKey object.type object.name) (some object)
          nextOID := nextOID })

def Catalog.dropObject (type : UInt8) (name : Bytes) (catalog : Catalog σ) :
    Except Error Unit × Catalog σ :=
  match BTree.delete (makeKey type name) catalog.tree with
  | (.error error, tree) => (.error error, { catalog with tree := tree })
  | (.ok _, tree) =>
      (.ok (),
        { catalog with
          tree := tree
          catalogRoot := tree.root
          objects := Function.update catalog.objects (memoryKey type name)
            none })

/-- What `NewCatalog` does with an item of the tree. -/
def Catalog.load (catalog : Catalog σ) (item : LeafItem) : Catalog σ :=
  match decodeObject item.value with
  | .error _ => catalog
  | .ok object =>
      { catalog with
        objects := Function.update catalog.objects
          (memoryKey object.type object.name) (some object)
        nextOID := if object.id ≥ catalog.nextOID then object.id + 1
          else catalog.nextOID }

/-- `NewCatalog`, which reads the whole tree; a scan of more than `fuel` rounds
has no result here. -/
def newCatalog (root : PageID) (pager : σ) (fuel : Nat) : Option (Catalog σ) :=
  let start : Catalog σ :=
    { created ⟨root, pager⟩ with catalogRoot := root }
  if root = invalidPageID then some start
  else
    (Cursor.scanFrom (Cursor.new start.tree).first Cursor.next
      (fun _ => false) (fun _ _ => true) fuel).map fun (items, cursor) =>
        items.foldl Catalog.load { start with tree := cursor.tree }

end Operations

/-! ## The tree mirrors the memory -/

def Object.treeKey (object : Object) : Bytes :=
  makeKey object.type object.name

def Object.key (object : Object) : Bytes :=
  memoryKey object.type object.name

/-- Two objects share a key in the tree just when they share one in memory. -/
theorem treeKey_eq_iff (object other : Object) :
    object.treeKey = other.treeKey ↔ object.key = other.key := by
  constructor
  · intro same
    obtain ⟨types, names⟩ := makeKey_injective same
    rw [Object.key, Object.key, types, names]
  · intro same
    obtain ⟨types, names⟩ := memoryKey_injective same
    rw [Object.treeKey, Object.treeKey, types, names]

/-- The tree binds the written objects of the memory, and nothing else. -/
structure Mirrors (map : Bytes → Option Bytes)
    (objects : Bytes → Option Object) : Prop where
  stored : ∀ key value, map key = some value → ∃ object : Object,
    key = object.treeKey ∧ value = object.encode ∧ object.Writable ∧
      objects object.key = some object
  held : ∀ key object, objects key = some object → key = object.key ∧
    object.Writable ∧ map object.treeKey = some object.encode

section Mirroring

variable {map other : Bytes → Option Bytes}
  {objects others : Bytes → Option Object} {object : Object}

theorem mirrors_empty : Mirrors (fun _ => none) fun _ => none := by
  constructor <;> intro _ _ bound <;> cases bound

theorem encode_injective {first second : Object} (writable : first.Writable)
    (writableToo : second.Writable) (same : first.encode = second.encode) :
    first = second := by
  have decoded := decode_encode writable
  rw [same, decode_encode writableToo] at decoded
  exact (Except.ok.inj decoded).symm

theorem Mirrors.update (mirrors : Mirrors map objects) (object : Object)
    {content : Option Object}
    (own : ∀ new, content = some new → new = object ∧ new.Writable) :
    Mirrors
      (Function.update map object.treeKey (content.map Object.encode))
      (Function.update objects object.key content) := by
  constructor
  · intro key value bound
    by_cases same : key = object.treeKey
    · subst same
      rw [Function.update_self, Option.map_eq_some_iff] at bound
      obtain ⟨new, shape, rfl⟩ := bound
      obtain ⟨rfl, writable⟩ := own new shape
      exact ⟨new, rfl, rfl, writable, by rw [Function.update_self, shape]⟩
    · rw [Function.update_of_ne same] at bound
      obtain ⟨old, rfl, shape, fits, there⟩ := mirrors.stored key value bound
      refine ⟨old, rfl, shape, fits, ?_⟩
      rwa [Function.update_of_ne ((treeKey_eq_iff old object).not.mp same)]
  · intro key found bound
    by_cases same : key = object.key
    · subst same
      rw [Function.update_self] at bound
      obtain ⟨rfl, writable⟩ := own found bound
      exact ⟨rfl, writable, by rw [Function.update_self, bound]; rfl⟩
    · rw [Function.update_of_ne same] at bound
      obtain ⟨rfl, fits, there⟩ := mirrors.held key found bound
      refine ⟨rfl, fits, ?_⟩
      rwa [Function.update_of_ne ((treeKey_eq_iff found object).not.mpr same)]

theorem Mirrors.put (mirrors : Mirrors map objects)
    (writable : object.Writable) :
    Mirrors (Function.update map object.treeKey (some object.encode))
      (Function.update objects object.key (some object)) :=
  mirrors.update object fun _ same =>
    ⟨(Option.some.inj same).symm, Option.some.inj same ▸ writable⟩

theorem Mirrors.objects_subset (first : Mirrors map objects)
    (second : Mirrors map others) {key : Bytes}
    (held : objects key = some object) : others key = some object := by
  obtain ⟨rfl, fits, bound⟩ := first.held key object held
  obtain ⟨same, keys, values, fitsToo, there⟩ := second.stored _ _ bound
  rw [encode_injective fits fitsToo values]
  exact there

theorem Mirrors.objects_eq (first : Mirrors map objects)
    (second : Mirrors map others) : objects = others := by
  funext key
  exact Option.ext fun object => ⟨first.objects_subset second,
    second.objects_subset first⟩

theorem Mirrors.map_subset (first : Mirrors map objects)
    (second : Mirrors other objects) {key value : Bytes}
    (bound : map key = some value) : other key = some value := by
  obtain ⟨object, rfl, rfl, _, held⟩ := first.stored key value bound
  exact (second.held _ _ held).2.2

theorem Mirrors.map_eq (first : Mirrors map objects)
    (second : Mirrors other objects) : map = other := by
  funext key
  exact Option.ext fun value => ⟨first.map_subset second,
    second.map_subset first⟩

end Mirroring

/-! ## Runs -/

inductive CatalogOp where
  | put (object : Object)
  | drop (type : UInt8) (name : Bytes)
  deriving DecidableEq, Repr

section Runs

variable {σ : Type} [Pager σ]

def CatalogOp.apply :
    CatalogOp → Catalog σ → Except Error Unit × Catalog σ
  | .put object, catalog => catalog.putObject object
  | .drop type name, catalog => catalog.dropObject type name

variable [LawfulPager σ]

/-- The pager has the pages that the call may need. -/
def CatalogOp.Supplied : CatalogOp → Catalog σ → Prop
  | .put object, catalog =>
      BTree.Supplied (.insert (makeKey object.type object.name)
        (catalog.identified object).1.encode) catalog.tree
  | .drop _ _, _ => True

/-- The root is recorded, and the tree mirrors the memory. -/
structure Kept (catalog : Catalog σ) : Prop where
  root : catalog.catalogRoot = catalog.tree.root
  mirrored : ∃ past, Reached past catalog.tree ∧
    Mirrors (expected past) catalog.objects

variable {catalog : Catalog σ}

omit [Pager σ] [LawfulPager σ] in
theorem identified_key (object : Object) (catalog : Catalog σ) :
    (catalog.identified object).1.type = object.type ∧
      (catalog.identified object).1.name = object.name := by
  unfold Catalog.identified
  split <;> exact ⟨rfl, rfl⟩

omit [LawfulPager σ] in
theorem writable_of_insert {object : Object} {tree : BTree.Tree σ}
    (done : (BTree.insert object.treeKey object.encode tree).1 = .ok ()) :
    object.Writable := by
  obtain ⟨keyFits, valueFits⟩ := BTree.insert_admissible done
  have long : object.name.length ≤ object.treeKey.length := by
    simp [Object.treeKey, makeKey]
    omega
  have longer : object.extraData.length ≤ object.encode.length := by
    simp [Object.encode]
    omega
  have keyBound : BTree.maxKeySize < 256 ^ 2 := by decide
  have valueBound : BTree.maxValueSize < 256 ^ 4 := by decide
  exact ⟨(long.trans keyFits).trans_lt keyBound,
    (longer.trans valueFits).trans_lt valueBound⟩

theorem Kept.apply {op : CatalogOp} (kept : Kept catalog)
    (supplied : op.Supplied catalog)
    (done : (op.apply catalog).1 = .ok ()) : Kept (op.apply catalog).2 := by
  obtain ⟨_, past, reached, mirrors⟩ := kept
  cases op with
  | put object =>
      obtain ⟨type, name⟩ := identified_key object catalog
      simp only [CatalogOp.apply, Catalog.putObject, CatalogOp.Supplied,
        ← type, ← name] at supplied done ⊢
      generalize (catalog.identified object).1 = new at *
      rcases shape : BTree.insert (makeKey new.type new.name) new.encode
        catalog.tree with ⟨outcome, tree⟩
      rw [shape] at done
      cases outcome with
      | error error => cases done
      | ok inserted =>
          have accepted : (BTree.insert new.treeKey new.encode
              catalog.tree).1 = .ok () := congrArg Prod.fst shape
          have after := reached.apply supplied accepted
          simp only [TreeOp.apply, shape] at after
          refine ⟨rfl, _, after, ?_⟩
          rw [expected_append]
          exact mirrors.put (writable_of_insert accepted)
  | drop type name =>
      simp only [CatalogOp.apply, Catalog.dropObject] at done ⊢
      have whole : TreeOp.apply (.delete (makeKey type name)) catalog.tree =
        BTree.delete (makeKey type name) catalog.tree := rfl
      rcases shape : BTree.delete (makeKey type name) catalog.tree with
        ⟨outcome, tree⟩
      rw [shape] at done whole
      cases outcome with
      | error error => cases done
      | ok deleted =>
          have after := @Reached.apply _ _ _ _ _ (.delete (makeKey type name))
            reached trivial (congrArg Prod.fst whole)
          rw [whole] at after
          refine ⟨rfl, _, after, ?_⟩
          rw [expected_append]
          exact @Mirrors.update _ _ mirrors ⟨0, type, name, 0, 0, []⟩ none
            fun _ same => by cases same

theorem Kept.run {ops : List CatalogOp} (kept : Kept catalog)
    (supplied : Along CatalogOp.apply CatalogOp.Supplied ops catalog)
    (done : (run CatalogOp.apply ops catalog).1 = .ok ()) :
    Kept (run CatalogOp.apply ops catalog).2 :=
  @run_invariant _ _ _ _ _ (fun _ catalog => Kept catalog)
    (fun kept supplied done => kept.apply supplied done) ops [] _ kept supplied
    done

/-! ## Opening again -/

omit [Pager σ] [LawfulPager σ] in
theorem load_mirrors {items : List LeafItem} (sorted : SortedItems items)
    (written : ∀ item ∈ items, ∃ object : Object,
      item.key = object.treeKey ∧ item.value = object.encode ∧
        object.Writable) {start : Catalog σ}
    (empty : start.objects = fun _ => none) :
    Mirrors (bindings items) (items.foldl Catalog.load start).objects := by
  induction items using List.reverseRecOn with
  | nil =>
      rw [List.foldl_nil, empty]
      exact mirrors_empty
  | append_singleton front item inductionHypothesis =>
      have before := inductionHypothesis
        (sorted.sublist (List.sublist_append_left front [item]))
        fun other member => written other (List.mem_append_left _ member)
      obtain ⟨object, key, value, writable⟩ := written item (by simp)
      have below := (List.pairwise_append.mp sorted).2.2
      have absent : bindings front item.key = none :=
        BTree.bindings_absent fun other member =>
          (below other member item List.mem_cons_self).ne
      have bound : bindings (front ++ [item]) =
          Function.update (bindings front) object.treeKey
            (some object.encode) := by
        funext other
        rw [BTree.bindings_append, BTree.bindings_cons, ← key, ← value]
        by_cases same : item.key = other
        · subst same
          rw [absent, if_pos rfl, Function.update_self]
          rfl
        · rw [if_neg same, Function.update_of_ne (Ne.symm same)]
          cases bindings front other <;> rfl
      have loaded := before.put writable
      rw [List.foldl_append, bound]
      simp only [List.foldl_cons, List.foldl_nil, Catalog.load, value,
        decode_encode writable]
      exact loaded

theorem reach_of_bindings {outline : BTree.Outline}
    (sorted : SortedItems outline.contents)
    (same : bindings (BTree.reach outline.leaves) =
      bindings outline.contents) :
    BTree.reach outline.leaves = outline.contents := by
  have sublist : (BTree.reach outline.leaves).Sublist outline.contents :=
    BTree.reach_sublist outline.leaves
  have keys : (outline.contents.map LeafItem.key).Nodup :=
    (List.pairwise_map.mpr sorted).imp ne_of_lt
  have reached : outline.contents.map LeafItem.key ⊆
      (BTree.reach outline.leaves).map LeafItem.key := by
    intro key member
    obtain ⟨item, inside, rfl⟩ := List.mem_map.mp member
    have bound := sorted.bindings_mem inside
    rw [← same] at bound
    exact BTree.key_mem_of_bindings bound
  have length := (List.subperm_of_subset keys reached).length_le
  rw [List.length_map, List.length_map] at length
  exact sublist.eq_of_length_le length

theorem newCatalog_spec {tree : BTree.Tree σ} {height : Nat}
    {outline : BTree.Outline} (represents : Represents tree height outline)
    {objects : Bytes → Option Object}
    (mirrors : Mirrors (bindings outline.contents) objects) {fuel : Nat}
    (enough : outline.contents.length ≤ fuel) :
    ∃ opened, newCatalog tree.root tree.pager fuel = some opened ∧
      Mirrors (bindings (BTree.reach outline.leaves)) opened.objects := by
  have sublist : (BTree.reach outline.leaves).Sublist outline.contents :=
    BTree.reach_sublist outline.leaves
  have sorted := represents.sorted
  unfold newCatalog
  simp only
  split
  · next missing =>
      cases represents with
      | empty _ _ => exact ⟨_, rfl, mirrors_empty⟩
      | grown stands => exact absurd missing stands.root_ne
  · obtain ⟨final, scanned, _⟩ := BTree.scanFrom_all
      (fun facing => facing.advances) represents.first_new
      ((BTree.reach_length_le outline.leaves).trans enough)
    refine ⟨_, by rw [show (created ⟨tree.root, tree.pager⟩).tree = tree
      from rfl, scanned]; rfl, ?_⟩
    refine load_mirrors (sorted.sublist sublist) (fun item member => ?_) rfl
    obtain ⟨object, key, value, writable, _⟩ := mirrors.stored _ _
      (sorted.bindings_mem (sublist.subset member))
    exact ⟨object, key, value, writable⟩

/-- After any successful puts and drops, a catalog that is opened at the
recorded root has the objects of the catalog in memory exactly when no leaf of
the tree with items stands behind an empty one. -/
theorem catalog_reopened_iff {start : BTree.Tree σ}
    (missing : start.root = invalidPageID)
    (good : LawfulPager.Good start.pager) {ops : List CatalogOp}
    {final : Catalog σ}
    (supplied : Along CatalogOp.apply CatalogOp.Supplied ops (created start))
    (done : run CatalogOp.apply ops (created start) = (.ok (), final)) :
    ∃ enough, ∀ fuel, enough ≤ fuel →
      ∃ opened, newCatalog final.catalogRoot final.tree.pager fuel =
          some opened ∧
        (opened.objects = final.objects ↔ BTree.FilledFirst final.tree) := by
  have begun : Kept (created start) :=
    ⟨missing.symm, [], Reached.none missing good, mirrors_empty⟩
  have kept := begun.run supplied (congrArg Prod.fst done)
  rw [done] at kept
  obtain ⟨root, past, ⟨height, outline, represents, same⟩, mirrors⟩ := kept
  rw [← same] at mirrors
  refine ⟨outline.contents.length, fun fuel enough => ?_⟩
  obtain ⟨opened, shape, mirrored⟩ :=
    newCatalog_spec represents mirrors enough
  rw [root]
  refine ⟨opened, shape, ?_⟩
  rw [represents.filledFirst_iff]
  constructor
  · intro equal
    rw [equal] at mirrored
    exact reach_of_bindings represents.sorted (mirrored.map_eq mirrors)
  · intro complete
    rw [complete] at mirrored
    exact mirrored.objects_eq mirrors

end Runs

def smallObject : Object := ⟨0, 1, [98], invalidPageID, 0, []⟩

theorem smallObject_put :
    BTree.Supplied (.insert smallObject.treeKey
        ((created BTree.newTree).identified smallObject).1.encode)
        BTree.newTree ∧
      (CatalogOp.apply (.put smallObject) (created BTree.newTree)).1 =
        .ok () := by
  have roomy := BTree.newTree_room
  have pages : BTree.Supplied (.insert smallObject.treeKey
      ((created BTree.newTree).identified smallObject).1.encode)
      BTree.newTree := by
    show (2 : Nat) ≤ LawfulPager.room BTree.newTree.pager
    omega
  obtain ⟨accepted, _⟩ := Reached.apply_total
    (Reached.none rfl BTree.newTree_good) ⟨pages, by decide, .inl rfl⟩
  refine ⟨pages, ?_⟩
  show ((created BTree.newTree).putObject smallObject).1 = .ok ()
  unfold Catalog.putObject
  rcases shape : BTree.insert
    (makeKey ((created BTree.newTree).identified smallObject).1.type
      ((created BTree.newTree).identified smallObject).1.name)
    ((created BTree.newTree).identified smallObject).1.encode
    (created BTree.newTree).tree with ⟨outcome, tree⟩
  have same : outcome = .ok () := (congrArg Prod.fst shape).symm.trans accepted
  subst same
  simp only [shape]

theorem catalog_reopened_iff_small :
    ∃ final, run CatalogOp.apply [.put smallObject] (created BTree.newTree) =
        (.ok (), final) ∧
      ∃ enough, ∀ fuel, enough ≤ fuel →
        ∃ opened, newCatalog final.catalogRoot final.tree.pager fuel =
            some opened ∧
          (opened.objects = final.objects ↔
            BTree.FilledFirst final.tree) := by
  obtain ⟨pages, done⟩ := smallObject_put
  have whole : run CatalogOp.apply [.put smallObject]
      (created BTree.newTree) = (.ok (), (CatalogOp.apply (.put smallObject)
        (created BTree.newTree)).2) := run_cons done
  have supplied : Along CatalogOp.apply CatalogOp.Supplied [.put smallObject]
      (created BTree.newTree) := ⟨pages, fun _ => trivial⟩
  exact ⟨_, whole, catalog_reopened_iff rfl BTree.newTree_good supplied
    whole⟩

end CocoDB.DB
