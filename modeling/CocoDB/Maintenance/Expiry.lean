import CocoDB.Index.TTL
import CocoDB.Document.Memory
import CocoDB.Lib.Run

/-!
# Expiration of keys

`Bucket.Put` with a time to live, and the part of `RunOnce` that cleans up what
has expired; the rest of `RunOnce` writes pages and the log back and changes no
tree.  Times are readings of the clock in nanoseconds.
-/

namespace CocoDB

open Lib Index

/-- The buckets of a database and its TTL index, with the storage of both. -/
structure Expiry (σ : Type) [Kernel σ] where
  index : Kernel.Tree σ
  buckets : List (UInt64 × Kernel.Tree σ)
  kernel : σ

namespace Expiry

variable {σ : Type} [Kernel σ]

/-- The tree of a bucket, which is new before the first `Put`. -/
def treeOf (id : UInt64) (state : Expiry σ) : Kernel.Tree σ :=
  ((state.buckets.find? fun bucket => bucket.1 = id).map Prod.snd).getD
    Kernel.newBTree

def setTree (id : UInt64) (tree : Kernel.Tree σ) (next : σ)
    (state : Expiry σ) : Expiry σ where
  index := state.index
  buckets := (id, tree) ::
    state.buckets.filter fun bucket => bucket.1 ≠ id
  kernel := next

/-- `_ = b.ttlIndex.Add(expireAt, b.id, key)` -/
def schedule (expireAt : Int64) (id : UInt64) (key : Bytes)
    (state : Expiry σ) : Expiry σ :=
  match TTLIndex.add expireAt id key state.index state.kernel with
  | (_, tree, next) => { state with index := tree, kernel := next }

/-- `Bucket.Put` at a time, without the option when `ttl` is 0.  `UnixNano`
wraps. -/
def put (now : Int64) (id : UInt64) (key value : Bytes) (ttl : Int64)
    (state : Expiry σ) : Except Error Unit × Expiry σ :=
  match Kernel.insert key value (state.treeOf id) state.kernel with
  | (.error cause, tree, next) => (.error cause, state.setTree id tree next)
  | (.ok _, tree, next) =>
      if 0 < ttl then
        (.ok (), (state.setTree id tree next).schedule
          (Int64.ofInt (now.toInt + ttl.toInt)) id key)
      else (.ok (), state.setTree id tree next)

/-- `_ = s.deleteFn(item.ObjectID, item.KeyOrID)`, which deletes the key from its
bucket. -/
def deleteKey (item : ExpiredItem) (state : Expiry σ) : Expiry σ :=
  match Kernel.delete item.keyOrID (state.treeOf item.objectID)
      state.kernel with
  | (_, tree, next) => state.setTree item.objectID tree next

/-- `_ = s.ttlIndex.Remove(time.Now(), item.ObjectID, item.KeyOrID)` -/
def unschedule (now : Int64) (item : ExpiredItem) (state : Expiry σ) :
    Expiry σ :=
  match TTLIndex.remove now item.objectID item.keyOrID state.index
      state.kernel with
  | (_, tree, next) => { state with index := tree, kernel := next }

/-- The loop of `RunOnce` over the expired items. -/
def process : List ExpiredItem → (clock : Nat → Int64) → Expiry σ → Expiry σ
  | [], _, state => state
  | item :: rest, clock, state =>
      process rest (fun turn => clock (turn + 1))
        ((state.deleteKey item).unschedule (clock 0) item)

/-- The clean-up of `RunOnce`, with the items that it processes; `clock` gives
its readings of the clock in their order. -/
def runOnce (clock : Nat → Int64) (state : Expiry σ) :
    List ExpiredItem × Expiry σ :=
  match TTLIndex.findExpired (clock 0) 100 state.index state.kernel with
  | (.error _, next) => ([], { state with kernel := next })
  | (.ok expired, next) =>
      (expired, process expired (fun turn => clock (turn + 1))
        { state with kernel := next })

end Expiry

/-! ## Histories -/

inductive LifeEvent where
  | put (now : Int64) (id : UInt64) (key value : Bytes) (ttl : Int64)
  | runOnce (clock : Nat → Int64)

/-- What has happened to keys: a `Put` that succeeded, with the time at which its
key is to be deleted, and a pass that processed some items. -/
inductive Past where
  | put (id : UInt64) (key : Bytes) (expireAt : Option Int)
  | pass (now : Int64) (items : List ExpiredItem)

/-- A database with its history; the last event comes first. -/
structure Life (σ : Type) [Kernel σ] where
  state : Expiry σ
  log : List Past

/-- When the key is to be deleted, as its last `Put` says. -/
def latest (id : UInt64) (key : Bytes) : List Past → Option (Option Int)
  | [] => none
  | .put objectID keyOrID expireAt :: rest =>
      if objectID = id ∧ keyOrID = key then some expireAt
      else latest id key rest
  | .pass _ _ :: rest => latest id key rest

/-- When the key is to be deleted, if no pass has processed it since its last
`Put`. -/
def pending (id : UInt64) (key : Bytes) : List Past → Option Int
  | [] => none
  | .put objectID keyOrID expireAt :: rest =>
      if objectID = id ∧ keyOrID = key then expireAt else pending id key rest
  | .pass _ items :: rest =>
      if ∃ item ∈ items, item.objectID = id ∧ item.keyOrID = key then none
      else pending id key rest

namespace Life

variable {σ : Type} [Kernel σ]

def perform (life : Life σ) : LifeEvent → Life σ
  | .put now id key value ttl =>
      match life.state.put now id key value ttl with
      | (.error _, next) => { life with state := next }
      | (.ok _, next) =>
          { state := next
            log := .put id key
              (if 0 < ttl then some (now.toInt + ttl.toInt) else none) ::
                life.log }
  | .runOnce clock =>
      { state := (life.state.runOnce clock).2
        log := .pass (clock 0) (life.state.runOnce clock).1 :: life.log }

end Life

end CocoDB

/-! ## The life of a key

A pass deletes the keys of the entries that it finds.  `Put` leaves the entry of
an overwritten key in the index, and a pass removes an entry only if the clock
shows its time just then.  In histories that avoid both, keys are deleted when
their last `Put` says so.
-/

namespace CocoDB

open Lib Index LawfulKernel
open BTree (LeafItem)

namespace Expiry

variable {σ : Type} [Kernel σ]

/-- The storage holds the index, with the given leaves, and the buckets. -/
def Backed [LawfulKernel σ] (state : Expiry σ) (spare : Nat)
    (leaves : Leaves) : Prop :=
  ∃ (shelf : List (UInt64 × Kernel.Tree σ × Leaves)) (records : RecordMap),
    state.buckets = shelf.map (fun place => (place.1, place.2.1)) ∧
    (shelf.map Prod.fst).Nodup ∧
    Holds state.kernel spare ((state.index, leaves) :: shelf.map Prod.snd)
      records

variable [LawfulKernel σ] {state : Expiry σ} {spare : Nat} {leaves : Leaves}

theorem apart_of_nodup {α : Type} {shelf : List (UInt64 × α)}
    {place : UInt64 × α} (distinct : (shelf.map Prod.fst).Nodup)
    (member : place ∈ shelf) :
    shelf.Perm (place :: shelf.filter fun other => other.1 ≠ place.1) := by
  obtain ⟨front, back, rfl⟩ := List.append_of_mem member
  rw [List.map_append, List.map_cons, List.nodup_middle, List.nodup_cons,
    ← List.map_append] at distinct
  have others : ∀ other ∈ front ++ back, other.1 ≠ place.1 := by
    intro other listed same
    exact distinct.1 (List.mem_map.mpr ⟨other, listed, same⟩)
  have kept : (front ++ place :: back).filter
      (fun other => other.1 ≠ place.1) = front ++ back := by
    rw [List.filter_append, List.filter_cons_of_neg (by simp),
      ← List.filter_append, List.filter_eq_self]
    simpa using others
  rw [kept]
  exact List.perm_middle

theorem Backed.focus (backed : state.Backed spare leaves) (id : UInt64) :
    ∃ (own : Leaves) (others : List (Kernel.Tree σ × Leaves))
      (records : RecordMap),
      Holds state.kernel spare ((state.treeOf id, own) ::
        (state.index, leaves) :: others) records ∧
      ∀ {tree : Kernel.Tree σ} {next : σ} {less : Nat} {changed : Leaves},
        Holds next less ((tree, changed) :: (state.index, leaves) :: others)
          records → (state.setTree id tree next).Backed less leaves := by
  obtain ⟨shelf, records, listed, distinct, holds⟩ := backed
  have rest : state.buckets.filter (fun bucket => bucket.1 ≠ id) =
      (shelf.filter fun place => place.1 ≠ id).map
        (fun place => (place.1, place.2.1)) := by
    rw [listed, List.filter_map]
    rfl
  have unshelved : ∀ {tree : Kernel.Tree σ} {next : σ} {less : Nat}
      {changed : Leaves}, Holds next less ((tree, changed) ::
        (state.index, leaves) ::
          (shelf.filter fun place => place.1 ≠ id).map Prod.snd) records →
      (state.setTree id tree next).Backed less leaves := by
    intro tree next less changed held
    refine ⟨(id, tree, changed) :: shelf.filter fun place => place.1 ≠ id,
      records, ?_, ?_, LawfulKernel.perm (List.Perm.swap _ _ _) held⟩
    · rw [setTree, rest]
      rfl
    · rw [List.map_cons, List.nodup_cons]
      constructor
      · intro member
        obtain ⟨place, kept, same⟩ := List.mem_map.mp member
        have differs := (List.mem_filter.mp kept).2
        simp [same] at differs
      · exact distinct.sublist (List.filter_sublist.map Prod.fst)
  have located : state.treeOf id =
      ((shelf.find? fun place => place.1 = id).map
        fun place => place.2.1).getD Kernel.newBTree := by
    rw [treeOf, listed, List.find?_map, Option.map_map]
    rfl
  cases found : shelf.find? fun place => place.1 = id with
  | none =>
      have absent := List.find?_eq_none.mp found
      have all : (shelf.filter fun place => place.1 ≠ id) = shelf := by
        rw [List.filter_eq_self]
        simpa using absent
      rw [found] at located
      refine ⟨[], _, records, ?_, unshelved⟩
      rw [all, located]
      exact LawfulKernel.create holds
  | some place =>
      have named : place.1 = id := by simpa using List.find?_some found
      have apart := apart_of_nodup distinct (List.mem_of_find?_eq_some found)
      rw [named] at apart
      rw [found] at located
      refine ⟨place.2.2, _, records, ?_, unshelved⟩
      rw [located]
      apply LawfulKernel.perm _ holds
      exact ((apart.map Prod.snd).cons _).trans (List.Perm.swap _ _ _)

theorem Backed.fewer {more : Nat} (backed : state.Backed more leaves)
    (enough : spare ≤ more) : state.Backed spare leaves := by
  obtain ⟨shelf, records, listed, distinct, holds⟩ := backed
  exact ⟨shelf, records, listed, distinct, LawfulKernel.fewer enough holds⟩

theorem Backed.deleteKey (backed : state.Backed spare leaves)
    (item : ExpiredItem) : (state.deleteKey item).Backed spare leaves := by
  obtain ⟨own, others, records, holds, back⟩ := backed.focus item.objectID
  obtain ⟨_, next⟩ := LawfulKernel.delete_spec item.keyOrID holds
  exact back next

theorem Backed.unschedule (backed : state.Backed spare leaves) (now : Int64)
    (item : ExpiredItem) : (state.unschedule now item).Backed spare
      (leaves.without (makeKey now item.objectID item.keyOrID)) := by
  obtain ⟨shelf, records, listed, distinct, holds⟩ := backed
  obtain ⟨_, next⟩ := LawfulKernel.delete_spec
    (makeKey now item.objectID item.keyOrID) holds
  exact ⟨shelf, records, listed, distinct, next⟩

theorem Backed.schedule (backed : state.Backed (spare + 1) leaves)
    {expireAt : Int64} {id : UInt64} {key : Bytes}
    (done : (TTLIndex.add expireAt id key state.index state.kernel).1 =
      .ok ()) :
    ∃ changed, leaves.Put (makeKey expireAt id key) [1] changed ∧
      (state.schedule expireAt id key).Backed spare changed := by
  obtain ⟨shelf, records, listed, distinct, holds⟩ := backed
  obtain ⟨changed, entered, next⟩ := insert_spec holds done
  exact ⟨changed, entered, shelf, records, listed, distinct, next⟩

theorem Backed.insert (backed : state.Backed (spare + 1) leaves)
    {id : UInt64} {key value : Bytes} {tree : Kernel.Tree σ} {next : σ}
    (done : Kernel.insert key value (state.treeOf id) state.kernel =
      (.ok (), tree, next)) : (state.setTree id tree next).Backed spare
        leaves := by
  obtain ⟨own, others, records, holds, back⟩ := backed.focus id
  obtain ⟨changed, _, held⟩ := insert_spec holds (by rw [done])
  rw [done] at held
  exact back held

def removedKeys : List ExpiredItem → (clock : Nat → Int64) → List Bytes
  | [], _ => []
  | item :: rest, clock =>
      makeKey (clock 0) item.objectID item.keyOrID ::
        removedKeys rest fun turn => clock (turn + 1)

theorem Backed.process (backed : state.Backed spare leaves)
    (items : List ExpiredItem) (clock : Nat → Int64) :
    ∃ left, (state.process items clock).Backed spare left ∧
      ∀ key, left.keyMap key =
        if key ∈ removedKeys items clock then none else leaves.keyMap key := by
  induction items generalizing state leaves clock with
  | nil => exact ⟨leaves, backed, fun key => by simp [removedKeys]⟩
  | cons item rest inductionHypothesis =>
      obtain ⟨left, done, maps⟩ := inductionHypothesis
        ((backed.deleteKey item).unschedule (clock 0) item)
        fun turn => clock (turn + 1)
      refine ⟨left, done, fun key => ?_⟩
      rw [maps, Leaves.keyMap_without, removedKeys, Function.update_apply]
      by_cases first : key = makeKey (clock 0) item.objectID item.keyOrID
      · simp [first]
      · simp [first]

theorem Backed.findExpired (backed : state.Backed spare leaves)
    (now : Int64) (limit : Int) :
    (TTLIndex.findExpired now limit state.index state.kernel).1 =
        .ok (collectExpired (encodeTime now) limit
          (leaves.reach.map LeafItem.key) []) ∧
      Backed { state with kernel :=
        (TTLIndex.findExpired now limit state.index state.kernel).2 } spare
          leaves := by
  obtain ⟨shelf, records, listed, distinct, holds⟩ := backed
  obtain ⟨visited, next⟩ := scan_spec holds
  unfold TTLIndex.findExpired
  rcases outcome : Kernel.scan state.index state.kernel with ⟨result, after⟩
  rw [outcome] at visited next
  simp only at visited next
  subst visited
  refine ⟨?_, shelf, records, listed, distinct, next⟩
  simp only [List.map_map]
  rfl

def found (now : Int64) (leaves : Leaves) : List ExpiredItem :=
  collectExpired (encodeTime now) 100 (leaves.reach.map LeafItem.key) []

theorem Backed.runOnce (backed : state.Backed spare leaves)
    (clock : Nat → Int64) :
    (state.runOnce clock).1 = found (clock 0) leaves ∧
    ∃ left, (state.runOnce clock).2.Backed spare left ∧
      ∀ key, left.keyMap key =
        if key ∈ removedKeys (found (clock 0) leaves)
          (fun turn => clock (turn + 1)) then none
        else leaves.keyMap key := by
  obtain ⟨visited, next⟩ := backed.findExpired (clock 0) 100
  unfold Expiry.runOnce
  rcases outcome : TTLIndex.findExpired (clock 0) 100 state.index
    state.kernel with ⟨result, after⟩
  rw [outcome] at visited next
  simp only at visited next
  subst visited
  exact ⟨rfl, next.process _ _⟩

theorem mem_removedKeys {items : List ExpiredItem} {clock : Nat → Int64}
    {key : Bytes} : key ∈ removedKeys items clock ↔
      ∃ place item, items[place]? = some item ∧
        key = makeKey (clock place) item.objectID item.keyOrID := by
  induction items generalizing clock with
  | nil => simp [removedKeys]
  | cons first rest inductionHypothesis =>
      rw [removedKeys, List.mem_cons, inductionHypothesis]
      constructor
      · rintro (same | ⟨place, item, listed, same⟩)
        · exact ⟨0, first, rfl, same⟩
        · exact ⟨place + 1, item, listed, same⟩
      · rintro ⟨place, item, listed, same⟩
        cases place with
        | zero =>
            cases listed
            exact .inl same
        | succ place => exact .inr ⟨place, item, listed, same⟩

/-! ## Entries -/

/-- The index has entries only, and among them one for every key that is to be
deleted. -/
structure Entered (leaves : Leaves) (log : List Past) : Prop where
  keys : ∀ {key value}, leaves.keyMap key = some value →
    ∃ entry : Expiration, key = entry.indexKey
  waits : ∀ {id key expireAt}, pending id key log = some expireAt →
    (Int64.ofInt expireAt).toInt = expireAt ∧
      leaves.keyMap (makeKey (Int64.ofInt expireAt) id key) ≠ none

omit [Kernel σ] [LawfulKernel σ] in
theorem Entered.put_plain {log : List Past} (entered : Entered leaves log)
    (id : UInt64) (key : Bytes) :
    Entered leaves (.put id key none :: log) := by
  refine ⟨entered.keys, ?_⟩
  intro other name expireAt waits
  rw [pending] at waits
  split at waits
  · cases waits
  · exact entered.waits waits

omit [Kernel σ] [LawfulKernel σ] in
theorem Entered.put {log : List Past} (entered : Entered leaves log)
    {id : UInt64} {key : Bytes} {expireAt : Int} {changed : Leaves}
    (exact : (Int64.ofInt expireAt).toInt = expireAt)
    (puts : leaves.Put (makeKey (Int64.ofInt expireAt) id key) [1] changed) :
    Entered changed (.put id key (some expireAt) :: log) := by
  have maps := puts.keyMap_eq
  constructor
  · intro other value listed
    rw [maps, Function.update_apply] at listed
    split at listed
    · next same => exact ⟨⟨Int64.ofInt expireAt, id, key⟩, same⟩
    · exact entered.keys listed
  · intro other name time waits
    rw [pending] at waits
    rw [maps, Function.update_apply]
    split at waits
    · next same =>
        cases waits
        obtain ⟨rfl, rfl⟩ := same
        exact ⟨exact, by simp⟩
    · obtain ⟨represented, listed⟩ := entered.waits waits
      refine ⟨represented, ?_⟩
      split
      · exact nofun
      · exact listed

omit [Kernel σ] [LawfulKernel σ] in
theorem Entered.pass {log : List Past} (entered : Entered leaves log)
    {now : Int64} {items : List ExpiredItem} {clock : Nat → Int64}
    {left : Leaves} (maps : ∀ key, left.keyMap key =
      if key ∈ removedKeys items clock then none else leaves.keyMap key) :
    Entered left (.pass now items :: log) := by
  constructor
  · intro key value listed
    rw [maps] at listed
    split at listed
    · cases listed
    · exact entered.keys listed
  · intro id key expireAt waits
    rw [pending] at waits
    split at waits
    · cases waits
    · next spared =>
        obtain ⟨represented, listed⟩ := entered.waits waits
        refine ⟨represented, ?_⟩
        rw [maps, if_neg]
        · exact listed
        · intro removed
          obtain ⟨place, item, found, same⟩ := mem_removedKeys.mp removed
          have whole : (⟨Int64.ofInt expireAt, id, key⟩ : Expiration) =
              ⟨clock place, item.objectID, item.keyOrID⟩ :=
            Expiration.indexKey_injective same
          obtain ⟨_, sameID, sameKey⟩ := Expiration.mk.inj whole
          exact spared ⟨item, List.mem_of_getElem? found, sameID.symm,
            sameKey.symm⟩

theorem exists_entries {keys : List Bytes}
    (each : ∀ key ∈ keys, ∃ entry : Expiration, key = entry.indexKey) :
    ∃ entries : List Expiration, keys = entries.map Expiration.indexKey := by
  induction keys with
  | nil => exact ⟨[], rfl⟩
  | cons key rest inductionHypothesis =>
      obtain ⟨⟨entry, rfl⟩, later⟩ := List.forall_mem_cons.mp each
      obtain ⟨entries, rfl⟩ := inductionHypothesis later
      exact ⟨entry :: entries, rfl⟩

theorem reach_sublist (leaves : Leaves) :
    leaves.reach.Sublist leaves.flatten := by
  have parts := congrArg List.flatten (@List.takeWhile_append_dropWhile _
    (fun items : List LeafItem => !items.isEmpty) leaves)
  rw [List.flatten_append] at parts
  rw [← parts]
  exact List.sublist_append_left _ _

theorem keyMap_of_mem {item : LeafItem} (member : item ∈ leaves.flatten) :
    ∃ value, leaves.keyMap item.key = some value := by
  rw [Leaves.keyMap, BTree.bindings]
  cases found : leaves.flatten.find? fun other => other.key = item.key with
  | none =>
      have absent := List.find?_eq_none.mp found item member
      simp at absent
  | some other => exact ⟨other.value, rfl⟩

omit [Kernel σ] [LawfulKernel σ] in
theorem Entered.entries {log : List Past} (entered : Entered leaves log) :
    ∃ entries : List Expiration,
      leaves.reach.map LeafItem.key = entries.map Expiration.indexKey := by
  apply exists_entries
  intro key member
  obtain ⟨item, listed, rfl⟩ := List.mem_map.mp member
  obtain ⟨value, known⟩ := keyMap_of_mem ((reach_sublist leaves).mem listed)
  exact entered.keys known

end Expiry

end CocoDB
