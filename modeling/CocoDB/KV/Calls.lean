import CocoDB.BTree.CursorSpec
import CocoDB.KV.Bucket

/-!
# Buckets as maps

The calls of `kv/bucket.go` that look under their key first, and the iterators
of `kv/iterator.go`, all without options.  As long as the tree has room a bucket
answers as a map from keys to values does, and it answers so when it refuses a
key or a value.  The iterators run through that map in order if the leaves are
evenly filled.
-/

namespace CocoDB.KV

open Lib
open BTree (TreeOp Reached Represents expected_append expected LeafItem
  SortedItems bindings Cursor inRange)

namespace Bucket

variable {σ : Type} [Pager σ]

/-- Look under the key and go on from what is there. -/
def searchThen {α : Type} (key : Bytes)
    (continue' : Option Bytes → Bucket σ → Except Error α × Bucket σ)
    (bucket : Bucket σ) : Except Error α × Bucket σ :=
  match bucket.after (BTree.search key bucket.tree) with
  | (.error error, next) => (.error error, next)
  | (.ok found, next) => continue' found next

/-- `err = b.Put(..); return answer, err` -/
def putting {α : Type} (answer : α) (key value : Bytes) (bucket : Bucket σ) :
    Except Error α × Bucket σ :=
  let (outcome, next) := bucket.put key value
  (outcome.map fun _ => answer, next)

/-- `Exists` -/
def keyExists (key : Bytes) : Bucket σ → Except Error Bool × Bucket σ :=
  searchThen key fun found next => (.ok found.isSome, next)

def putIfAbsent (key value : Bytes) : Bucket σ → Except Error Bool × Bucket σ :=
  searchThen key fun found next =>
    if found.isSome then (.ok false, next) else next.putting true key value

/-- `CompareAndSwap`.  Without an expected value the key has to be missing, but
`bytes.Equal` takes no value for an empty one. -/
def compareAndSwap (key : Bytes) (expected : Option Bytes)
    (replacement : Bytes) : Bucket σ → Except Error Bool × Bucket σ :=
  searchThen key fun found next =>
    match found with
    | none =>
        if expected = none then next.putting true key replacement
        else (.ok false, next)
    | some current =>
        if current = expected.getD [] then next.putting true key replacement
        else (.ok false, next)

/-- The number that `Increment` finds: zero unless there are eight bytes. -/
def counter : Option Bytes → Int64
  | none => 0
  | some value =>
      if value.length = 8 then (UInt64.ofNat (ofBE value)).toInt64 else 0

def counterBytes (value : Int64) : Bytes := be 8 value.toUInt64.toNat

def increment (key : Bytes) (delta : Int64) :
    Bucket σ → Except Error Int64 × Bucket σ :=
  searchThen key fun found next =>
    let newVal := counter found + delta
    next.putting newVal key (counterBytes newVal)

def decrement (key : Bytes) (delta : Int64) :
    Bucket σ → Except Error Int64 × Bucket σ :=
  increment key (-delta)

end Bucket

open Bucket (counter counterBytes)

inductive Call where
  | get (key : Bytes)
  | keyExists (key : Bytes)
  | put (key value : Bytes)
  | delete (key : Bytes)
  | putIfAbsent (key value : Bytes)
  | compareAndSwap (key : Bytes) (expected : Option Bytes)
      (replacement : Bytes)
  | increment (key : Bytes) (delta : Int64)
  | decrement (key : Bytes) (delta : Int64)
  | batch (calls : Batch)

inductive Answer where
  | done
  | value (value : Bytes)
  | flag (flag : Bool)
  | number (number : Int64)
  deriving DecidableEq, Repr

def answering {α τ : Type} (answer : α → Answer)
    (call : Except Error α × τ) : Except BucketError Answer × τ :=
  match call with
  | (.error error, next) => (.error (.tree error), next)
  | (.ok result, next) => (.ok (answer result), next)

def Call.perform {σ : Type} [Pager σ] :
    Call → Bucket σ → Except BucketError Answer × Bucket σ
  | .get key, bucket =>
      ((bucket.get key).1.map .value, (bucket.get key).2)
  | .keyExists key, bucket => answering .flag (bucket.keyExists key)
  | .put key value, bucket => answering (fun _ => .done) (bucket.put key value)
  | .delete key, bucket => answering (fun _ => .done) (bucket.delete key)
  | .putIfAbsent key value, bucket =>
      answering .flag (bucket.putIfAbsent key value)
  | .compareAndSwap key expected replacement, bucket =>
      answering .flag (bucket.compareAndSwap key expected replacement)
  | .increment key delta, bucket =>
      answering .number (bucket.increment key delta)
  | .decrement key delta, bucket =>
      answering .number (bucket.decrement key delta)
  | .batch calls, bucket => answering (fun _ => .done) (bucket.batch calls)

/-! ## The same calls on a map -/

abbrev Entries := Bytes → Option Bytes

namespace Entries

def put {α : Type} (answer : α) (key value : Bytes) (map : Entries) :
    Except Error α × Entries :=
  if key.length > BTree.maxKeySize then (.error (.keySize key.length), map)
  else if value.length > BTree.maxValueSize then
    (.error (.valueSize value.length), map)
  else (.ok answer, Function.update map key (some value))

def batch : List BatchOp → Entries → Except Error Unit × Entries
  | [], map => (.ok (), map)
  | .delete key :: rest, map => batch rest (Function.update map key none)
  | .put key value :: rest, map =>
      match put () key value map with
      | (.error error, refused) => (.error error, refused)
      | (.ok _, next) => batch rest next

/-- Whether `CompareAndSwap` swaps. -/
def Swaps (expected : Option Bytes) : Option Bytes → Prop
  | none => expected = none
  | some current => current = expected.getD []

instance (expected found : Option Bytes) :
    Decidable (Swaps expected found) := by
  cases found <;> exact inferInstanceAs (Decidable (_ = _))

def increment (key : Bytes) (delta : Int64) (map : Entries) :
    Except Error Int64 × Entries :=
  put (counter (map key) + delta) key
    (counterBytes (counter (map key) + delta)) map

end Entries

def Call.onMap : Call → Entries → Except BucketError Answer × Entries
  | .get key, map => ((reading (map key)).map .value, map)
  | .keyExists key, map => (.ok (.flag (map key).isSome), map)
  | .put key value, map =>
      answering (fun _ => .done) (map.put () key value)
  | .delete key, map => (.ok .done, Function.update map key none)
  | .putIfAbsent key value, map =>
      if (map key).isSome then (.ok (.flag false), map)
      else answering .flag (map.put true key value)
  | .compareAndSwap key expected replacement, map =>
      if Entries.Swaps expected (map key) then
        answering .flag (map.put true key replacement)
      else (.ok (.flag false), map)
  | .increment key delta, map => answering .number (map.increment key delta)
  | .decrement key delta, map => answering .number (map.increment key (-delta))
  | .batch calls, map =>
      answering (fun _ => .done) (Entries.batch calls.ops map)

section Simulation

variable {σ : Type} [Pager σ] [LawfulPager σ]

/-- What a call may put finds pages, and what it has to split splits into halves
that fit. -/
def Call.Serviced : Call → Bucket σ → Prop
  | .put key value, bucket => KV.Serviced (.insert key value) bucket.tree
  | .putIfAbsent key value, bucket =>
      (BTree.search key bucket.tree).1 = .ok none →
        KV.Serviced (.insert key value) (BTree.search key bucket.tree).2
  | .compareAndSwap key expected replacement, bucket => ∀ found,
      (BTree.search key bucket.tree).1 = .ok found →
        Entries.Swaps expected found →
        KV.Serviced (.insert key replacement) (BTree.search key bucket.tree).2
  | .increment key delta, bucket => ∀ found,
      (BTree.search key bucket.tree).1 = .ok found →
        KV.Serviced (.insert key (counterBytes (counter found + delta)))
          (BTree.search key bucket.tree).2
  | .decrement key delta, bucket => ∀ found,
      (BTree.search key bucket.tree).1 = .ok found →
        KV.Serviced (.insert key (counterBytes (counter found + -delta)))
          (BTree.search key bucket.tree).2
  | .batch calls, bucket =>
      Along TreeOp.apply KV.Serviced calls.treeOps bucket.tree
  | _, _ => True

def Holds (map : Entries) (bucket : Bucket σ) : Prop :=
  ∃ past, Reached past bucket.tree ∧ expected past = map

def Simulates {ε α : Type} (call : Except ε α × Bucket σ)
    (spec : Except ε α × Entries) : Prop :=
  call.1 = spec.1 ∧ Holds spec.2 call.2

variable {α : Type} {map : Entries} {bucket : Bucket σ} {key value : Bytes}

theorem reached_searched {past : List TreeOp} {tree : BTree.Tree σ}
    (reached : Reached past tree) (key : Bytes) :
    Reached past (BTree.search key tree).2 := by
  obtain ⟨height, outline, represents, same⟩ := reached
  obtain ⟨_, root, evolution⟩ := represents.search_spec key
  have after := represents.frame evolution fun _ _ member => member
  rw [← root] at after
  exact ⟨height, outline, after, same⟩

theorem Holds.search (holds : Holds map bucket) (key : Bytes) :
    (BTree.search key bucket.tree).1 = .ok (map key) ∧
      Holds map { bucket with tree := (BTree.search key bucket.tree).2 } := by
  obtain ⟨past, reached, rfl⟩ := holds
  exact ⟨reached.search key, past, reached_searched reached key, rfl⟩

theorem Holds.searchThen (holds : Holds map bucket) (key : Bytes)
    (continue' : Option Bytes → Bucket σ → Except Error α × Bucket σ) :
    bucket.searchThen key continue' = continue' (map key)
      { bucket with tree := (BTree.search key bucket.tree).2 } := by
  have found := (holds.search key).1
  unfold Bucket.searchThen Bucket.after
  rcases shape : BTree.search key bucket.tree with ⟨outcome, tree⟩
  rw [shape] at found
  simp only at found
  subst found
  rfl

theorem Holds.putting (holds : Holds map bucket) (answer : α)
    (serviced : KV.Serviced (.insert key value) bucket.tree) :
    Simulates (bucket.putting answer key value)
      (map.put answer key value) := by
  obtain ⟨past, reached, rfl⟩ := holds
  unfold Bucket.putting Bucket.put Bucket.after Entries.put
  by_cases keyLong : key.length > BTree.maxKeySize
  · rw [if_pos keyLong, BTree.insert, if_pos keyLong]
    exact ⟨rfl, past, reached, rfl⟩
  by_cases valueLong : value.length > BTree.maxValueSize
  · rw [if_neg keyLong, if_pos valueLong, BTree.insert, if_neg keyLong,
      if_pos valueLong]
    exact ⟨rfl, past, reached, rfl⟩
  rw [if_neg keyLong, if_neg valueLong]
  have sized : LeafItem.Admissible ⟨key, value⟩ :=
    ⟨Nat.not_lt.mp keyLong, Nat.not_lt.mp valueLong⟩
  obtain ⟨done, next⟩ :=
    reached.apply_total ⟨serviced.1, serviced.2 sized⟩
  simp only [TreeOp.apply] at done next
  refine ⟨?_, past ++ [.insert key value], next, expected_append ..⟩
  rw [done]
  rfl

theorem Holds.delete (holds : Holds map bucket) (key : Bytes) :
    (bucket.delete key).1 = .ok () ∧
      Holds (Function.update map key none) (bucket.delete key).2 := by
  obtain ⟨past, reached, rfl⟩ := holds
  have meets : BTree.Supplied (.delete key) bucket.tree ∧
      BTree.Fitting (.delete key) bucket.tree := ⟨trivial, trivial⟩
  obtain ⟨done, next⟩ := reached.apply_total meets
  exact ⟨done, past ++ [.delete key], next, expected_append ..⟩

theorem Simulates.answering {call : Except Error α × Bucket σ}
    {spec : Except Error α × Entries} (simulates : Simulates call spec)
    (answer : α → Answer) :
    Simulates (answering answer call) (answering answer spec) := by
  obtain ⟨⟨outcome, next⟩, ⟨expected, after⟩⟩ := call, spec
  obtain ⟨same, holds⟩ := simulates
  simp only at same holds
  subst same
  cases outcome <;> exact ⟨rfl, holds⟩

theorem Holds.batch {ops : List BatchOp} (holds : Holds map bucket)
    (serviced : Along TreeOp.apply KV.Serviced (ops.map BatchOp.treeOp)
      bucket.tree) :
    Simulates (bucket.applyOps ops) (map.batch ops) := by
  induction ops generalizing map bucket with
  | nil => exact ⟨rfl, holds⟩
  | cons op rest inductionHypothesis =>
      obtain ⟨now, later⟩ := serviced
      cases op with
      | delete key =>
          obtain ⟨done, next⟩ := holds.delete key
          have following := inductionHypothesis next (later done)
          unfold Bucket.applyOps Entries.batch
          rcases shape : bucket.delete key with ⟨outcome, after⟩
          rw [shape] at done following
          simp only at done following
          subst done
          exact following
      | put key value =>
          obtain ⟨same, next⟩ := holds.putting () now
          unfold Bucket.putting at same next
          have going := fun done => inductionHypothesis next (later done)
          unfold Bucket.applyOps Entries.batch
          rcases shape : bucket.put key value with ⟨outcome, after⟩
          rw [shape] at same next going
          rcases spec : map.put () key value with ⟨verdict, changed⟩
          rw [spec] at same next going
          simp only at same next going
          cases outcome with
          | error error =>
              cases same
              exact ⟨rfl, next⟩
          | ok done =>
              cases same
              exact going (congrArg Prod.fst shape)

theorem Holds.compareAndSwap (holds : Holds map bucket)
    {expected : Option Bytes} {replacement : Bytes}
    (serviced : Entries.Swaps expected (map key) →
      KV.Serviced (.insert key replacement)
        (BTree.search key bucket.tree).2) :
    Simulates (answering .flag
        (bucket.compareAndSwap key expected replacement))
      (if Entries.Swaps expected (map key) then
        answering .flag (map.put true key replacement)
      else (.ok (.flag false), map)) := by
  have next := (holds.search key).2
  unfold Bucket.compareAndSwap
  rw [holds.searchThen]
  have swap : Entries.Swaps expected (map key) → _ := fun swaps =>
    (next.putting true (serviced swaps)).answering .flag
  generalize map key = found at swap ⊢
  cases found with
  | none =>
      by_cases missing : expected = none
      · rw [if_pos missing, if_pos (show Entries.Swaps expected none from
          missing)]
        exact swap missing
      · rw [if_neg missing, if_neg (show ¬ Entries.Swaps expected none from
          missing)]
        exact ⟨rfl, next⟩
  | some current =>
      simp only
      by_cases same : current = expected.getD []
      · rw [if_pos same, if_pos (show Entries.Swaps expected (some current)
          from same)]
        exact swap same
      · rw [if_neg same, if_neg (show ¬ Entries.Swaps expected (some current)
          from same)]
        exact ⟨rfl, next⟩

theorem Call.simulates (call : Call) (holds : Holds map bucket)
    (serviced : call.Serviced bucket) :
    Simulates (call.perform bucket) (call.onMap map) := by
  have found := fun key => (holds.search key).1
  have next := fun key => (holds.search key).2
  cases call with
  | get key =>
      have answer := found key
      have after := next key
      rw [Call.perform, Call.onMap]
      unfold Bucket.get Bucket.after
      rcases shape : BTree.search key bucket.tree with ⟨outcome, tree⟩
      rw [shape] at answer after
      simp only at answer after
      subst answer
      cases map key <;> exact ⟨rfl, after⟩
  | keyExists key =>
      rw [Call.perform, Bucket.keyExists, holds.searchThen]
      exact ⟨rfl, next key⟩
  | put key value =>
      have one := (holds.putting () serviced).answering fun _ => .done
      unfold Bucket.putting at one
      rw [Call.perform]
      rcases shape : bucket.put key value with ⟨outcome, after⟩
      rw [shape] at one
      cases outcome <;> exact one
  | delete key =>
      obtain ⟨done, after⟩ := holds.delete key
      rw [Call.perform]
      rcases shape : bucket.delete key with ⟨outcome, tree⟩
      rw [shape] at done after
      simp only at done after
      subst done
      exact ⟨rfl, after⟩
  | putIfAbsent key value =>
      rw [Call.perform, Call.onMap, Bucket.putIfAbsent, holds.searchThen]
      by_cases there : (map key).isSome = true
      · rw [if_pos there, if_pos there]
        exact ⟨rfl, next key⟩
      · rw [if_neg there, if_neg there]
        have missing : map key = none := by simpa using there
        exact ((next key).putting true
          (serviced ((found key).trans (congrArg _ missing)))).answering .flag
  | compareAndSwap key expected replacement =>
      exact holds.compareAndSwap (serviced _ (found key))
  | increment key delta =>
      rw [Call.perform, Bucket.increment, holds.searchThen]
      exact ((next key).putting _ (serviced _ (found key))).answering .number
  | decrement key delta =>
      rw [Call.perform, Bucket.decrement, Bucket.increment, holds.searchThen]
      exact ((next key).putting _ (serviced _ (found key))).answering .number
  | batch calls => exact (Holds.batch holds serviced).answering _

/-! ## Runs -/

theorem holds_throughout {calls : List Call} (holds : Holds map bucket)
    (serviced : Throughout Call.perform Call.Serviced calls bucket) :
    (serve Call.perform calls bucket).1 = (serve Call.onMap calls map).1 ∧
      Holds (serve Call.onMap calls map).2
        (serve Call.perform calls bucket).2 :=
  serve_simulates (fun {call _ _} holds now => call.simulates holds now) holds
    serviced

theorem Holds.get (holds : Holds map bucket) (key : Bytes) :
    (bucket.get key).1 = reading (map key) := by
  obtain ⟨past, reached, rfl⟩ := holds
  exact get_reached reached key

/-- A bucket that was reached by puts and deletions gives to any sequence of
calls the answers that a map gives, and has the entries of that map in the
end. -/
theorem calls_answered {past : List TreeOp} (reached : Reached past bucket.tree)
    (calls : List Call)
    (serviced : Throughout Call.perform Call.Serviced calls bucket) :
    (serve Call.perform calls bucket).1 =
        (serve Call.onMap calls (expected past)).1 ∧
      ∀ key, ((serve Call.perform calls bucket).2.get key).1 =
        reading ((serve Call.onMap calls (expected past)).2 key) := by
  obtain ⟨answers, final⟩ :=
    holds_throughout ⟨past, reached, rfl⟩ serviced
  exact ⟨answers, final.get⟩

end Simulation

theorem counterBytes_fits (value : Int64) :
    (counterBytes value).length ≤ BTree.maxValueSize := by
  rw [counterBytes, be_length]
  decide

theorem newBucket_counts (delta : Int64) :
    (Call.increment [1] delta).Serviced newBucket := by
  intro found same
  have none : found = none := (Except.ok.inj same).symm
  subst none
  have short : ([1] : Bytes).length ≤ BTree.maxKeySize := by decide
  have fits := @newBucket_fits [1] (counterBytes (counter none + delta))
    ⟨short, counterBytes_fits _⟩
  exact ⟨fits.1, fun _ => fits.2⟩

theorem calls_answered_increment :
    (serve Call.perform [.increment [1] 5, .get [1]] newBucket).1 =
        (serve Call.onMap [.increment [1] 5, .get [1]] (expected [])).1 ∧
      ∀ key, ((serve Call.perform [.increment [1] 5, .get [1]]
          newBucket).2.get key).1 =
        reading ((serve Call.onMap [.increment [1] 5, .get [1]]
          (expected [])).2 key) :=
  calls_answered newBucket_reached _ ⟨newBucket_counts 5, trivial, trivial⟩

/-! ## Iterators -/

structure Iterator (σ : Type) where
  cursor : Cursor σ
  keyPrefix : Option Bytes
  start : Option Bytes
  stop : Option Bytes
  reverse : Bool
  closed : Bool

namespace Iterator

variable {σ : Type}

/-- The checks of `Valid()` on a key. -/
def admits (iterator : Iterator σ) (key : Bytes) : Bool :=
  (iterator.keyPrefix.all fun bound => bound.isPrefixOf key) &&
    inRange iterator.start iterator.stop key

def isValid (iterator : Iterator σ) : Bool :=
  ! iterator.closed && iterator.cursor.isValid &&
    iterator.admits (iterator.cursor.key.getD [])

def close (iterator : Iterator σ) : Iterator σ :=
  { iterator with closed := true, cursor := iterator.cursor.release }

variable [Pager σ]

/-- `init`: the first move of the cursor. -/
def init (iterator : Iterator σ) : Bool × Cursor σ :=
  if iterator.reverse then
    match iterator.stop with
    | some key => (iterator.cursor.seek key).2.prev
    | none => iterator.cursor.last
  else
    match iterator.start, iterator.keyPrefix with
    | some key, _ => iterator.cursor.seek key
    | none, some key => iterator.cursor.seek key
    | none, none => iterator.cursor.first

/-- `NewIterator` -/
def new (cursor : Cursor σ) (keyPrefix start stop : Option Bytes)
    (reverse : Bool) : Iterator σ :=
  let iterator : Iterator σ := ⟨cursor, keyPrefix, start, stop, reverse, false⟩
  { iterator with cursor := iterator.init.2 }

def move (iterator : Iterator σ) : Cursor σ → Bool × Cursor σ :=
  if iterator.reverse then Cursor.prev else Cursor.next

def next (iterator : Iterator σ) : Bool × Iterator σ :=
  if iterator.closed then (false, iterator)
  else
    let moved :=
      { iterator with cursor := (iterator.move iterator.cursor).2 }
    (moved.isValid, moved)

/-- The loop of the callers: while `Valid()`, take `Key()` and `Value()` and
call `Next()`.  A loop of more than `fuel` rounds has no result here. -/
def drain : Nat → Iterator σ → Option (List LeafItem × Iterator σ)
  | 0, _ => none
  | fuel + 1, iterator =>
      if iterator.isValid then
        (drain fuel iterator.next.2).map fun (items, final) =>
          (⟨iterator.cursor.key.getD [], iterator.cursor.value.getD []⟩ ::
            items, final)
      else some ([], iterator)

end Iterator

namespace Bucket

variable {σ : Type} [Pager σ]

def range (start stop : Option Bytes) (bucket : Bucket σ) : Iterator σ :=
  .new (.new bucket.tree) none start stop false

/-- `Bucket.Prefix` -/
def prefixed (keyPrefix : Option Bytes) (bucket : Bucket σ) : Iterator σ :=
  .new (.new bucket.tree) keyPrefix none none false

def iterator (bucket : Bucket σ) : Iterator σ :=
  .new (.new bucket.tree) none none none false

def reverseIterator (bucket : Bucket σ) : Iterator σ :=
  .new (.new bucket.tree) none none none true

end Bucket

section Iterators

open BTree (Yields Advances Even EvenlyFilled reach mirror prefix_between
  mirror_items even_of_complete reach_length_le)

variable {σ : Type} {iterator : Iterator σ}

/-- The caller's loop takes what lies ahead, up to the first key that is not
admitted. -/
theorem Iterator.drain_spec [Pager σ]
    {Facing : Cursor σ → List LeafItem → Prop}
    (advances : ∀ {cursor ahead}, Facing cursor ahead →
      ∃ item rest, ahead = item :: rest ∧
        Advances Facing iterator.move cursor item rest)
    (opened : iterator.closed = false) {found : Bool} {ahead : List LeafItem}
    (yields : Yields Facing (found, iterator.cursor) ahead) {fuel : Nat}
    (enough : ahead.length < fuel) :
    ∃ final, iterator.drain fuel =
        some (ahead.takeWhile fun item => iterator.admits item.key, final) ∧
      final.cursor.err = none := by
  induction fuel generalizing iterator found ahead with
  | zero => exact absurd enough (Nat.not_lt_zero _)
  | succ fuel inductionHypothesis =>
      obtain ⟨fine, ⟨rfl, _, invalid⟩ | ⟨_, _, facing⟩⟩ := yields
      · have ended : iterator.isValid = false := by
          simp only at invalid
          simp [isValid, Cursor.isValid, invalid]
        unfold drain
        rw [if_neg (by simp [ended])]
        exact ⟨iterator, rfl, fine⟩
      obtain ⟨item, rest, rfl, advance⟩ := advances facing
      have standing : iterator.isValid = iterator.admits item.key := by
        simp [isValid, opened, advance.valid, Cursor.key, advance.current_eq]
      unfold drain
      rw [standing]
      by_cases admitted : iterator.admits item.key = true
      · simp only [List.takeWhile_cons, admitted, if_true]
        have moved : iterator.next.2 =
            { iterator with cursor := (iterator.move iterator.cursor).2 } := by
          simp [next, opened]
        obtain ⟨final, drained, calm⟩ := @inductionHypothesis
          { iterator with cursor := (iterator.move iterator.cursor).2 }
          advances opened _ _ advance.yields (Nat.lt_of_succ_lt_succ enough)
        refine ⟨final, ?_, calm⟩
        rw [moved, drained]
        simp only [Option.map_some, Cursor.key, Cursor.value,
          advance.current_eq, Option.getD_some]
        rfl
      · simp only [List.takeWhile_cons, admitted]
        exact ⟨iterator, rfl, fine⟩

def Iterator.floor (iterator : Iterator σ) : Option Bytes :=
  iterator.start.or iterator.keyPrefix

theorem Iterator.takeWhile_eq {items : List LeafItem}
    (sorted : SortedItems items)
    (single : iterator.start = none ∨ iterator.keyPrefix = none) :
    ((items.filter fun item =>
        iterator.floor.all fun bound => bound ≤ item.key).takeWhile
          fun item => iterator.admits item.key) =
      items.filter fun item => iterator.admits item.key := by
  have above : ∀ key, iterator.admits key = true →
      (iterator.floor.all fun bound => decide (bound ≤ key)) = true := by
    intro key admitted
    simp only [admits, inRange, Bool.and_eq_true] at admitted
    unfold floor
    rcases single with none | none
    · rw [none, Option.none_or]
      cases shape : iterator.keyPrefix with
      | none => rfl
      | some bound =>
          have isPrefix : bound <+: key := by
            simpa [shape, List.isPrefixOf_iff_prefix] using admitted.1
          simpa [← not_lt] using isPrefix.le
    · rw [none, Option.or_none]
      exact admitted.2.1
  rw [SortedItems.takeWhile_eq (List.Pairwise.filter _ sorted),
    List.filter_filter]
  · refine List.filter_congr fun item _ => ?_
    rw [Bool.and_eq_left_iff_imp]
    exact above item.key
  · intro low high lowMember _ less kept
    have from' := (List.mem_filter.mp lowMember).2
    simp only [admits, inRange, Bool.and_eq_true] at kept ⊢
    unfold floor at from'
    refine ⟨?_, ?_, ?_⟩
    · cases shape : iterator.keyPrefix with
      | none => rfl
      | some bound =>
          have none : iterator.start = none := single.resolve_right (by
            simp [shape])
          rw [none, Option.none_or, shape] at from'
          rw [shape] at kept
          simp only [Option.all_some, List.isPrefixOf_iff_prefix] at kept ⊢
          exact prefix_between (by simpa using from') less.le kept.1
    · cases shape : iterator.start with
      | none => rfl
      | some bound => simpa [shape] using from'
    · cases shape : iterator.stop with
      | none => rfl
      | some bound =>
          simp only [shape, Option.all_some, decide_eq_true_eq] at kept ⊢
          exact less.trans kept.2.2

variable [Pager σ] [LawfulPager σ] {tree : BTree.Tree σ} {height : Nat}
  {outline : BTree.Outline} {fuel : Nat}

theorem drain_forward (represents : Represents tree height outline)
    (even : Even outline.leaves) {keyPrefix start stop : Option Bytes}
    (single : start = none ∨ keyPrefix = none)
    (enough : outline.contents.length < fuel) :
    ∃ final, (Iterator.new (.new tree) keyPrefix start stop false).drain fuel =
        some (outline.contents.filter fun item =>
          (keyPrefix.all fun bound => bound.isPrefixOf item.key) &&
            inRange start stop item.key, final) ∧
      final.cursor.err = none := by
  have fresh : Represents (Cursor.new tree).tree height outline := represents
  have placed : Yields (BTree.Forward outline)
      (Iterator.init ⟨.new tree, keyPrefix, start, stop, false, false⟩)
      (outline.contents.filter fun item =>
        (start.or keyPrefix).all fun bound => bound ≤ item.key) := by
    cases start with
    | some key => exact fresh.seek_spec even key
    | none =>
        cases keyPrefix with
        | some key => exact fresh.seek_spec even key
        | none =>
            have first := fresh.first_spec
            have all : outline.contents.filter (fun item =>
                (none : Option Bytes).all fun bound => bound ≤ item.key) =
                reach outline.leaves := by
              rw [even.reach_eq]
              simp [BTree.Outline.contents]
            rw [← all] at first
            exact first
  obtain ⟨final, drained, calm⟩ := @Iterator.drain_spec _
    (Iterator.new (.new tree) keyPrefix start stop false) _ _
    (fun facing => facing.advances) rfl _ _ placed fuel
    ((List.length_filter_le _ _).trans_lt enough)
  have selected := @Iterator.takeWhile_eq _
    (Iterator.new (.new tree) keyPrefix start stop false) _
    represents.sorted single
  exact ⟨final, drained.trans (congrArg (fun items => some (items, final))
    selected), calm⟩

omit [LawfulPager σ] in
/-- An iterator without bounds hands out what its cursor reaches. -/
theorem drain_whole {reverse : Bool}
    {Facing : Cursor σ → List LeafItem → Prop}
    (advances : ∀ {cursor ahead}, Facing cursor ahead →
      ∃ item rest, ahead = item :: rest ∧ Advances Facing
        (Iterator.new (.new tree) none none none reverse).move cursor item rest)
    {ahead : List LeafItem}
    (placed : Yields Facing
      (Iterator.init ⟨.new tree, none, none, none, reverse, false⟩) ahead)
    (enough : ahead.length < fuel) :
    ∃ final, (Iterator.new (.new tree) none none none reverse).drain fuel =
      some (ahead, final) := by
  obtain ⟨final, drained, _⟩ := @Iterator.drain_spec _
    (Iterator.new (.new tree) none none none reverse) _ _ advances rfl _ _
    placed fuel enough
  have all : (ahead.takeWhile fun item =>
      (Iterator.new (.new tree) none none none reverse).admits item.key) =
        ahead :=
    List.takeWhile_eq_self_iff.mpr fun _ _ => rfl
  rw [all] at drained
  exact ⟨final, drained⟩

theorem drain_backward (represents : Represents tree height outline)
    (enough : outline.contents.length < fuel) :
    ∃ final, (Iterator.new (.new tree) none none none true).drain fuel =
      some (reach (mirror outline.leaves), final) := by
  have fresh : Represents (Cursor.new tree).tree height outline := represents
  have bound := reach_length_le (mirror outline.leaves)
  rw [mirror_items, List.length_reverse] at bound
  exact drain_whole (fun facing => facing.advances) fresh.last_spec
    (bound.trans_lt enough)

/-- The iterators of a bucket with exactly these items hand them out in order,
and none twice. -/
structure IteratorsComplete (bucket : Bucket σ) (items : List LeafItem) :
    Prop where
  forward : ∀ fuel, items.length < fuel →
    ∃ final, bucket.iterator.drain fuel = some (items, final)
  backward : ∀ fuel, items.length < fuel →
    ∃ final, bucket.reverseIterator.drain fuel = some (items.reverse, final)
  range : ∀ start stop fuel, items.length < fuel →
    ∃ final, (bucket.range start stop).drain fuel =
      some (items.filter fun item => inRange start stop item.key, final)
  prefixed : ∀ keyPrefix : Bytes, ∀ fuel, items.length < fuel →
    ∃ final, (bucket.prefixed (some keyPrefix)).drain fuel =
      some (items.filter fun item => keyPrefix.isPrefixOf item.key, final)

/-- Whatever was put and deleted before, the iterators of a bucket hand out its
entries in order exactly when its leaves are evenly filled. -/
theorem iterators_complete_iff {past : List TreeOp} {bucket : Bucket σ}
    (reached : Reached past bucket.tree) :
    ∃ items, SortedItems items ∧ bindings items = expected past ∧
      (IteratorsComplete bucket items ↔ EvenlyFilled bucket.tree) := by
  obtain ⟨height, outline, represents, same⟩ := reached
  have fresh : Represents (Cursor.new bucket.tree).tree height outline :=
    represents
  refine ⟨outline.contents, represents.sorted, same, ?_⟩
  rw [represents.evenlyFilled_iff]
  constructor
  · intro complete
    obtain ⟨_, whole⟩ := complete.forward _ (Nat.lt_succ_self _)
    obtain ⟨_, turned⟩ := complete.backward _ (Nat.lt_succ_self _)
    obtain ⟨_, reachable⟩ := @drain_whole _ _ _ _ false _
      (fun facing => facing.advances) _ fresh.first_spec
      (Nat.lt_succ_of_le (reach_length_le outline.leaves))
    obtain ⟨_, reachableBack⟩ :=
      drain_backward represents (Nat.lt_succ_self _)
    exact even_of_complete
      (Prod.mk.inj (Option.some.inj (reachable.symm.trans whole))).1
      (Prod.mk.inj (Option.some.inj (reachableBack.symm.trans turned))).1
  · intro even
    have forward := fun keyPrefix start stop fuel =>
      @drain_forward _ _ _ _ _ _ fuel represents even keyPrefix start stop
    refine ⟨fun fuel enough => ?_, fun fuel enough => ?_,
      fun start stop fuel enough => ?_, fun keyPrefix fuel enough => ?_⟩
    · obtain ⟨final, drained, _⟩ := forward none none none fuel (.inl rfl)
        enough
      exact ⟨final, by simpa [Bucket.iterator, inRange] using drained⟩
    · obtain ⟨final, drained⟩ := drain_backward represents enough
      rw [even.mirror.reach_eq, mirror_items] at drained
      exact ⟨final, drained⟩
    · obtain ⟨final, drained, _⟩ := forward none start stop fuel (.inr rfl)
        enough
      exact ⟨final, by simpa [Bucket.range] using drained⟩
    · obtain ⟨final, drained, _⟩ := forward (some keyPrefix) none none fuel
        (.inl rfl) enough
      exact ⟨final, by simpa [Bucket.prefixed, inRange] using drained⟩

theorem iterators_complete_put :
    ∃ items, SortedItems items ∧
      bindings items = expected [.insert [1] [10]] ∧
      (IteratorsComplete (newBucket.put [1] [10]).2 items ↔
        EvenlyFilled (newBucket.put [1] [10]).2.tree) :=
  iterators_complete_iff (newBucket_reached.apply_total
    (newBucket_fits (by decide))).2

end Iterators

end CocoDB.KV
