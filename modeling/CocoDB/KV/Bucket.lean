import CocoDB.BTree.Run

/-!
# Buckets

`kv/bucket.go` and `kv/batch.go`: a bucket is a handle on a tree, and a batch is
a list of calls that `Batch` performs one after another.  It puts without
options, so that no entry of the TTL index is written.
-/

namespace CocoDB.KV

open Lib
open BTree (TreeOp Reached Supplied SplitsFit expected expected_append
  LeafItem)

/-! ## The calls -/

inductive BucketError where
  /-- `coco/kv: key not found` -/
  | notFound
  | tree (error : Error)
  deriving DecidableEq, Repr

inductive BatchOp where
  | put (key value : Bytes)
  | delete (key : Bytes)
  deriving DecidableEq, Repr

structure Batch where
  ops : List BatchOp

namespace Batch

def newBatch : Batch := ⟨[]⟩

def put (key value : Bytes) (batch : Batch) : Batch :=
  ⟨batch.ops ++ [.put key value]⟩

def delete (key : Bytes) (batch : Batch) : Batch :=
  ⟨batch.ops ++ [.delete key]⟩

end Batch

structure Bucket (σ : Type) where
  name : Bytes
  id : UInt64
  tree : BTree.Tree σ

namespace Bucket

variable {σ : Type} [Pager σ]

def after {α : Type} (bucket : Bucket σ) (call : α × BTree.Tree σ) :
    α × Bucket σ :=
  (call.1, { bucket with tree := call.2 })

/-- `Bucket.Put` without options -/
def put (key value : Bytes) (bucket : Bucket σ) :
    Except Error Unit × Bucket σ :=
  bucket.after (BTree.insert key value bucket.tree)

def delete (key : Bytes) (bucket : Bucket σ) : Except Error Unit × Bucket σ :=
  bucket.after (BTree.delete key bucket.tree)

def get (key : Bytes) (bucket : Bucket σ) :
    Except BucketError Bytes × Bucket σ :=
  let (found, tree) := bucket.after (BTree.search key bucket.tree)
  match found with
  | .error error => (.error (.tree error), tree)
  | .ok none => (.error .notFound, tree)
  | .ok (some value) => (.ok value, tree)

/-- The loop of `Bucket.Batch`. -/
def applyOps : List BatchOp → Bucket σ → Except Error Unit × Bucket σ
  | [], bucket => (.ok (), bucket)
  | .put key value :: rest, bucket =>
      match bucket.put key value with
      | (.error error, failed) => (.error error, failed)
      | (.ok _, done) => applyOps rest done
  | .delete key :: rest, bucket =>
      match bucket.delete key with
      | (.error error, failed) => (.error error, failed)
      | (.ok _, done) => applyOps rest done

def batch (batch : Batch) (bucket : Bucket σ) : Except Error Unit × Bucket σ :=
  bucket.applyOps batch.ops

end Bucket

/-! ## Batches as runs of the tree -/

def BatchOp.treeOp : BatchOp → TreeOp
  | .put key value => .insert key value
  | .delete key => .delete key

def Batch.treeOps (batch : Batch) : List TreeOp :=
  batch.ops.map BatchOp.treeOp

/-- What `Bucket.Get` makes of a binding. -/
def reading : Option Bytes → Except BucketError Bytes
  | none => .error .notFound
  | some value => .ok value

theorem reading_injective {first second : Option Bytes}
    (same : reading first = reading second) : first = second := by
  cases first <;> cases second <;> simp_all [reading]

section Runs

variable {σ : Type} [Pager σ]

theorem applyOps_eq_run (ops : List BatchOp) (bucket : Bucket σ) :
    bucket.applyOps ops =
      bucket.after (run TreeOp.apply (ops.map BatchOp.treeOp) bucket.tree) := by
  induction ops generalizing bucket with
  | nil => rfl
  | cons op rest inductionHypothesis =>
      cases op with
      | put key value =>
          rcases shape : BTree.insert key value bucket.tree with
            ⟨outcome, tree⟩
          cases outcome with
          | error error =>
              simp only [Bucket.applyOps, Bucket.put, Bucket.after, shape,
                List.map_cons, BatchOp.treeOp, run, TreeOp.apply]
          | ok done =>
              simp only [Bucket.applyOps, Bucket.put, shape, List.map_cons,
                BatchOp.treeOp, run, TreeOp.apply]
              exact inductionHypothesis _
      | delete key =>
          rcases shape : BTree.delete key bucket.tree with ⟨outcome, tree⟩
          cases outcome with
          | error error =>
              simp only [Bucket.applyOps, Bucket.delete, Bucket.after, shape,
                List.map_cons, BatchOp.treeOp, run, TreeOp.apply]
          | ok done =>
              simp only [Bucket.applyOps, Bucket.delete, shape, List.map_cons,
                BatchOp.treeOp, run, TreeOp.apply]
              exact inductionHypothesis _

theorem batch_eq_run (batch : Batch) (bucket : Bucket σ) :
    bucket.batch batch =
      bucket.after (run TreeOp.apply batch.treeOps bucket.tree) :=
  applyOps_eq_run batch.ops bucket

theorem get_reached [LawfulPager σ] {past : List TreeOp} {bucket : Bucket σ}
    (reached : Reached past bucket.tree) (key : Bytes) :
    (bucket.get key).1 = reading (expected past key) := by
  have found := reached.search key
  rcases shape : BTree.search key bucket.tree with ⟨outcome, tree⟩
  rw [shape] at found
  simp only at found
  subst found
  simp only [Bucket.get, Bucket.after, shape]
  cases expected past key <;> rfl

end Runs

/-! ## All or nothing -/

/-- The sizes that `Put` accepts. -/
def BatchOp.sized : BatchOp → Bool
  | .put key value =>
      key.length ≤ BTree.maxKeySize && value.length ≤ BTree.maxValueSize
  | .delete _ => true

def Batch.front (batch : Batch) : List TreeOp :=
  (batch.ops.takeWhile BatchOp.sized).map BatchOp.treeOp

def applied (ops : List TreeOp) (map : Bytes → Option Bytes) :
    Bytes → Option Bytes :=
  ops.foldl (fun map op => op.effect map) map

theorem applied_expected (past ops : List TreeOp) :
    applied ops (expected past) = expected (past ++ ops) := by
  rw [applied, expected, expected, List.foldl_append]

section Atomic

variable {σ : Type} [Pager σ]

/-- A batch that succeeds leaves what its calls leave in order, and one that
fails leaves every key as it was. -/
def AllOrNothing (past : List TreeOp) (batch : Batch) (bucket : Bucket σ) :
    Prop :=
  ((bucket.batch batch).1 = .ok () → ∀ key,
    ((bucket.batch batch).2.get key).1 =
      reading (applied batch.treeOps (expected past) key)) ∧
  ((bucket.batch batch).1 ≠ .ok () → ∀ key,
    ((bucket.batch batch).2.get key).1 = (bucket.get key).1)

variable [LawfulPager σ]

/-- The tree has pages for the call, and what a call of accepted size has to
split splits into halves that fit. -/
def Serviced (op : TreeOp) (tree : BTree.Tree σ) : Prop :=
  Supplied op tree ∧ (op.Admissible → BTree.Fitting op tree)

variable {past : List TreeOp} {tree : BTree.Tree σ} {bucket : Bucket σ}

omit [LawfulPager σ] in
theorem put_oversized {op : BatchOp} (oversized : op.sized = false)
    (tree : BTree.Tree σ) :
    ∃ error, op.treeOp.apply tree = (.error error, tree) := by
  cases op with
  | delete key => cases oversized
  | put key value =>
      simp only [BatchOp.sized, Bool.and_eq_false_iff,
        decide_eq_false_iff_not, not_le] at oversized
      simp only [BatchOp.treeOp, TreeOp.apply, BTree.insert]
      by_cases long : key.length > BTree.maxKeySize
      · rw [if_pos long]
        exact ⟨_, rfl⟩
      · rw [if_neg long, if_pos (oversized.resolve_left long)]
        exact ⟨_, rfl⟩

theorem sized_admissible {op : BatchOp} (sized : op.sized = true) :
    op.treeOp.Admissible := by
  cases op with
  | delete key => trivial
  | put key value =>
      simp only [BatchOp.sized, Bool.and_eq_true, decide_eq_true_eq] at sized
      exact sized

theorem run_front {ops : List BatchOp} (reached : Reached past tree)
    (serviced : Along TreeOp.apply Serviced (ops.map BatchOp.treeOp) tree) :
    Reached (past ++ (ops.takeWhile BatchOp.sized).map BatchOp.treeOp)
        (run TreeOp.apply (ops.map BatchOp.treeOp) tree).2 ∧
      ((run TreeOp.apply (ops.map BatchOp.treeOp) tree).1 = .ok () ↔
        ops.all BatchOp.sized = true) := by
  induction ops generalizing past tree with
  | nil =>
      rw [List.takeWhile_nil, List.map_nil, List.append_nil]
      exact ⟨reached, fun _ => rfl, fun _ => rfl⟩
  | cons op rest inductionHypothesis =>
      rw [List.map_cons] at serviced ⊢
      cases size : op.sized with
      | false =>
          obtain ⟨error, failed⟩ := put_oversized size tree
          have stopped : run TreeOp.apply
              (op.treeOp :: rest.map BatchOp.treeOp) tree =
                (.error error, tree) := by
            simp only [run, failed]
          rw [List.takeWhile_cons_of_neg (by simp [size]), stopped,
            List.map_nil, List.append_nil, List.all_cons, size]
          exact ⟨reached, nofun, nofun⟩
      | true =>
          have meets : Supplied op.treeOp tree ∧ BTree.Fitting op.treeOp tree :=
            ⟨serviced.1.1, serviced.1.2 (sized_admissible size)⟩
          obtain ⟨done, next⟩ := reached.apply_total meets
          obtain ⟨after, outcome⟩ :=
            inductionHypothesis next (serviced.2 done)
          rw [run_cons done, List.takeWhile_cons_of_pos size, List.map_cons,
            List.all_cons, size, Bool.true_and]
          rw [List.append_assoc] at after
          exact ⟨after, outcome⟩

/-- A successful batch leaves what its calls leave in order.  A batch whose
calls of accepted size all find room is all or nothing exactly when no call has
a refused size, or the calls before the first such call leave every key as it
was. -/
theorem batch_atomic_iff (batch : Batch) (reached : Reached past bucket.tree)
    (supplied : Along TreeOp.apply Supplied batch.treeOps bucket.tree) :
    ((bucket.batch batch).1 = .ok () → ∀ key,
      ((bucket.batch batch).2.get key).1 =
        reading (applied batch.treeOps (expected past) key)) ∧
    (Along TreeOp.apply Serviced batch.treeOps bucket.tree →
      (AllOrNothing past batch bucket ↔
        batch.ops.all BatchOp.sized = true ∨
          applied batch.front (expected past) = expected past)) := by
  have succeeds : (bucket.batch batch).1 = .ok () → ∀ key,
      ((bucket.batch batch).2.get key).1 =
        reading (applied batch.treeOps (expected past) key) := by
    intro done key
    rw [batch_eq_run] at done ⊢
    rw [applied_expected]
    exact get_reached (reached.run supplied done) key
  refine ⟨succeeds, fun serviced => ?_⟩
  obtain ⟨after, outcome⟩ := run_front reached serviced
  have before : ∀ key, (bucket.get key).1 = reading (expected past key) :=
    get_reached reached
  have left : ∀ key, ((bucket.batch batch).2.get key).1 =
      reading (applied batch.front (expected past) key) := by
    intro key
    rw [batch_eq_run, applied_expected]
    exact get_reached after key
  have verdict : (bucket.batch batch).1 = .ok () ↔
      batch.ops.all BatchOp.sized = true := by
    rw [batch_eq_run]
    exact outcome
  constructor
  · rintro ⟨_, untouched⟩
    by_cases sized : batch.ops.all BatchOp.sized = true
    · exact .inl sized
    · right
      funext key
      have same := untouched (fun done => sized (verdict.mp done)) key
      rw [left, before] at same
      exact reading_injective same
  · intro condition
    refine ⟨succeeds, fun failed key => ?_⟩
    have neutral := condition.resolve_left fun sized =>
      failed (verdict.mpr sized)
    rw [left, before, neutral]

end Atomic

/-! ### Batches on a new bucket -/

def newBucket : Bucket DefaultPager := ⟨[98], 1, BTree.newTree⟩

theorem newBucket_reached : Reached [] newBucket.tree :=
  .none rfl BTree.newTree_good

theorem newBucket_fits {key value : Bytes}
    (admissible : LeafItem.Admissible ⟨key, value⟩) :
    Supplied (.insert key value) newBucket.tree ∧
      BTree.Fitting (.insert key value) newBucket.tree := by
  have wanted : BTree.pagesWanted key newBucket.tree = 2 := rfl
  have roomy : LawfulPager.room newBucket.tree.pager = 2 ^ 64 - 3 :=
    BTree.newTree_room
  refine ⟨?_, admissible, .inl rfl⟩
  rw [Supplied, wanted, roomy]
  decide

def smallBatch : Batch := (Batch.newBatch.put [1] [10]).delete [2]

theorem smallBatch_atomic : AllOrNothing [] smallBatch newBucket := by
  have first := @newBucket_fits [1] [10] (by decide)
  have serviced : Along TreeOp.apply Serviced smallBatch.treeOps
      newBucket.tree :=
    ⟨⟨first.1, fun _ => first.2⟩, fun _ =>
      ⟨⟨trivial, fun _ => trivial⟩, fun _ => trivial⟩⟩
  exact ((batch_atomic_iff smallBatch newBucket_reached
    (serviced.mono fun _ _ both => both.1)).2 serviced).mpr (.inl rfl)

def longValue : Bytes := List.replicate 4097 0

theorem longValue_length : longValue.length = 4097 := List.length_replicate

def longBatch : Batch := (Batch.newBatch.put [1] [10]).put [2] longValue

theorem longBatch_applied :
    (newBucket.batch longBatch).1 ≠ .ok () ∧
      (newBucket.get [1]).1 = .error .notFound ∧
      ((newBucket.batch longBatch).2.get [1]).1 = .ok [10] := by
  obtain ⟨done, reached⟩ := newBucket_reached.apply_total
    (@newBucket_fits [1] [10] (by decide))
  have refused : (BatchOp.put [2] longValue).sized = false := by
    simp [BatchOp.sized, longValue_length, BTree.maxKeySize,
      BTree.maxValueSize]
  obtain ⟨error, failed⟩ := put_oversized refused
    (TreeOp.apply (.insert [1] [10]) newBucket.tree).2
  have outcome : newBucket.batch longBatch = newBucket.after
      (.error error, (TreeOp.apply (.insert [1] [10]) newBucket.tree).2) := by
    have ops : longBatch.treeOps =
        [.insert [1] [10], (BatchOp.put [2] longValue).treeOp] := rfl
    rw [batch_eq_run, ops, run_cons done]
    simp only [run, failed]
  rw [outcome]
  refine ⟨fun clash => ?_, ?_, ?_⟩
  · cases clash
  · exact get_reached newBucket_reached [1]
  · exact @get_reached _ _ _ _ ⟨[98], 1, _⟩ reached [1]

end CocoDB.KV
