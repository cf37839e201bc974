import CocoDB.Document.Kernel
import CocoDB.Index.Key

/-!
# The primary index

`internal/index/primary.go`: the B+tree from `_id` to the record of a document.
-/

namespace CocoDB.Index

open Lib

namespace PrimaryIndex

section Calls

variable {σ : Type} [Kernel σ]

def put (id : Bytes) (recID : RecordID) (tree : Kernel.Tree σ) (state : σ) :
    Except Error Unit × Kernel.Tree σ × σ :=
  Kernel.insert (encodeString id) (recordBytes recID) tree state

def get (id : Bytes) (tree : Kernel.Tree σ) (state : σ) :
    Except Error (Option RecordID) × σ :=
  match Kernel.search (encodeString id) tree state with
  | (.error cause, next) => (.error cause, next)
  | (.ok none, next) => (.ok none, next)
  | (.ok (some value), next) =>
      if value.length < 8 then (.ok none, next)
      else (.ok (some (recordOf value)), next)

def delete (id : Bytes) (tree : Kernel.Tree σ) (state : σ) :
    Except Error Unit × Kernel.Tree σ × σ :=
  Kernel.delete (encodeString id) tree state

end Calls

/-! ## The map from identifiers to records -/

structure Lists (map : KeyMap) (ids : Bytes → Option RecordID) : Prop where
  entry : ∀ id, map (encodeString id) = (ids id).map recordBytes
  only : ∀ {key value}, map key = some value →
    ∃ id, key = encodeString id

theorem lists_empty : Lists (fun _ => none) fun _ => none :=
  ⟨fun _ => rfl, fun listed => nomatch listed⟩

section Lists

variable {map : KeyMap} {ids : Bytes → Option RecordID}

theorem Lists.put (lists : Lists map ids) (id : Bytes) (recID : RecordID) :
    Lists (Function.update map (encodeString id) (some (recordBytes recID)))
      (Function.update ids id (some recID)) := by
  refine ⟨fun other => ?_, fun {key value} listed => ?_⟩
  · by_cases same : other = id
    · subst same
      rw [Function.update_self, Function.update_self]
      rfl
    · rw [Function.update_of_ne fun equal =>
          same (encodeString_injective equal),
        Function.update_of_ne same, lists.entry]
  · by_cases same : key = encodeString id
    · exact ⟨id, same⟩
    · rw [Function.update_of_ne same] at listed
      exact lists.only listed

theorem Lists.delete (lists : Lists map ids) (id : Bytes) :
    Lists (Function.update map (encodeString id) none)
      (Function.update ids id none) := by
  refine ⟨fun other => ?_, fun {key value} listed => ?_⟩
  · by_cases same : other = id
    · subst same
      rw [Function.update_self, Function.update_self]
      rfl
    · rw [Function.update_of_ne fun equal =>
          same (encodeString_injective equal),
        Function.update_of_ne same, lists.entry]
  · by_cases same : key = encodeString id
    · exact ⟨id, same⟩
    · rw [Function.update_of_ne same] at listed
      exact lists.only listed

end Lists

section Spec

open LawfulKernel

variable {σ : Type} [Kernel σ] [LawfulKernel σ] {state : σ} {spare : Nat}
  {tree : Kernel.Tree σ} {leaves : Leaves} {ids : Bytes → Option RecordID}
  {others : List (Kernel.Tree σ × Leaves)} {records : RecordMap}

theorem get_spec (holds : Holds state spare ((tree, leaves) :: others) records)
    (lists : Lists leaves.keyMap ids) (id : Bytes) :
    (get id tree state).1 = .ok (ids id) ∧
      Holds (get id tree state).2 spare ((tree, leaves) :: others)
        records := by
  obtain ⟨found, next⟩ := search_spec (encodeString id) holds
  unfold get
  rcases outcome : Kernel.search (encodeString id) tree state with
    ⟨result, after⟩
  rw [outcome] at found next
  simp only at found next
  rw [lists.entry] at found
  subst found
  cases listed : ids id with
  | none => exact ⟨rfl, next⟩
  | some recID =>
      simp only [Option.map_some, recordBytes_length, recordOf_recordBytes,
        Nat.lt_irrefl, if_false]
      exact ⟨trivial, next⟩

theorem put_spec
    (holds : Holds state (spare + 1) ((tree, leaves) :: others) records)
    (lists : Lists leaves.keyMap ids) {id : Bytes} {recID : RecordID}
    (done : (put id recID tree state).1 = .ok ()) :
    ∃ changed, leaves.Put (encodeString id) (recordBytes recID) changed ∧
      Lists changed.keyMap (Function.update ids id (some recID)) ∧
      Holds (put id recID tree state).2.2 spare
        (((put id recID tree state).2.1, changed) :: others) records := by
  obtain ⟨changed, entered, next⟩ := insert_spec holds done
  refine ⟨changed, entered, ?_, next⟩
  rw [entered.keyMap_eq]
  exact lists.put id recID

theorem delete_spec
    (holds : Holds state spare ((tree, leaves) :: others) records)
    (lists : Lists leaves.keyMap ids) (id : Bytes) :
    (delete id tree state).1 = .ok () ∧
      Lists (leaves.without (encodeString id)).keyMap
        (Function.update ids id none) ∧
      Holds (delete id tree state).2.2 spare
        (((delete id tree state).2.1, leaves.without (encodeString id)) ::
          others) records := by
  obtain ⟨done, next⟩ := LawfulKernel.delete_spec (encodeString id) holds
  refine ⟨done, ?_, next⟩
  rw [Leaves.keyMap_without]
  exact lists.delete id

end Spec

end PrimaryIndex

end CocoDB.Index
