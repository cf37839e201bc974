import Mathlib.Data.List.Basic
import Mathlib.Tactic.Ext

/-!
# Bounded channels

A queue of at most `capacity` items, filled at the back and emptied at the
front.  An operation that would have to wait answers `none`.
-/

namespace CocoDB.Lib

@[ext]
structure Channel (α : Type) where
  capacity : Nat
  buffer : List α
  bounded : buffer.length ≤ capacity

namespace Channel

variable {α : Type} {item : α} {ch next : Channel α}

def make (capacity : Nat) : Channel α where
  capacity := capacity
  buffer := []
  bounded := Nat.zero_le capacity

def send (item : α) (ch : Channel α) : Option (Channel α) :=
  if room : ch.buffer.length < ch.capacity then
    some
      { capacity := ch.capacity
        buffer := ch.buffer ++ [item]
        bounded := by
          rw [List.length_append, List.length_singleton]
          exact room }
  else none

def receive (ch : Channel α) : Option (α × Channel α) :=
  match waiting : ch.buffer with
  | [] => none
  | item :: rest =>
      some (item,
        { capacity := ch.capacity
          buffer := rest
          bounded := by
            have bounded := ch.bounded
            rw [waiting, List.length_cons] at bounded
            exact Nat.le_of_succ_le bounded })

theorem send_eq_none_iff :
    ch.send item = none ↔ ch.capacity ≤ ch.buffer.length := by
  unfold send
  split
  case isTrue room => exact iff_of_false (nomatch ·) (Nat.not_le.mpr room)
  case isFalse full => exact iff_of_true rfl (Nat.not_lt.mp full)

theorem send_eq_some_iff :
    ch.send item = some next ↔
      ch.buffer.length < ch.capacity ∧ next.capacity = ch.capacity ∧
        next.buffer = ch.buffer ++ [item] := by
  unfold send
  split
  case isTrue room =>
      constructor
      · intro sent
        cases sent
        exact ⟨room, rfl, rfl⟩
      · rintro ⟨_, capacity, buffer⟩
        exact congrArg some (Channel.ext capacity.symm buffer.symm)
  case isFalse full =>
      exact iff_of_false (nomatch ·) (fun sent => full sent.1)

theorem receive_eq_none_iff : ch.receive = none ↔ ch.buffer = [] := by
  unfold receive
  split
  case h_1 waiting => exact iff_of_true rfl waiting
  case h_2 item rest waiting =>
      exact iff_of_false (nomatch ·) (waiting ▸ List.cons_ne_nil item rest)

theorem receive_eq_some_iff :
    ch.receive = some (item, next) ↔
      next.capacity = ch.capacity ∧ ch.buffer = item :: next.buffer := by
  unfold receive
  split
  case h_1 waiting =>
      rw [waiting]
      exact iff_of_false (nomatch ·) (fun both => nomatch both.2)
  case h_2 head rest waiting =>
      constructor
      · intro received
        cases received
        exact ⟨rfl, waiting⟩
      · rintro ⟨capacity, buffer⟩
        obtain ⟨rfl, same⟩ := List.cons.inj (waiting.symm.trans buffer)
        exact congrArg (fun left => some (head, left))
          (Channel.ext capacity.symm same)

end Channel

end CocoDB.Lib
