import Mathlib.Algebra.BigOperators.Group.List.Basic
import Mathlib.Algebra.Order.Ring.Nat
import Mathlib.Data.Fin.Basic
import Mathlib.Data.List.Induction
import Mathlib.Data.List.Lex
import Mathlib.Data.UInt
import Mathlib.Data.ZMod.Defs
import Mathlib.Order.Lattice
import Mathlib.Algebra.CharZero.Defs
import Mathlib.Tactic.Linarith

/-!
# Byte buffers and big-endian words

A buffer is a function from offsets to bytes.  Two operations are enough for
every fixed-layout format: reading a range as a list, and writing a list over
a range.  The lemmas below say how the two compose; nothing after this module
looks at a single byte of a buffer again unless it has to.
-/

namespace CocoDB.Lib

abbrev Bytes := List UInt8

instance byteOrder : LinearOrder UInt8 where
  le_refl := UInt8.le_refl
  le_trans _ _ _ := UInt8.le_trans
  le_antisymm _ _ := UInt8.le_antisymm
  le_total := UInt8.le_total
  lt_iff_le_not_ge left right := by
    simp only [UInt8.le_iff_toNat_le, UInt8.lt_iff_toNat_lt]
    omega
  toDecidableLE := inferInstance
  toDecidableLT := inferInstance
  toDecidableEq := inferInstance

def Buf := Nat → UInt8

namespace Buf

def zero : Buf := fun _ => 0

/-- The `length` bytes that start at `offset`. -/
def read (buffer : Buf) (offset length : Nat) : Bytes :=
  (List.range length).map fun index => buffer (offset + index)

/-- Overwrite the range that starts at `offset` with `source`. -/
def write (buffer : Buf) (offset : Nat) (source : Bytes) : Buf :=
  fun index =>
    if offset ≤ index then
      (source[index - offset]?).getD (buffer index)
    else
      buffer index

@[simp]
theorem read_length (buffer : Buf) (offset length : Nat) :
    (buffer.read offset length).length = length := by
  simp [read]

@[simp]
theorem read_zero_length (buffer : Buf) (offset : Nat) :
    buffer.read offset 0 = [] := rfl

theorem read_one (buffer : Buf) (offset : Nat) :
    buffer.read offset 1 = [buffer offset] := rfl

theorem read_getElem? (buffer : Buf) (offset length index : Nat) :
    (buffer.read offset length)[index]? =
      if index < length then some (buffer (offset + index)) else none := by
  by_cases inside : index < length
  · simp [read, inside]
  · simp [read, inside]

theorem read_congr {left right : Buf} {offset length : Nat}
    (agree : ∀ index, offset ≤ index → index < offset + length →
      left index = right index) :
    left.read offset length = right.read offset length := by
  unfold read
  apply List.map_congr_left
  intro index member
  have inside := List.mem_range.mp member
  exact agree (offset + index) (by omega) (by omega)

theorem write_apply_outside {buffer : Buf} {offset index : Nat}
    {source : Bytes}
    (outside : index < offset ∨ offset + source.length ≤ index) :
    buffer.write offset source index = buffer index := by
  unfold write
  split
  · have past : source.length ≤ index - offset := by omega
    simp [List.getElem?_eq_none past]
  · rfl

theorem write_apply_inside {buffer : Buf} {offset index : Nat}
    {source : Bytes} (inside : index < source.length) :
    buffer.write offset source (offset + index) = source[index] := by
  simp [write, inside]

@[simp]
theorem read_write_same (buffer : Buf) (offset : Nat) (source : Bytes) :
    (buffer.write offset source).read offset source.length = source := by
  apply List.ext_getElem?
  intro index
  rw [read_getElem?]
  split
  · rename_i inside
    rw [write_apply_inside inside, List.getElem?_eq_getElem inside]
  · rename_i outside
    rw [List.getElem?_eq_none (by omega)]

theorem read_write_disjoint {buffer : Buf} {offset length target : Nat}
    {source : Bytes}
    (disjoint : offset + length ≤ target ∨
      target + source.length ≤ offset) :
    (buffer.write target source).read offset length =
      buffer.read offset length := by
  apply read_congr
  intro index lower upper
  exact write_apply_outside (by omega)

@[simp]
theorem write_nil (buffer : Buf) (offset : Nat) :
    buffer.write offset [] = buffer := by
  funext index
  exact write_apply_outside (by simp; omega)

theorem read_drop (buffer : Buf) (offset length skipped : Nat) :
    (buffer.read offset length).drop skipped =
      buffer.read (offset + skipped) (length - skipped) := by
  apply List.ext_getElem?
  intro index
  rw [List.getElem?_drop, read_getElem?, read_getElem?]
  by_cases inside : skipped + index < length
  · rw [if_pos inside, if_pos (by omega), Nat.add_assoc]
  · rw [if_neg inside, if_neg (by omega)]

theorem read_take (buffer : Buf) (offset length kept : Nat) :
    (buffer.read offset length).take kept =
      buffer.read offset (min kept length) := by
  apply List.ext_getElem?
  intro index
  rw [List.getElem?_take, read_getElem?, read_getElem?]
  by_cases inside : index < min kept length
  · rw [if_pos (by omega), if_pos (by omega), if_pos inside]
  · rw [if_neg inside]
    split
    · rw [if_neg (by omega)]
    · rfl

theorem read_append (buffer : Buf) (offset first second : Nat) :
    buffer.read offset first ++ buffer.read (offset + first) second =
      buffer.read offset (first + second) := by
  have whole := List.take_append_drop first
    (buffer.read offset (first + second))
  rw [read_take, read_drop] at whole
  rw [← whole, Nat.min_eq_left (by omega), Nat.add_sub_cancel_left]

theorem read_write_within (buffer : Buf) (offset : Nat) {source : Bytes}
    {skipped length : Nat} (inside : skipped + length ≤ source.length) :
    (buffer.write offset source).read (offset + skipped) length =
      (source.drop skipped).take length := by
  have whole := read_write_same buffer offset source
  rw [← whole, read_drop, read_take, whole, Nat.min_eq_left (by omega)]

theorem write_read_self (buffer : Buf) (offset length : Nat) :
    buffer.write offset (buffer.read offset length) = buffer := by
  funext index
  unfold write
  split
  · rename_i lower
    rw [read_getElem?]
    split
    · rw [Option.getD_some, Nat.add_sub_cancel' lower]
    · rfl
  · rfl

-- From here on a buffer is only known through the lemmas above; unfolding a
-- write while comparing two page records costs far more than it can gain.
attribute [irreducible] read write

end Buf

/-! ## Big-endian words -/

/-- The `width` low bytes of `value`, most significant first. -/
def be : (width value : Nat) → Bytes
  | 0, _ => []
  | width + 1, value => be width (value / 256) ++ [UInt8.ofNat value]

/-- The number spelled by a byte string, most significant byte first. -/
def ofBE (bytes : Bytes) : Nat :=
  bytes.foldl (fun value byte => value * 256 + byte.toNat) 0

@[simp]
theorem be_length : ∀ width value : Nat, (be width value).length = width
  | 0, _ => rfl
  | width + 1, value => by
      simp [be, be_length width]

theorem be_drop {width skipped : Nat} (value : Nat)
    (past : width ≤ skipped) : (be width value).drop skipped = [] :=
  List.drop_eq_nil_of_le (by rw [be_length]; exact past)

theorem ofBE_append_singleton (bytes : Bytes) (byte : UInt8) :
    ofBE (bytes ++ [byte]) = ofBE bytes * 256 + byte.toNat := by
  simp [ofBE]

@[simp]
theorem ofBE_be : ∀ width value : Nat,
    ofBE (be width value) = value % 256 ^ width
  | 0, value => by
      simp [be, ofBE, Nat.mod_one]
  | width + 1, value => by
      rw [be, ofBE_append_singleton, ofBE_be width]
      have digit : (UInt8.ofNat value).toNat = value % 256 := by
        simp
      rw [digit, Nat.pow_succ, Nat.mul_comm (256 ^ width) 256,
        Nat.mod_mul]
      omega

theorem ofBE_lt (bytes : Bytes) : ofBE bytes < 256 ^ bytes.length := by
  induction bytes using List.reverseRecOn with
  | nil => simp [ofBE]
  | append_singleton bytes byte inductionHypothesis =>
      rw [ofBE_append_singleton, List.length_append,
        List.length_singleton, Nat.pow_succ]
      have small : byte.toNat < 256 := byte.toNat_lt
      omega

theorem be_ofBE (bytes : Bytes) : be bytes.length (ofBE bytes) = bytes := by
  induction bytes using List.reverseRecOn with
  | nil => rfl
  | append_singleton bytes byte inductionHypothesis =>
      have small : byte.toNat < 256 := byte.toNat_lt
      rw [ofBE_append_singleton, List.length_append,
        List.length_singleton, be]
      have quotient : (ofBE bytes * 256 + byte.toNat) / 256 = ofBE bytes := by
        omega
      have remainder : UInt8.ofNat (ofBE bytes * 256 + byte.toNat) = byte := by
        apply UInt8.toNat.inj
        simp
      rw [quotient, remainder, inductionHypothesis]

theorem be_ofBE_of_length {width : Nat} {bytes : Bytes}
    (sized : bytes.length = width) : be width (ofBE bytes) = bytes := by
  subst sized
  exact be_ofBE bytes

theorem toNat_mod64 (value : UInt64) : value.toNat % 256 ^ 8 = value.toNat := by
  have small : value.toNat < 256 ^ 8 := value.toNat_lt
  exact Nat.mod_eq_of_lt small

theorem toNat_succ64 {value : UInt64} (room : value.toNat + 1 < 2 ^ 64) :
    (value + 1).toNat = value.toNat + 1 := by
  rw [UInt64.toNat_add]
  exact Nat.mod_eq_of_lt room

theorem toNat_mod32 (value : UInt32) : value.toNat % 256 ^ 4 = value.toNat := by
  have small : value.toNat < 256 ^ 4 := value.toNat_lt
  exact Nat.mod_eq_of_lt small

@[simp]
theorem ofBE_be64 (value : UInt64) :
    UInt64.ofNat (ofBE (be 8 value.toNat)) = value := by
  rw [ofBE_be, toNat_mod64, UInt64.ofNat_toNat]

@[simp]
theorem ofBE_be32 (value : UInt32) :
    UInt32.ofNat (ofBE (be 4 value.toNat)) = value := by
  rw [ofBE_be, toNat_mod32, UInt32.ofNat_toNat]

end CocoDB.Lib
