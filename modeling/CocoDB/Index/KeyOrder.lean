import CocoDB.Index.Key
import CocoDB.Lib.OrderedCode
import Mathlib.Data.Nat.Bitwise

/-!
# The order of index keys

Keys are compared as byte strings.  This order is the order of the components,
first by tag and then by value.  `Component` lists the values that have an
encoding of their own; every indexed value is encoded as one of them.
-/

namespace CocoDB.Index

open Lib Cson

/-- `bytes.Compare`: the first byte that differs decides, and the beginning of a
string comes before the string. -/
def bytesCompare (left right : Bytes) : Ordering := compare left right

/-- A component of an index key.  A float is given by its bits, a time by its
`UnixNano`. -/
inductive Component where
  | null
  | bool (value : Bool)
  | int64 (value : Int64)
  | uint64 (value : UInt64)
  | float64 (bits : UInt64)
  | time (unixNano : Int64)
  | string (text : Bytes)
  | bytes (data : Bytes)
deriving DecidableEq, Repr

namespace Component

def tag : Component → Tag
  | null => .null
  | bool value => if value then .true else .false
  | int64 _ => .int64
  | uint64 _ => .uint64
  | float64 _ => .float64
  | time _ => .time
  | string _ => .string
  | bytes _ => .bytes

def encode : Component → Bytes
  | null => encodeNull
  | bool value => encodeBool value
  | int64 value => encodeInt64 value
  | uint64 value => encodeUint64 value
  | float64 bits => encodeFloat64 bits
  | time unixNano => encodeTime unixNano
  | string text => encodeString text
  | bytes data => encodeBytes data

end Component

/-- The bits of a float as a number with sign and magnitude; negative zero comes
directly before zero. -/
def signMagnitude (bits : UInt64) : Int :=
  if bits.toNat < 2 ^ 63 then bits.toNat else 2 ^ 63 - 1 - bits.toNat

namespace Component

def compareValues : Component → Component → Ordering
  | int64 left, int64 right => compare left.toInt right.toInt
  | uint64 left, uint64 right => compare left.toNat right.toNat
  | float64 left, float64 right =>
      compare (signMagnitude left) (signMagnitude right)
  | time left, time right => compare left.toInt right.toInt
  | string left, string right => compare left right
  | bytes left, bytes right => compare left right
  | _, _ => .eq

def order (left right : Component) : Ordering :=
  (compare left.tag.toByte right.tag.toByte).then (left.compareValues right)

/-- The component as which `encodeIndexValue` encodes a value. -/
def ofValue (runtime : Runtime) : Value → Component
  | .scalar .null => null
  | .scalar (.bool value) => bool value
  | .scalar (.int value) => int64 value
  | .scalar (.int64 value) => int64 value
  | .scalar (.int32 value) => int64 value.toInt64
  | .scalar (.uint value) => uint64 value
  | .scalar (.uint64 value) => uint64 value
  | .scalar (.uint32 value) => uint64 value.toUInt64
  | .scalar (.float64 bits) => float64 bits
  | .scalar (.float32 bits) => float64 (float64OfFloat32 bits)
  | .scalar (.string text) => string text
  | .scalar (.bytes data) => bytes data
  | .scalar (.time unixNano _) => time unixNano
  | value => string (runtime.sprint value)

end Component

def decodeWord (tag : Tag) (buf : Bytes) : Except Error UInt64 :=
  if buf.length < 9 ∨ buf.head? ≠ some tag.toByte then .error .invalidFormat
  else .ok (UInt64.ofNat (ofBE ((buf.drop 1).take 8)))

def decodeInt64 (buf : Bytes) : Except Error Int64 :=
  (decodeWord .int64 buf).map fun word => (word ^^^ signBit).toInt64

def decodeUint64 (buf : Bytes) : Except Error UInt64 := decodeWord .uint64 buf

/-- `DecodeFloat64`, to the bits of the number -/
def decodeFloat64 (buf : Bytes) : Except Error UInt64 :=
  (decodeWord .float64 buf).map fun bits =>
    if bits &&& signBit ≠ 0 then bits ^^^ signBit else ~~~bits

section Words

variable (bits : UInt64)

theorem xor_signBit_of_lt {bits : UInt64} (low : bits.toNat < 2 ^ 63) :
    (bits ^^^ signBit).toNat = bits.toNat + 2 ^ 63 := by
  have sign : signBit.toNat = 2 ^ 63 := rfl
  have high : (bits ^^^ signBit).toNat / 2 ^ 63 = 1 := by
    rw [UInt64.toNat_xor, sign, Nat.xor_div_two_pow, Nat.div_eq_of_lt low]
    rfl
  have rest : (bits ^^^ signBit).toNat % 2 ^ 63 = bits.toNat := by
    rw [UInt64.toNat_xor, sign, Nat.xor_mod_two_pow, Nat.mod_eq_of_lt low,
      Nat.mod_self, Nat.xor_zero]
  omega

theorem xor_signBit_of_le {bits : UInt64} (high : 2 ^ 63 ≤ bits.toNat) :
    (bits ^^^ signBit).toNat = bits.toNat - 2 ^ 63 := by
  have sign : signBit.toNat = 2 ^ 63 := rfl
  have bounded := bits.toNat_lt
  have one : bits.toNat / 2 ^ 63 = 1 := by omega
  have low : (bits ^^^ signBit).toNat / 2 ^ 63 = 0 := by
    rw [UInt64.toNat_xor, sign, Nat.xor_div_two_pow, one]
    rfl
  have rest : (bits ^^^ signBit).toNat % 2 ^ 63 = bits.toNat % 2 ^ 63 := by
    rw [UInt64.toNat_xor, sign, Nat.xor_mod_two_pow, Nat.mod_self,
      Nat.xor_zero]
  omega

theorem and_signBit : bits &&& signBit ≠ 0 ↔ 2 ^ 63 ≤ bits.toNat := by
  have sign : signBit.toNat = 2 ^ 63 := rfl
  have bounded := bits.toNat_lt
  have value : (bits &&& signBit).toNat =
      (bits.toNat.testBit 63).toNat * 2 ^ 63 := by
    rw [UInt64.toNat_and, sign, Nat.and_two_pow]
  have top : bits.toNat.testBit 63 = decide (2 ^ 63 ≤ bits.toNat) := by
    rw [Nat.testBit_eq_decide_div_mod_eq]
    congr 1
    rw [eq_iff_iff]
    omega
  rw [Ne, ← UInt64.toNat_inj, value, top]
  by_cases high : 2 ^ 63 ≤ bits.toNat <;> simp

theorem complement_toNat : (~~~bits).toNat = 2 ^ 64 - 1 - bits.toNat := by
  rw [UInt64.toNat_not]
  rfl

theorem signed_word (value : Int64) :
    ((value.toUInt64 ^^^ signBit).toNat : Int) = value.toInt + 2 ^ 63 := by
  have bounded := value.toUInt64.toNat_lt
  have signed : value.toInt = if 2 * value.toUInt64.toNat < 2 ^ 64 then
      (value.toUInt64.toNat : Int) else value.toUInt64.toNat - 2 ^ 64 :=
    BitVec.toInt_eq_toNat_cond value.toUInt64.toBitVec
  by_cases low : value.toUInt64.toNat < 2 ^ 63
  · rw [xor_signBit_of_lt low, signed, if_pos (by omega)]
    omega
  · rw [xor_signBit_of_le (by omega), signed, if_neg (by omega)]
    omega

/-- The word that `EncodeFloat64` writes. -/
def floatWord : UInt64 :=
  if bits &&& signBit ≠ 0 then ~~~bits else bits ^^^ signBit

theorem float_word :
    ((floatWord bits).toNat : Int) = signMagnitude bits + 2 ^ 63 := by
  have bounded := bits.toNat_lt
  unfold floatWord signMagnitude
  by_cases low : bits.toNat < 2 ^ 63
  · rw [if_neg (by rw [and_signBit]; omega), if_pos low,
      xor_signBit_of_lt low]
    omega
  · rw [if_pos (by rw [and_signBit]; omega), if_neg low, complement_toNat]
    omega

theorem signMagnitude_injective {left right : UInt64}
    (same : signMagnitude left = signMagnitude right) : left = right := by
  have leftBounded := left.toNat_lt
  have rightBounded := right.toNat_lt
  unfold signMagnitude at same
  rw [← UInt64.toNat_inj]
  split at same <;> split at same <;> omega

end Words

/-! ## The order of components -/

@[simp]
theorem escape_zero (rest : Bytes) :
    escape (0 :: rest) = 0x00 :: 0xFF :: escape rest :=
  rfl

theorem escape_nonzero {byte : UInt8} (nonzero : byte ≠ 0) (rest : Bytes) :
    escape (byte :: rest) = byte :: escape rest :=
  if_neg nonzero

theorem zero_first {byte : UInt8} (nonzero : byte ≠ 0) :
    compare 0 byte = .lt ∧ compare byte 0 = .gt := by
  have positive : 0 < byte.toNat := by
    have differs : byte.toNat ≠ (0 : UInt8).toNat :=
      fun same => nonzero (UInt8.toNat_inj.mp same)
    exact Nat.pos_of_ne_zero differs
  rw [compare_toNat, compare_toNat]
  exact ⟨compare_lt_iff_lt.mpr positive, compare_gt_iff_gt.mpr positive⟩

theorem escape_ordered (left right leftRest rightRest : Bytes) :
    compare (escape left ++ 0x00 :: 0x00 :: leftRest)
        (escape right ++ 0x00 :: 0x00 :: rightRest) =
      (compare left right).then (compare leftRest rightRest) := by
  induction left generalizing right with
  | nil =>
      cases right with
      | nil => rfl
      | cons byte rest =>
          by_cases zero : byte = 0
          · subst zero
            rfl
          · rw [escape_nonzero zero, escape, List.nil_append,
              List.cons_append, List.compare_cons_cons, (zero_first zero).1]
            rfl
  | cons byte rest inductionHypothesis =>
      cases right with
      | nil =>
          by_cases zero : byte = 0
          · subst zero
            rfl
          · rw [escape_nonzero zero, escape, List.nil_append,
              List.cons_append, List.compare_cons_cons, (zero_first zero).2]
            rfl
      | cons other others =>
          rw [List.compare_cons_cons]
          by_cases zero : byte = 0
          · subst zero
            by_cases otherZero : other = 0
            · subst otherZero
              rw [escape_zero, escape_zero, List.cons_append,
                List.cons_append, List.cons_append, List.cons_append,
                List.compare_cons_cons, List.compare_cons_cons,
                inductionHypothesis]
              rfl
            · rw [escape_zero, escape_nonzero otherZero, List.cons_append,
                List.cons_append, List.cons_append, List.compare_cons_cons,
                (zero_first otherZero).1]
              rfl
          · by_cases otherZero : other = 0
            · subst otherZero
              rw [escape_zero, escape_nonzero zero, List.cons_append,
                List.cons_append, List.compare_cons_cons,
                (zero_first zero).2]
              rfl
            · rw [escape_nonzero zero, escape_nonzero otherZero,
                List.cons_append, List.cons_append, List.compare_cons_cons,
                inductionHypothesis, Ordering.then_assoc]

namespace Component

def body : Component → Bytes
  | null => []
  | bool _ => []
  | int64 value => be 8 (value.toUInt64 ^^^ signBit).toNat
  | uint64 value => be 8 value.toNat
  | float64 bits => be 8 (floatWord bits).toNat
  | time unixNano => be 8 (unixNano.toUInt64 ^^^ signBit).toNat
  | string text => escape text ++ [0x00, 0x00]
  | bytes data => escape data ++ [0x00, 0x00]

theorem encode_eq (component : Component) :
    component.encode = component.tag.toByte :: component.body := by
  cases component with
  | bool value => cases value <;> rfl
  | _ => rfl

theorem tag_toByte_injective {left right : Tag}
    (same : left.toByte = right.toByte) : left = right := by
  cases left <;> cases right <;> first | rfl | cases same

theorem words_ordered (left right : UInt64) (leftRest rightRest : Bytes) :
    compare (be 8 left.toNat ++ leftRest) (be 8 right.toNat ++ rightRest) =
      (compare left.toNat right.toNat).then (compare leftRest rightRest) :=
  be_ordered 8 left.toNat_lt right.toNat_lt leftRest rightRest

inductive Alike : Component → Component → Prop where
  | null : Alike null null
  | bool (value : Bool) : Alike (bool value) (bool value)
  | int64 (left right : Int64) : Alike (int64 left) (int64 right)
  | uint64 (left right : UInt64) : Alike (uint64 left) (uint64 right)
  | float64 (left right : UInt64) : Alike (float64 left) (float64 right)
  | time (left right : Int64) : Alike (time left) (time right)
  | string (left right : Bytes) : Alike (string left) (string right)
  | bytes (left right : Bytes) : Alike (bytes left) (bytes right)

theorem alike_of_tag {left right : Component}
    (sameTag : left.tag = right.tag) : Alike left right := by
  cases left with
  | bool value =>
      cases right with
      | bool other =>
          cases value <;> cases other <;> first | exact .bool _ | cases sameTag
      | _ => cases value <;> cases sameTag
  | _ =>
      cases right with
      | bool other => cases other <;> cases sameTag
      | _ => first | constructor | cases sameTag

theorem body_ordered {left right : Component} (alike : Alike left right)
    (leftRest rightRest : Bytes) :
    compare (left.body ++ leftRest) (right.body ++ rightRest) =
      (left.compareValues right).then (compare leftRest rightRest) := by
  cases alike with
  | null => rfl
  | bool value => rfl
  | int64 left right =>
      rw [body, body, words_ordered,
        compare_shift (signed_word left) (signed_word right)]
      rfl
  | uint64 left right => exact words_ordered left right leftRest rightRest
  | float64 left right =>
      rw [body, body, words_ordered,
        compare_shift (float_word left) (float_word right)]
      rfl
  | time left right =>
      rw [body, body, words_ordered,
        compare_shift (signed_word left) (signed_word right)]
      rfl
  | string left right =>
      rw [body, body, List.append_assoc, List.append_assoc]
      exact escape_ordered left right leftRest rightRest
  | bytes left right =>
      rw [body, body, List.append_assoc, List.append_assoc]
      exact escape_ordered left right leftRest rightRest

theorem encode_ordered : OrderedCode encode order := by
  intro left right leftRest rightRest
  rw [encode_eq, encode_eq, List.cons_append, List.cons_append,
    List.compare_cons_cons, order, Ordering.then_assoc]
  rcases tags : compare left.tag.toByte right.tag.toByte with _ | _ | _
  · rfl
  · rw [body_ordered (alike_of_tag (tag_toByte_injective
      (Std.compare_eq_iff_eq.mp tags)))]
  · rfl

theorem encode_nonempty (component : Component) : component.encode ≠ [] := by
  rw [encode_eq]
  exact List.cons_ne_nil _ _

theorem eq_of_order {left right : Component}
    (same : left.order right = .eq) : left = right := by
  obtain ⟨tags, values⟩ := Ordering.then_eq_eq.mp same
  cases alike_of_tag (tag_toByte_injective (Std.compare_eq_iff_eq.mp tags)) with
  | null => rfl
  | bool value => rfl
  | int64 left right => rw [Int64.toInt_inj.mp (compare_eq_iff_eq.mp values)]
  | uint64 left right => rw [UInt64.toNat_inj.mp (compare_eq_iff_eq.mp values)]
  | float64 left right =>
      rw [signMagnitude_injective (compare_eq_iff_eq.mp values)]
  | time left right => rw [Int64.toInt_inj.mp (compare_eq_iff_eq.mp values)]
  | string left right => rw [Std.compare_eq_iff_eq.mp values]
  | bytes left right => rw [Std.compare_eq_iff_eq.mp values]

theorem encode_ofValue (runtime : Runtime) (value : Value) :
    (ofValue runtime value).encode = encodeIndexValue runtime value := by
  cases value with
  | scalar scalar => cases scalar <;> rfl
  | _ => rfl

end Component

def compositeKey (components : List Component) : Bytes :=
  encodeComposite (components.map Component.encode)

theorem compositeKey_compare (left right : List Component) :
    bytesCompare (compositeKey left) (compositeKey right) =
      left.compareLex Component.order right := by
  rw [← Component.encode_ordered.compare_flatMap Component.encode_nonempty,
    List.flatMap_def, List.flatMap_def]
  rfl

theorem compositeKey_injective {left right : List Component}
    (same : compositeKey left = compositeKey right) : left = right := by
  refine eq_of_compareLex Component.eq_of_order
    ((compositeKey_compare left right).symm.trans ?_)
  exact Std.compare_eq_iff_eq.mpr same

/-! ## Decoding -/

theorem decodeWord_encodeWord (tag : Tag) (word : UInt64) :
    decodeWord tag (encodeWord tag word) = .ok word := by
  have length : (encodeWord tag word).length = 9 := by
    rw [encodeWord, List.length_cons, be_length]
  unfold decodeWord
  rw [if_neg (by rw [length]; simp [encodeWord]), encodeWord, List.drop_one,
    List.tail_cons, List.take_of_length_le (be_length 8 _).le, ofBE_be64]

theorem decodeInt64_encodeInt64 (value : Int64) :
    decodeInt64 (encodeInt64 value) = .ok value := by
  unfold decodeInt64 encodeInt64
  rw [decodeWord_encodeWord, Except.map, UInt64.xor_assoc, UInt64.xor_self,
    UInt64.xor_zero, Int64.toInt64_toUInt64]

theorem decodeUint64_encodeUint64 (value : UInt64) :
    decodeUint64 (encodeUint64 value) = .ok value :=
  decodeWord_encodeWord .uint64 value

theorem decodeFloat64_encodeFloat64 (bits : UInt64) :
    decodeFloat64 (encodeFloat64 bits) = .ok bits := by
  have bounded := bits.toNat_lt
  have written : encodeFloat64 bits = encodeWord .float64 (floatWord bits) :=
    rfl
  unfold decodeFloat64
  rw [written, decodeWord_encodeWord, Except.map]
  refine congrArg Except.ok (UInt64.toNat_inj.mp ?_)
  have word := float_word bits
  unfold signMagnitude at word
  by_cases low : bits.toNat < 2 ^ 63
  · rw [if_pos low] at word
    rw [if_pos (by rw [and_signBit]; omega),
      xor_signBit_of_le (by omega)]
    omega
  · rw [if_neg low] at word
    rw [if_neg (by rw [and_signBit]; omega), complement_toNat]
    omega

/-! ## Keys -/

/-- Index keys compare as the lists of their components, no component begins
another, numbers are read back, and a key with a record identifier determines
both. -/
theorem compositeKey_ordered :
    (∀ left right : List Component,
      bytesCompare (compositeKey left) (compositeKey right) =
        left.compareLex Component.order right) ∧
    (∀ left right : Component, left.encode <+: right.encode ↔ left = right) ∧
    (∀ value : Int64, decodeInt64 (encodeInt64 value) = .ok value) ∧
    (∀ value : UInt64, decodeUint64 (encodeUint64 value) = .ok value) ∧
    (∀ bits : UInt64, decodeFloat64 (encodeFloat64 bits) = .ok bits) ∧
    (∀ (left right : List Component) (leftID rightID : RecordID),
      appendRecordID (compositeKey left) leftID =
        appendRecordID (compositeKey right) rightID ↔
          left = right ∧ leftID = rightID) ∧
    ∀ (key : Bytes) (recID : RecordID),
      extractRecordID (appendRecordID key recID) = (recID, key) := by
  refine ⟨compositeKey_compare, fun left right => ⟨fun begins => ?_, ?_⟩,
    decodeInt64_encodeInt64, decodeUint64_encodeUint64,
    decodeFloat64_encodeFloat64, fun left right leftID rightID => ⟨?_, ?_⟩,
    extractRecordID_append⟩
  · exact Component.encode_ordered.eq_of_prefix begins Component.eq_of_order
  · rintro rfl
    exact List.prefix_rfl
  · intro same
    obtain ⟨sameID, sameKey⟩ := appendRecordID_injective same
    exact ⟨compositeKey_injective sameKey, sameID⟩
  · rintro ⟨rfl, rfl⟩
    rfl

end CocoDB.Index
