import CocoDB.Text.Tokenizer

/-!
# UTF-8 at the front of a text

The width of the rune that a text begins with, by the table of well-formed byte
sequences, and what `utf8DecodeRune` makes of it.
-/

namespace CocoDB.Text

open Lib

def runeWidth : Bytes → Option Nat
  | [] => none
  | first :: rest =>
      if first < 0x80 then some 1
      else
        match rest with
        | [] => none
        | second :: rest =>
            if 0xC2 ≤ first && first ≤ 0xDF then
              if isContinuation second then some 2 else none
            else
              match rest with
              | [] => none
              | third :: rest =>
                  if 0xE0 ≤ first && first ≤ 0xEF then
                    if isContinuation second && isContinuation third &&
                        !(first == 0xE0 && second < 0xA0) &&
                        !(first == 0xED && 0x9F < second) then some 3
                    else none
                  else
                    match rest with
                    | [] => none
                    | fourth :: _ =>
                        if 0xF0 ≤ first && first ≤ 0xF4 &&
                            isContinuation second && isContinuation third &&
                            isContinuation fourth &&
                            !(first == 0xF0 && second < 0x90) &&
                            !(first == 0xF4 && 0x8F < second) then some 4
                        else none

inductive RuneAt : Bytes → Nat → Prop where
  | one {first : UInt8} (rest : Bytes) : first < 0x80 → RuneAt (first :: rest) 1
  | two {first second : UInt8} (rest : Bytes) :
      ¬ first < 0x80 → (0xC2 ≤ first && first ≤ 0xDF) = true →
      isContinuation second = true → RuneAt (first :: second :: rest) 2
  | three {first second third : UInt8} (rest : Bytes) :
      ¬ first < 0x80 → (0xC2 ≤ first && first ≤ 0xDF) = false →
      (0xE0 ≤ first && first ≤ 0xEF) = true →
      (isContinuation second && isContinuation third &&
        !(first == 0xE0 && second < 0xA0) &&
        !(first == 0xED && 0x9F < second)) = true →
      RuneAt (first :: second :: third :: rest) 3
  | four {first second third fourth : UInt8} (rest : Bytes) :
      ¬ first < 0x80 → (0xC2 ≤ first && first ≤ 0xDF) = false →
      (0xE0 ≤ first && first ≤ 0xEF) = false →
      (0xF0 ≤ first && first ≤ 0xF4 &&
        isContinuation second && isContinuation third &&
        isContinuation fourth &&
        !(first == 0xF0 && second < 0x90) &&
        !(first == 0xF4 && 0x8F < second)) = true →
      RuneAt (first :: second :: third :: fourth :: rest) 4

theorem runeAt_iff {text : Bytes} {width : Nat} :
    runeWidth text = some width ↔ RuneAt text width := by
  constructor
  · intro found
    unfold runeWidth at found
    split at found
    case h_1 => cases found
    case h_2 first rest =>
      split at found
      case isTrue ascii =>
        cases found
        exact .one rest ascii
      case isFalse wide =>
        split at found
        case h_1 => cases found
        case h_2 second rest =>
          split at found
          case isTrue two =>
            split at found
            case isTrue continuation =>
              cases found
              exact .two rest wide two continuation
            case isFalse => cases found
          case isFalse notTwo =>
            split at found
            case h_1 => cases found
            case h_2 third rest =>
              split at found
              case isTrue three =>
                split at found
                case isTrue continuations =>
                  cases found
                  exact .three rest wide (Bool.eq_false_iff.mpr notTwo) three
                    continuations
                case isFalse => cases found
              case isFalse notThree =>
                split at found
                case h_1 => cases found
                case h_2 fourth rest =>
                  split at found
                  case isTrue continuations =>
                    cases found
                    exact .four rest wide (Bool.eq_false_iff.mpr notTwo)
                      (Bool.eq_false_iff.mpr notThree) continuations
                  case isFalse => cases found
  · intro rune
    cases rune with
    | one rest ascii => simp only [runeWidth, ascii, if_true]
    | two rest wide two continuation =>
        simp only [runeWidth, wide, if_false, two, if_true, continuation]
    | three rest wide notTwo three continuations =>
        simp only [runeWidth, wide, if_false, notTwo, Bool.false_eq_true,
          three, if_true, continuations]
    | four rest wide notTwo notThree continuations =>
        simp only [runeWidth, wide, if_false, notTwo, Bool.false_eq_true,
          notThree, continuations, if_true]

theorem decodeRune_of_none {text : Bytes} (nonempty : text ≠ [])
    (malformed : runeWidth text = none) : decodeRune text = runeError := by
  unfold runeWidth at malformed
  unfold decodeRune
  split at malformed
  case h_1 => exact absurd rfl nonempty
  case h_2 first rest =>
    split at malformed
    case isTrue => cases malformed
    case isFalse wide =>
      simp only [if_neg wide]
      split at malformed
      case h_1 => rfl
      case h_2 second rest =>
        split at malformed
        case isTrue two =>
          simp only [if_pos two]
          split at malformed
          case isTrue => cases malformed
          case isFalse broken => rw [if_neg broken]
        case isFalse notTwo =>
          simp only [if_neg notTwo]
          split at malformed
          case h_1 => rfl
          case h_2 third rest =>
            split at malformed
            case isTrue three =>
              simp only [if_pos three]
              split at malformed
              case isTrue => cases malformed
              case isFalse broken => rw [if_neg broken]
            case isFalse notThree =>
              simp only [if_neg notThree]
              split at malformed
              case h_1 => rfl
              case h_2 fourth rest =>
                split at malformed
                case isTrue => cases malformed
                case isFalse broken => simp only [if_neg broken]

theorem continued_lt (byte : UInt8) : continued byte < 64 :=
  Nat.mod_lt _ (by decide)

theorem isContinuation_iff (byte : UInt8) :
    isContinuation byte = true ↔ 0x80 ≤ byte.toNat ∧ byte.toNat ≤ 0xBF := by
  simp only [isContinuation, Bool.and_eq_true, decide_eq_true_eq,
    UInt8.le_iff_toNat_le]
  rfl

theorem ascii_iff (byte : UInt8) : byte < 0x80 ↔ byte.toNat < 0x80 :=
  UInt8.lt_iff_toNat_lt

theorem between_iff (low high byte : UInt8) :
    (low ≤ byte && byte ≤ high) = true ↔
      low.toNat ≤ byte.toNat ∧ byte.toNat ≤ high.toNat := by
  simp only [Bool.and_eq_true, decide_eq_true_eq, UInt8.le_iff_toNat_le]

namespace RuneAt

variable {text : Bytes} {width : Nat}

theorem positive (rune : RuneAt text width) : 0 < width := by
  cases rune <;> decide

theorem width_le (rune : RuneAt text width) : width ≤ text.length := by
  cases rune <;> simp only [List.length_cons] <;> omega

theorem tails (rune : RuneAt text width) :
    ((text.drop 1).take (width - 1)).all isContinuation = true := by
  cases rune with
  | one rest ascii => rfl
  | two rest wide two continuation =>
      simp only [List.drop_succ_cons, List.drop_zero, Nat.add_one_sub_one,
        List.take_succ_cons, List.take_zero, List.all_cons, List.all_nil,
        continuation, Bool.and_self]
  | three rest wide notTwo three continuations =>
      simp only [Bool.and_eq_true] at continuations
      simp only [List.drop_succ_cons, List.drop_zero, Nat.add_one_sub_one,
        List.take_succ_cons, List.take_zero, List.all_cons, List.all_nil,
        continuations, Bool.and_self]
  | four rest wide notTwo notThree continuations =>
      simp only [Bool.and_eq_true] at continuations
      simp only [List.drop_succ_cons, List.drop_zero, Nat.add_one_sub_one,
        List.take_succ_cons, List.take_zero, List.all_cons, List.all_nil,
        continuations, Bool.and_self]

theorem lead {first : UInt8} {rest : Bytes}
    (rune : RuneAt (first :: rest) width) : isContinuation first = false := by
  rw [← Bool.not_eq_true, isContinuation_iff]
  cases rune with
  | one rest ascii =>
      rw [ascii_iff] at ascii
      omega
  | two rest wide two continuation =>
      have range := (between_iff 0xC2 0xDF first).mp two
      have low : (0xC2 : UInt8).toNat = 0xC2 := rfl
      omega
  | three rest wide notTwo three continuations =>
      have range := (between_iff 0xE0 0xEF first).mp three
      have low : (0xE0 : UInt8).toNat = 0xE0 := rfl
      omega
  | four rest wide notTwo notThree continuations =>
      simp only [Bool.and_eq_true] at continuations
      have range := (between_iff 0xF0 0xF4 first).mp
        (by simp only [Bool.and_eq_true]; exact continuations.1.1.1.1.1)
      have low : (0xF0 : UInt8).toNat = 0xF0 := rfl
      omega

theorem runeLen_eq (rune : RuneAt text width) :
    runeLen (decodeRune text) = width := by
  cases rune with
  | @one first rest ascii =>
      simp only [decodeRune, ascii, if_true]
      rw [ascii_iff] at ascii
      simp only [runeLen, ascii, if_true]
  | @two first second rest wide two continuation =>
      simp only [decodeRune, wide, if_false, two, if_true, continuation]
      have range := (between_iff 0xC2 0xDF first).mp two
      have low : (0xC2 : UInt8).toNat = 0xC2 := rfl
      have high : (0xDF : UInt8).toNat = 0xDF := rfl
      have less := continued_lt second
      have above : ¬ first.toNat % 32 * 64 + continued second < 0x80 := by
        omega
      have below : first.toNat % 32 * 64 + continued second < 0x800 := by
        omega
      simp only [runeLen, above, if_false, below, if_true]
  | @three first second third rest wide notTwo three continuations =>
      simp only [decodeRune, wide, if_false, notTwo, Bool.false_eq_true,
        three, if_true, continuations]
      have range := (between_iff 0xE0 0xEF first).mp three
      have low : (0xE0 : UInt8).toNat = 0xE0 := rfl
      have high : (0xEF : UInt8).toNat = 0xEF := rfl
      have lessSecond := continued_lt second
      have lessThird := continued_lt third
      -- the first byte E0 needs a second one from A0 on
      have overlong : first.toNat = 0xE0 → 32 ≤ continued second := by
        intro same
        simp only [Bool.and_eq_true] at continuations
        have first_eq : first = 0xE0 := UInt8.toNat_inj.mp same
        have second_ge : ¬ second < 0xA0 := by
          simpa [first_eq] using continuations.1.2
        have range := (isContinuation_iff second).mp continuations.1.1.1
        rw [UInt8.lt_iff_toNat_lt] at second_ge
        have bound : (0xA0 : UInt8).toNat = 0xA0 := rfl
        simp only [continued]
        omega
      have above : ¬ first.toNat % 16 * 4096 + continued second * 64 +
          continued third < 0x800 := by
        by_cases same : first.toNat = 0xE0
        · have enough := overlong same
          omega
        · omega
      have notAscii : ¬ first.toNat % 16 * 4096 + continued second * 64 +
          continued third < 0x80 := by
        omega
      have below : first.toNat % 16 * 4096 + continued second * 64 +
          continued third < 0x10000 := by
        omega
      simp only [runeLen, notAscii, above, if_false, below, if_true]
  | @four first second third fourth rest wide notTwo notThree
      continuations =>
      simp only [decodeRune, wide, if_false, notTwo, notThree,
        Bool.false_eq_true, continuations, if_true]
      simp only [Bool.and_eq_true] at continuations
      have range := (between_iff 0xF0 0xF4 first).mp
        (by simp only [Bool.and_eq_true]; exact continuations.1.1.1.1.1)
      have low : (0xF0 : UInt8).toNat = 0xF0 := rfl
      have high : (0xF4 : UInt8).toNat = 0xF4 := rfl
      have overlong : first.toNat = 0xF0 → 16 ≤ continued second := by
        intro same
        have first_eq : first = 0xF0 := UInt8.toNat_inj.mp same
        have second_ge : ¬ second < 0x90 := by
          simpa [first_eq] using continuations.1.2
        have range := (isContinuation_iff second).mp continuations.1.1.1.1.2
        rw [UInt8.lt_iff_toNat_lt] at second_ge
        have bound : (0x90 : UInt8).toNat = 0x90 := rfl
        simp only [continued]
        omega
      have above : ¬ first.toNat % 8 * 262144 + continued second * 4096 +
          continued third * 64 + continued fourth < 0x10000 := by
        by_cases same : first.toNat = 0xF0
        · have enough := overlong same
          omega
        · omega
      have notTwoBytes : ¬ first.toNat % 8 * 262144 + continued second * 4096 +
          continued third * 64 + continued fourth < 0x800 := by
        omega
      have notAscii : ¬ first.toNat % 8 * 262144 + continued second * 4096 +
          continued third * 64 + continued fourth < 0x80 := by
        omega
      simp only [runeLen, notAscii, notTwoBytes, above, if_false]

theorem take_append (rune : RuneAt text width) (other : Bytes) :
    RuneAt (text.take width ++ other) width := by
  cases rune with
  | one rest ascii => exact .one _ ascii
  | two rest wide two continuation => exact .two _ wide two continuation
  | three rest wide notTwo three continuations =>
      exact .three _ wide notTwo three continuations
  | four rest wide notTwo notThree continuations =>
      exact .four _ wide notTwo notThree continuations

end RuneAt

theorem runeWidth_continuation {first : UInt8} (rest : Bytes)
    (continuation : isContinuation first = true) :
    runeWidth (first :: rest) = none := by
  cases found : runeWidth (first :: rest) with
  | none => rfl
  | some width =>
      have lead := (runeAt_iff.mp found).lead
      rw [continuation] at lead
      cases lead

end CocoDB.Text
