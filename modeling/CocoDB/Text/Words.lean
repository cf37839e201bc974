import CocoDB.Text.Utf8

/-!
# The words of a text

What tokenization is meant to be: the maximal runs of letters and digits in the
text read as UTF-8, a byte that belongs to no rune being a separator.  `Tokenize`
reads the text so except that it passes over the two bytes after such a byte.
-/

namespace CocoDB.Text

open Lib

section Words

variable (unicode : Unicode)

def isWord (rune : Nat) : Bool := unicode.isLetter rune || unicode.isDigit rune

def startsWord (text : Bytes) : Bool :=
  (runeWidth text).isSome && isWord unicode (decodeRune text)

/-- The letters and digits of a text with their bytes, and `none` for every
separator.  `width` is the number of bytes that a rune or a separator takes, and
`skip` counts those that are left of the last one. -/
def unitsBy (width : Bytes → Nat) : (skip : Nat) → Bytes → List (Option Bytes)
  | _, [] => []
  | skip + 1, _ :: rest => unitsBy width skip rest
  | 0, byte :: rest =>
      (if startsWord unicode (byte :: rest) then
        some ((byte :: rest).take (width (byte :: rest)))
      else none) :: unitsBy width (width (byte :: rest) - 1) rest

/-- The maximal runs of letters and digits, after those in `opened` -/
def runs (opened : List Bytes) : List (Option Bytes) → List (List Bytes)
  | [] => if opened = [] then [] else [opened]
  | some piece :: rest => runs (opened ++ [piece]) rest
  | none :: rest => (if opened = [] then [] else [opened]) ++ runs [] rest

def properWidth (text : Bytes) : Nat := (runeWidth text).getD 1

/-- The size that `utf8DecodeRune` reports -/
def scannedWidth (text : Bytes) : Nat := runeLen (decodeRune text)

def wordsBy (width : Bytes → Nat) (text : Bytes) : List Bytes :=
  (runs [] (unitsBy unicode width 0 text)).map fun pieces =>
    unicode.toLower pieces.flatten

def specification (text : Bytes) : List Bytes :=
  wordsBy unicode properWidth text

/-- No letter or digit begins among the bytes that `Tokenize` passes over. -/
def Clear : (skip : Nat) → Bytes → Prop
  | _, [] => True
  | skip + 1, byte :: rest =>
      startsWord unicode (byte :: rest) = false ∧ Clear skip rest
  | 0, byte :: rest => Clear (scannedWidth (byte :: rest) - 1) rest

def isLowerASCII (byte : UInt8) : Bool :=
  (0x61 ≤ byte && byte ≤ 0x7A) || (0x30 ≤ byte && byte ≤ 0x39)

def isUpperASCII (byte : UInt8) : Bool := 0x41 ≤ byte && byte ≤ 0x5A

def IsRune (piece : Bytes) : Prop := RuneAt piece piece.length

/-- What is known of the packages `unicode` and `strings`: they agree with
ASCII, the replacement character is no letter and no digit, and `ToLower` maps a
string rune by rune. -/
structure Unicode.Agrees (unicode : Unicode) (lowerRune : Bytes → Bytes) :
    Prop where
  ascii : ∀ byte : UInt8, byte < 0x80 →
    isWord unicode byte.toNat = (isLowerASCII byte || isUpperASCII byte)
  replacement : isWord unicode runeError = false
  toLower : ∀ pieces : List Bytes, (∀ piece ∈ pieces, IsRune piece) →
    unicode.toLower pieces.flatten = (pieces.map lowerRune).flatten
  runes : ∀ piece, IsRune piece → IsRune (lowerRune piece)
  lower : ∀ byte, isLowerASCII byte = true → lowerRune [byte] = [byte]
  upper : ∀ byte, isUpperASCII byte = true → lowerRune [byte] = [byte + 0x20]

end Words

section Widths

variable {unicode : Unicode} {text : Bytes} {skip inside : Nat}

theorem properWidth_of_rune {width : Nat} (rune : RuneAt text width) :
    properWidth text = width := by
  rw [properWidth, runeAt_iff.mpr rune, Option.getD_some]

theorem scannedWidth_of_rune {width : Nat} (rune : RuneAt text width) :
    scannedWidth text = width :=
  rune.runeLen_eq

theorem startsWord_rune (starts : startsWord unicode text = true) :
    ∃ width, RuneAt text width := by
  simp only [startsWord, Bool.and_eq_true] at starts
  obtain ⟨width, found⟩ := Option.isSome_iff_exists.mp starts.1
  exact ⟨width, runeAt_iff.mp found⟩

theorem startsWord_continuation {byte : UInt8} (rest : Bytes)
    (continuation : isContinuation byte = true) :
    startsWord unicode (byte :: rest) = false := by
  simp only [startsWord, runeWidth_continuation rest continuation,
    Option.isSome_none, Bool.false_and]

def Inside (inside : Nat) (text : Bytes) : Prop :=
  (text.take inside).all isContinuation = true

theorem Inside.cons {byte : UInt8} {rest : Bytes}
    (within : Inside (inside + 1) (byte :: rest)) :
    isContinuation byte = true ∧ Inside inside rest := by
  simpa only [Inside, List.take_succ_cons, List.all_cons,
    Bool.and_eq_true] using within

theorem Inside.zero : Inside 0 text := rfl

theorem inside_proper (byte : UInt8) (rest : Bytes) :
    Inside (properWidth (byte :: rest) - 1) rest := by
  cases found : runeWidth (byte :: rest) with
  | none =>
      rw [properWidth, found]
      exact Inside.zero
  | some width =>
      have rune := runeAt_iff.mp found
      rw [properWidth_of_rune rune]
      exact rune.tails

/-- Where nothing is passed over, both readings have the same runs: they differ
only in the number of separators. -/
theorem runs_eq_of_clear {opened : List Bytes}
    (together : skip = inside ∨ opened = []) (within : Inside inside text)
    (clear : Clear unicode skip text) :
    runs opened (unitsBy unicode scannedWidth skip text) =
      runs opened (unitsBy unicode properWidth inside text) := by
  induction text generalizing skip inside opened with
  | nil => rfl
  | cons byte rest inductionHypothesis =>
      cases skip with
      | succ skip =>
          rw [Clear] at clear
          cases inside with
          | succ inside =>
              simp only [unitsBy]
              exact inductionHypothesis
                (together.imp_left Nat.succ.inj) within.cons.2 clear.2
          | zero =>
              have none := together.resolve_left (Nat.succ_ne_zero skip)
              subst none
              simp only [unitsBy, clear.1, Bool.false_eq_true, if_false, runs,
                if_true, List.nil_append]
              exact inductionHypothesis (Or.inr rfl) (inside_proper byte rest)
                clear.2
      | zero =>
          rw [Clear] at clear
          cases inside with
          | succ inside =>
              have none := together.resolve_left (Nat.succ_ne_zero inside).symm
              subst none
              obtain ⟨continuation, within⟩ := within.cons
              simp only [unitsBy, startsWord_continuation rest continuation,
                Bool.false_eq_true, if_false, runs, if_true, List.nil_append]
              exact inductionHypothesis (Or.inr rfl) within clear
          | zero =>
              simp only [unitsBy]
              by_cases starts : startsWord unicode (byte :: rest) = true
              · obtain ⟨width, rune⟩ := startsWord_rune starts
                have proper := inside_proper byte rest
                simp only [starts, if_true, runs, scannedWidth_of_rune rune,
                  properWidth_of_rune rune] at clear proper ⊢
                exact inductionHypothesis (Or.inl rfl) proper clear
              · simp only [starts, Bool.false_eq_true, if_false, runs]
                rw [inductionHypothesis (Or.inr rfl)
                  (inside_proper byte rest) clear]

theorem unitsBy_skip (width : Bytes → Nat) (skip : Nat) (text : Bytes) :
    unitsBy unicode width skip text =
      unitsBy unicode width 0 (text.drop skip) := by
  induction text generalizing skip with
  | nil => rw [List.drop_nil]; cases skip <;> rfl
  | cons byte rest inductionHypothesis =>
      cases skip with
      | zero => rfl
      | succ skip => exact inductionHypothesis skip

def wordCount (units : List (Option Bytes)) : Nat :=
  (units.filterMap id).length

@[simp] theorem wordCount_nil : wordCount [] = 0 := rfl

@[simp] theorem wordCount_none (units : List (Option Bytes)) :
    wordCount (none :: units) = wordCount units := rfl

@[simp] theorem wordCount_some (piece : Bytes) (units : List (Option Bytes)) :
    wordCount (some piece :: units) = wordCount units + 1 := rfl

theorem wordCount_scanned (within : Inside inside text) :
    wordCount (unitsBy unicode scannedWidth skip text) ≤
        wordCount (unitsBy unicode properWidth inside text) ∧
      (wordCount (unitsBy unicode scannedWidth skip text) =
          wordCount (unitsBy unicode properWidth inside text) →
        Clear unicode skip text) := by
  induction text generalizing skip inside with
  | nil =>
      refine ⟨le_rfl, fun _ => ?_⟩
      cases skip <;> trivial
  | cons byte rest inductionHypothesis =>
      cases skip with
      | succ skip =>
          cases inside with
          | succ inside =>
              obtain ⟨continuation, within⟩ := within.cons
              obtain ⟨less, same⟩ := @inductionHypothesis skip _ within
              exact ⟨less, fun equal =>
                ⟨startsWord_continuation rest continuation, same equal⟩⟩
          | zero =>
              obtain ⟨less, same⟩ := @inductionHypothesis skip _
                (inside_proper byte rest)
              simp only [unitsBy, Clear]
              by_cases starts : startsWord unicode (byte :: rest) = true
              · simp only [starts, if_true, wordCount_some]
                exact ⟨by omega, fun equal => by omega⟩
              · simp only [starts, Bool.false_eq_true, if_false,
                  wordCount_none]
                exact ⟨less, fun equal => ⟨trivial, same equal⟩⟩
      | zero =>
          cases inside with
          | succ inside =>
              obtain ⟨continuation, within⟩ := within.cons
              simp only [unitsBy, Clear,
                startsWord_continuation rest continuation,
                Bool.false_eq_true, if_false, wordCount_none]
              exact inductionHypothesis within
          | zero =>
              obtain ⟨less, same⟩ := @inductionHypothesis
                (scannedWidth (byte :: rest) - 1) _ (inside_proper byte rest)
              simp only [unitsBy, Clear]
              by_cases starts : startsWord unicode (byte :: rest) = true
              · simp only [starts, if_true, wordCount_some]
                exact ⟨by omega, fun equal => same (Nat.succ.inj equal)⟩
              · simp only [starts, Bool.false_eq_true, if_false,
                  wordCount_none]
                exact ⟨less, same⟩

end Widths

end CocoDB.Text
