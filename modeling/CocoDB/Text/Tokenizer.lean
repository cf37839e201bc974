import CocoDB.Lib.Buffer

/-!
# The tokenizer

`internal/text/tokenizer.go`: one pass over the bytes of a text that cuts it into
runs of letters and digits.  The tables of the `unicode` package are parameters.
-/

namespace CocoDB.Text

open Lib

/-- What the code takes from the packages `unicode` and `strings`. -/
structure Unicode where
  isLetter : Nat → Bool
  isDigit : Nat → Bool
  toLower : Bytes → Bytes

def runeError : Nat := 0xFFFD

def isContinuation (byte : UInt8) : Bool := 0x80 ≤ byte && byte ≤ 0xBF

def continued (byte : UInt8) : Nat := byte.toNat % 64

/-- The first rune of a `range` over a string. -/
def decodeRune : Bytes → Nat
  | [] => 0
  | first :: rest =>
      if first < 0x80 then first.toNat
      else
        match rest with
        | [] => runeError
        | second :: rest =>
            if 0xC2 ≤ first && first ≤ 0xDF then
              if isContinuation second then
                first.toNat % 32 * 64 + continued second
              else runeError
            else
              match rest with
              | [] => runeError
              | third :: rest =>
                  if 0xE0 ≤ first && first ≤ 0xEF then
                    if isContinuation second && isContinuation third &&
                        !(first == 0xE0 && second < 0xA0) &&
                        !(first == 0xED && 0x9F < second) then
                      first.toNat % 16 * 4096 + continued second * 64 +
                        continued third
                    else runeError
                  else
                    match rest with
                    | [] => runeError
                    | fourth :: _ =>
                        if 0xF0 ≤ first && first ≤ 0xF4 &&
                            isContinuation second && isContinuation third &&
                            isContinuation fourth &&
                            !(first == 0xF0 && second < 0x90) &&
                            !(first == 0xF4 && 0x8F < second) then
                          first.toNat % 8 * 262144 + continued second * 4096 +
                            continued third * 64 + continued fourth
                        else runeError

/-- `len(string(r))` -/
def runeLen (rune : Nat) : Nat :=
  if rune < 0x80 then 1
  else if rune < 0x800 then 2
  else if rune < 0x10000 then 3
  else 4

/-- `utf8DecodeRune`, whose size is that of the rune it returns -/
def utf8DecodeRune : Bytes → Nat × Nat
  | [] => (0, 1)
  | text => (decodeRune text, runeLen (decodeRune text))

/-- The variables of the loop; `start` is the beginning of the run that is
open. -/
structure Scanner where
  start : Option Nat
  hasUpper : Bool
  tokens : List Bytes

section Tokenize

variable (unicode : Unicode) (text : Bytes)

/-- `text[start:stop]` -/
def slice (start stop : Nat) : Bytes := (text.drop start).take (stop - start)

namespace Scanner

/-- Close the open run, lower-casing it if `lower` says so. -/
def close (lower : Bool) (stop : Nat) (scanner : Scanner) : Scanner :=
  match scanner.start with
  | none => scanner
  | some start =>
      { scanner with
        start := none
        tokens := scanner.tokens ++
          [if lower then unicode.toLower (slice text start stop)
            else slice text start stop] }

def lower (position : Nat) (scanner : Scanner) : Scanner :=
  match scanner.start with
  | none => { scanner with start := some position, hasUpper := false }
  | some _ => scanner

def upper (position : Nat) (scanner : Scanner) : Scanner :=
  { scanner with
    start := some (scanner.start.getD position)
    hasUpper := true }

end Scanner

/-- One turn of the loop on the byte at a position: the next position and the
variables. -/
def turn (position : Nat) (byte : UInt8) (scanner : Scanner) : Nat × Scanner :=
  if byte < 128 then
    if (0x61 ≤ byte && byte ≤ 0x7A) || (0x30 ≤ byte && byte ≤ 0x39) then
      (position + 1, scanner.lower position)
    else if 0x41 ≤ byte && byte ≤ 0x5A then
      (position + 1, scanner.upper position)
    else
      (position + 1, scanner.close unicode text scanner.hasUpper position)
  else
    let (rune, size) := utf8DecodeRune (text.drop position)
    if unicode.isLetter rune || unicode.isDigit rune then
      (position + size, scanner.upper position)
    else
      (position + size, scanner.close unicode text true position)

/-- The loop.  Every turn moves on, so that as many turns as there are bytes are
enough. -/
def scan : (turns position : Nat) → Scanner → Scanner
  | 0, _, scanner => scanner
  | turns + 1, position, scanner =>
      match text[position]? with
      | none => scanner
      | some byte =>
          let (next, after) := turn unicode text position byte scanner
          scan turns next after

def tokenize : List Bytes :=
  let scanner := scan unicode text text.length 0 ⟨none, false, []⟩
  (scanner.close unicode text scanner.hasUpper text.length).tokens

end Tokenize

/-! ## The loop ends by itself -/

theorem runeLen_pos (rune : Nat) : 0 < runeLen rune := by
  unfold runeLen
  split
  · decide
  · split
    · decide
    · split <;> decide

end CocoDB.Text
