import CocoDB.Text.Words

/-!
# What the scanner returns

The loop of `Tokenize` against the words of the text.
-/

namespace CocoDB.Text

open Lib

section Scan

variable {unicode : Unicode} {lowerRune : Bytes → Bytes}
variable {text : Bytes} {position : Nat} {scanner : Scanner}

/-- The letters and digits that the scanner has read since the last separator -/
structure Opened (text : Bytes) (position : Nat) (scanner : Scanner)
    (opened : List Bytes) : Prop where
  none : scanner.start = none → opened = []
  some : ∀ start, scanner.start = some start →
    opened ≠ [] ∧ start ≤ position ∧ position ≤ text.length ∧
      opened.flatten = slice text start position ∧
      (scanner.hasUpper = false →
        ∀ piece ∈ opened, ∃ byte, isLowerASCII byte = true ∧ piece = [byte])

theorem slice_append {start size : Nat} (start_le : start ≤ position) :
    slice text start (position + size) =
      slice text start position ++ (text.drop position).take size := by
  have stops : position + size - start = (position - start) + size := by omega
  rw [slice, slice, stops, List.take_add, List.drop_drop]
  congr 3
  omega

theorem slice_self : slice text position position = [] := by
  rw [slice, Nat.sub_self, List.take_zero]

theorem lower_of_opened (agrees : unicode.Agrees lowerRune)
    {opened : List Bytes}
    (lower : ∀ piece ∈ opened,
      ∃ byte, isLowerASCII byte = true ∧ piece = [byte]) :
    unicode.toLower opened.flatten = opened.flatten := by
  have ascii : ∀ byte, isLowerASCII byte = true → byte < 0x80 := by
    intro byte isLower
    simp only [isLowerASCII, Bool.or_eq_true, between_iff] at isLower
    rw [ascii_iff]
    have high : (0x7A : UInt8).toNat = 0x7A := rfl
    have nine : (0x39 : UInt8).toNat = 0x39 := rfl
    omega
  have runes : ∀ piece ∈ opened, IsRune piece := by
    intro piece mem
    obtain ⟨byte, isLower, rfl⟩ := lower piece mem
    exact .one [] (ascii byte isLower)
  have same : opened.map lowerRune = opened.map id := by
    refine List.map_congr_left fun piece mem => ?_
    obtain ⟨byte, isLower, rfl⟩ := lower piece mem
    exact agrees.lower byte isLower
  rw [agrees.toLower opened runes, same, List.map_id]

theorem close_tokens (agrees : unicode.Agrees lowerRune)
    {opened : List Bytes} (reads : Opened text position scanner opened)
    {lower : Bool} (decided : lower = false → scanner.hasUpper = false) :
    (scanner.close unicode text lower position).tokens =
        scanner.tokens ++ (if opened = [] then [] else
          [unicode.toLower opened.flatten]) ∧
      (scanner.close unicode text lower position).start = none := by
  unfold Scanner.close
  cases found : scanner.start with
  | none =>
      have none := reads.none found
      simp only [none, if_true, List.append_nil, found, and_self]
  | some start =>
      obtain ⟨nonempty, _, _, content, plain⟩ := reads.some start found
      simp only [nonempty, if_false, and_true]
      cases lower with
      | true => simp only [if_true, content]
      | false =>
          have same := lower_of_opened agrees (plain (decided rfl))
          rw [same, content]
          rfl

theorem Opened.start (scanner : Scanner) (closed : scanner.start = .none) :
    Opened text position scanner [] where
  none _ := rfl
  some start found := by
    rw [closed] at found
    cases found

theorem Opened.lower {byte : UInt8} {opened : List Bytes}
    (reads : Opened text position scanner opened)
    (inside : text[position]? = .some byte)
    (isLower : isLowerASCII byte = true) :
    Opened text (position + 1) (scanner.lower position)
      (opened ++ [[byte]]) := by
  obtain ⟨bound, value⟩ := List.getElem?_eq_some_iff.mp inside
  have front : (text.drop position).take 1 = [byte] := by
    rw [List.drop_eq_getElem_cons bound, value, List.take_succ_cons,
      List.take_zero]
  refine ⟨fun closed => ?_, fun start found => ?_⟩
  · cases was : scanner.start with
    | none => simp only [Scanner.lower, was] at closed; cases closed
    | some start => simp only [Scanner.lower, was] at closed; cases closed
  · refine ⟨List.append_ne_nil_of_right_ne_nil _ (List.cons_ne_nil _ _), ?_⟩
    cases was : scanner.start with
    | none =>
        have empty := reads.none was
        simp only [Scanner.lower, was, Option.some.injEq] at found
        subst found empty
        refine ⟨Nat.le_succ position, bound, ?_, fun _ piece mem => ?_⟩
        · rw [slice_append le_rfl, slice_self, front]
          rfl
        · rw [List.nil_append, List.mem_singleton] at mem
          exact ⟨byte, isLower, mem⟩
    | some earlier =>
        obtain ⟨_, before, _, content, plain⟩ := reads.some earlier was
        simp only [Scanner.lower, was, Option.some.injEq] at found
        subst found
        refine ⟨before.trans (Nat.le_succ position), bound, ?_,
          fun low piece mem => ?_⟩
        · rw [slice_append before, front, List.flatten_append, content]
          rfl
        · simp only [Scanner.lower, was] at low
          rcases List.mem_append.mp mem with old | new
          · exact plain low piece old
          · exact ⟨byte, isLower, List.mem_singleton.mp new⟩

theorem Opened.upper {width : Nat} {opened : List Bytes}
    (reads : Opened text position scanner opened)
    (rune : RuneAt (text.drop position) width) :
    Opened text (position + width) (scanner.upper position)
      (opened ++ [(text.drop position).take width]) := by
  have fits := rune.width_le
  have positive := rune.positive
  rw [List.length_drop] at fits
  refine ⟨fun closed => (nomatch closed), fun start found => ?_⟩
  refine ⟨List.append_ne_nil_of_right_ne_nil _ (List.cons_ne_nil _ _), ?_⟩
  have bound : position + width ≤ text.length := by omega
  simp only [Scanner.upper, Option.some.injEq] at found
  cases was : scanner.start with
  | none =>
      have empty := reads.none was
      rw [was, Option.getD_none] at found
      subst found empty
      refine ⟨Nat.le_add_right _ _, bound, ?_, fun low => nomatch low⟩
      rw [slice_append le_rfl, slice_self]
      simp only [List.nil_append, List.flatten_cons, List.flatten_nil,
        List.append_nil]
  | some earlier =>
      obtain ⟨_, before, _, content, _⟩ := reads.some earlier was
      rw [was, Option.getD_some] at found
      subst found
      refine ⟨before.trans (Nat.le_add_right _ _), bound, ?_,
        fun low => nomatch low⟩
      rw [slice_append before, List.flatten_append, content]
      simp only [List.flatten_cons, List.flatten_nil, List.append_nil]

theorem startsWord_ascii (agrees : unicode.Agrees lowerRune) {byte : UInt8}
    (ascii : byte < 0x80) (rest : Bytes) :
    startsWord unicode (byte :: rest) =
      (isLowerASCII byte || isUpperASCII byte) := by
  rw [← agrees.ascii byte ascii]
  simp only [startsWord, runeWidth, ascii, if_true, Option.isSome_some,
    Bool.true_and, decodeRune]

theorem startsWord_wide (agrees : unicode.Agrees lowerRune) {byte : UInt8}
    (rest : Bytes) :
    startsWord unicode (byte :: rest) =
      isWord unicode (decodeRune (byte :: rest)) := by
  cases found : runeWidth (byte :: rest) with
  | none =>
      have replaced := decodeRune_of_none (List.cons_ne_nil byte rest) found
      rw [startsWord, found, replaced, agrees.replacement]
      rfl
  | some width => rw [startsWord, found, Option.isSome_some, Bool.true_and]

theorem units_word {width : Nat} (rune : RuneAt (text.drop position) width)
    (starts : startsWord unicode (text.drop position) = true) :
    unitsBy unicode scannedWidth 0 (text.drop position) =
      some ((text.drop position).take width) ::
        unitsBy unicode scannedWidth 0 (text.drop (position + width)) := by
  have scanned := scannedWidth_of_rune rune
  have positive := rune.positive
  have later : text.drop (position + width) =
      (text.drop position).drop width := by
    rw [List.drop_drop]
  rw [later]
  generalize text.drop position = front at *
  cases front with
  | nil => cases rune
  | cons byte rest =>
      obtain ⟨less, rfl⟩ : ∃ less, width = less + 1 := ⟨width - 1, by omega⟩
      simp only [unitsBy, starts, if_true, scanned, Nat.add_sub_cancel,
        List.drop_succ_cons]
      rw [unitsBy_skip]

theorem units_separator {byte : UInt8} {rest : Bytes}
    (here : text.drop position = byte :: rest)
    (starts : startsWord unicode (text.drop position) = false) :
    unitsBy unicode scannedWidth 0 (text.drop position) =
      none :: unitsBy unicode scannedWidth 0
        (text.drop (position + scannedWidth (text.drop position))) := by
  have positive : 0 < scannedWidth (text.drop position) := runeLen_pos _
  have later : text.drop (position + scannedWidth (text.drop position)) =
      (text.drop position).drop (scannedWidth (text.drop position)) := by
    rw [List.drop_drop]
  rw [later]
  rw [here] at starts positive ⊢
  obtain ⟨less, width⟩ : ∃ less, scannedWidth (byte :: rest) = less + 1 :=
    ⟨scannedWidth (byte :: rest) - 1, by omega⟩
  simp only [unitsBy, starts, Bool.false_eq_true, if_false, width,
    Nat.add_sub_cancel, List.drop_succ_cons]
  rw [unitsBy_skip]

theorem turn_eq {byte : UInt8} {rest : Bytes}
    (here : text.drop position = byte :: rest) :
    turn unicode text position byte scanner =
      if byte < 128 then
        if isLowerASCII byte then (position + 1, scanner.lower position)
        else if isUpperASCII byte then (position + 1, scanner.upper position)
        else
          (position + 1,
            scanner.close unicode text scanner.hasUpper position)
      else if isWord unicode (decodeRune (text.drop position)) then
        (position + scannedWidth (text.drop position), scanner.upper position)
      else
        (position + scannedWidth (text.drop position),
          scanner.close unicode text true position) := by
  rw [here]
  unfold turn
  rw [here]
  rfl

theorem lower_tokens : (scanner.lower position).tokens = scanner.tokens := by
  unfold Scanner.lower
  split <;> rfl

theorem scan_tokens (agrees : unicode.Agrees lowerRune) {turns : Nat}
    {opened : List Bytes} (enough : text.length ≤ position + turns)
    (reads : Opened text position scanner opened) :
    ((scan unicode text turns position scanner).close unicode text
        (scan unicode text turns position scanner).hasUpper
        text.length).tokens =
      scanner.tokens ++
        (runs opened (unitsBy unicode scannedWidth 0
          (text.drop position))).map
            fun pieces => unicode.toLower pieces.flatten := by
  -- at the end of the text the open run is closed
  have ends : ∀ {position : Nat} {scanner : Scanner} {opened : List Bytes},
      text.length ≤ position → Opened text position scanner opened →
      (scanner.close unicode text scanner.hasUpper text.length).tokens =
        scanner.tokens ++
          (runs opened (unitsBy unicode scannedWidth 0
            (text.drop position))).map
              fun pieces => unicode.toLower pieces.flatten := by
    intro position scanner opened past reads
    have last : Opened text text.length scanner opened := by
      refine ⟨reads.none, fun start found => ?_⟩
      obtain ⟨nonempty, before, fits, content, plain⟩ := reads.some start found
      rw [le_antisymm fits past] at before content
      exact ⟨nonempty, before, le_rfl, content, plain⟩
    rw [(close_tokens agrees last id).1, List.drop_eq_nil_of_le past]
    simp only [unitsBy, runs]
    split <;> rfl
  induction turns generalizing position scanner opened with
  | zero => exact ends (by omega) reads
  | succ turns inductionHypothesis =>
      rw [scan]
      cases inside : text[position]? with
      | none => exact ends (List.getElem?_eq_none_iff.mp inside) reads
      | some byte =>
          obtain ⟨bound, value⟩ := List.getElem?_eq_some_iff.mp inside
          have here : text.drop position = byte :: text.drop (position + 1) :=
            by rw [List.drop_eq_getElem_cons bound, value]
          -- a separator closes the open run
          have separated : ∀ {lower : Bool} {next : Nat},
              (lower = false → scanner.hasUpper = false) →
              startsWord unicode (text.drop position) = false →
              next = position + scannedWidth (text.drop position) →
              ((scan unicode text turns next
                  (scanner.close unicode text lower position)).close unicode
                  text (scan unicode text turns next
                    (scanner.close unicode text lower position)).hasUpper
                  text.length).tokens =
                scanner.tokens ++
                  (runs opened (unitsBy unicode scannedWidth 0
                    (text.drop position))).map
                      fun pieces => unicode.toLower pieces.flatten := by
            intro lower next decided starts moves
            have positive : 0 < scannedWidth (text.drop position) :=
              runeLen_pos _
            obtain ⟨tokens, closed⟩ := close_tokens agrees reads decided
            rw [inductionHypothesis (by omega) (Opened.start _ closed), tokens,
              units_separator here starts, moves, runs, List.map_append,
              List.append_assoc]
            split <;> rfl
          -- a letter or digit joins it
          have joined : ∀ {after : Scanner} {width : Nat},
              RuneAt (text.drop position) width →
              startsWord unicode (text.drop position) = true →
              after.tokens = scanner.tokens →
              Opened text (position + width) after
                (opened ++ [(text.drop position).take width]) →
              ((scan unicode text turns (position + width) after).close unicode
                  text (scan unicode text turns (position + width)
                    after).hasUpper text.length).tokens =
                scanner.tokens ++
                  (runs opened (unitsBy unicode scannedWidth 0
                    (text.drop position))).map
                      fun pieces => unicode.toLower pieces.flatten := by
            intro after width rune starts tokens reads
            have positive := rune.positive
            rw [inductionHypothesis (by omega) reads, tokens,
              units_word rune starts, runs]
          simp only [turn_eq here]
          by_cases ascii : byte < 128
          · have starts := startsWord_ascii agrees ascii
              (text.drop (position + 1))
            rw [← here] at starts
            have rune : RuneAt (text.drop position) 1 := by
              rw [here]
              exact .one _ ascii
            have piece : (text.drop position).take 1 = [byte] := by
              rw [here, List.take_succ_cons, List.take_zero]
            simp only [ascii, if_true]
            by_cases isLower : isLowerASCII byte = true
            · simp only [isLower, if_true]
              rw [isLower, Bool.true_or] at starts
              refine joined rune starts lower_tokens ?_
              rw [piece]
              exact reads.lower inside isLower
            by_cases isUpper : isUpperASCII byte = true
            · simp only [isLower, isUpper, Bool.false_eq_true, if_false,
                if_true]
              rw [isUpper, Bool.or_true] at starts
              exact joined rune starts rfl (reads.upper rune)
            · simp only [isLower, isUpper, Bool.false_eq_true, if_false]
              simp only [isLower, isUpper, Bool.or_self] at starts
              refine separated id starts ?_
              rw [scannedWidth_of_rune rune]
          · have starts := @startsWord_wide unicode lowerRune agrees byte
              (text.drop (position + 1))
            rw [← here] at starts
            simp only [ascii, if_false]
            by_cases word : isWord unicode (decodeRune (text.drop position))
                = true
            · simp only [word, if_true]
              rw [word] at starts
              obtain ⟨width, rune⟩ := startsWord_rune starts
              rw [scannedWidth_of_rune rune]
              exact joined rune starts rfl (reads.upper rune)
            · simp only [word, Bool.false_eq_true, if_false]
              rw [Bool.eq_false_iff.mpr word] at starts
              exact separated
                (fun impossible => absurd impossible.symm Bool.false_ne_true)
                starts rfl

theorem tokenize_eq_words (agrees : unicode.Agrees lowerRune) (text : Bytes) :
    tokenize unicode text = wordsBy unicode scannedWidth text := by
  have start : Opened text 0 ⟨none, false, []⟩ [] := Opened.start _ rfl
  have tokens := scan_tokens agrees (Nat.zero_add text.length).ge start
  rw [List.nil_append, List.drop_zero] at tokens
  exact tokens

end Scan

section Missing

variable {unicode : Unicode} {lowerRune : Bytes → Bytes}
variable {width : Bytes → Nat} {text : Bytes} {units : List (Option Bytes)}

def leads (bytes : Bytes) : Nat :=
  bytes.countP fun byte => !isContinuation byte

theorem leads_rune {piece : Bytes} (rune : IsRune piece) : leads piece = 1 := by
  have tails := rune.tails
  cases piece with
  | nil => cases rune
  | cons first rest =>
      have none : leads rest = 0 := by
        rw [leads, List.countP_eq_zero]
        rw [List.length_cons, Nat.add_sub_cancel, List.drop_succ_cons,
          List.drop_zero, List.take_length] at tails
        intro byte mem
        rw [List.all_eq_true.mp tails byte mem]
        exact Bool.false_ne_true
      rw [leads] at none ⊢
      rw [List.countP_cons, rune.lead, none]
      rfl

theorem leads_flatten {pieces : List Bytes}
    (runes : ∀ piece ∈ pieces, IsRune piece) :
    leads pieces.flatten = pieces.length := by
  induction pieces with
  | nil => rfl
  | cons piece rest inductionHypothesis =>
      have first := leads_rune (runes piece List.mem_cons_self)
      have others := inductionHypothesis fun other mem =>
        runes other (List.mem_cons_of_mem piece mem)
      rw [leads] at first others ⊢
      rw [List.flatten_cons, List.countP_append, first, others,
        List.length_cons, Nat.add_comm]

theorem leads_toLower (agrees : unicode.Agrees lowerRune)
    {pieces : List Bytes} (runes : ∀ piece ∈ pieces, IsRune piece) :
    leads (unicode.toLower pieces.flatten) = pieces.length := by
  rw [agrees.toLower pieces runes, leads_flatten, List.length_map]
  intro lowered mem
  obtain ⟨piece, isPiece, rfl⟩ := List.mem_map.mp mem
  exact agrees.runes piece (runes piece isPiece)

theorem isRune_of_mem (faithful : ∀ {text size}, RuneAt text size →
    width text = size) {skip : Nat} {piece : Bytes}
    (mem : some piece ∈ unitsBy unicode width skip text) : IsRune piece := by
  induction text generalizing skip with
  | nil => exact absurd mem List.not_mem_nil
  | cons byte rest inductionHypothesis =>
      cases skip with
      | succ skip => exact inductionHypothesis mem
      | zero =>
          rcases List.mem_cons.mp mem with here | later
          · split at here
            case isFalse => cases here
            case isTrue starts =>
              obtain ⟨size, rune⟩ := startsWord_rune starts
              rw [Option.some.inj here, faithful rune]
              have whole := rune.take_append []
              rw [List.append_nil] at whole
              rwa [IsRune, List.length_take, min_eq_left rune.width_le]
          · exact inductionHypothesis later

theorem mem_runs {opened pieces : List Bytes} {piece : Bytes}
    (isRun : pieces ∈ runs opened units) (mem : piece ∈ pieces) :
    piece ∈ opened ∨ some piece ∈ units := by
  induction units generalizing opened with
  | nil =>
      rw [runs] at isRun
      split at isRun
      · exact absurd isRun List.not_mem_nil
      · exact Or.inl (List.mem_singleton.mp isRun ▸ mem)
  | cons unit rest inductionHypothesis =>
      cases unit with
      | none =>
          rcases List.mem_append.mp isRun with closed | later
          · split at closed
            · exact absurd closed List.not_mem_nil
            · exact Or.inl (List.mem_singleton.mp closed ▸ mem)
          · rcases inductionHypothesis later with none | found
            · exact absurd none List.not_mem_nil
            · exact Or.inr (List.mem_cons_of_mem _ found)
      | some first =>
          rcases inductionHypothesis isRun with before | found
          · rcases List.mem_append.mp before with old | new
            · exact Or.inl old
            · rw [List.mem_singleton.mp new]
              exact Or.inr List.mem_cons_self
          · exact Or.inr (List.mem_cons_of_mem _ found)

theorem length_runs (opened : List Bytes) (units : List (Option Bytes)) :
    ((runs opened units).map List.length).sum =
      opened.length + wordCount units := by
  induction units generalizing opened with
  | nil =>
      rw [runs]
      split
      case isTrue empty => rw [empty]; rfl
      case isFalse => rfl
  | cons unit rest inductionHypothesis =>
      cases unit with
      | none =>
          rw [runs, List.map_append, List.sum_append, inductionHypothesis,
            List.length_nil, Nat.zero_add, wordCount_none]
          split
          case isTrue empty => rw [empty]; rfl
          case isFalse => rfl
      | some piece =>
          rw [runs, inductionHypothesis, List.length_append,
            List.length_singleton, wordCount_some]
          omega

theorem leads_wordsBy (agrees : unicode.Agrees lowerRune)
    (faithful : ∀ {text size}, RuneAt text size → width text = size)
    (text : Bytes) :
    ((wordsBy unicode width text).map leads).sum =
      wordCount (unitsBy unicode width 0 text) := by
  have lengths : (wordsBy unicode width text).map leads =
      (runs [] (unitsBy unicode width 0 text)).map List.length := by
    rw [wordsBy, List.map_map]
    refine List.map_congr_left fun pieces isRun => ?_
    refine leads_toLower agrees fun piece mem => ?_
    exact isRune_of_mem faithful
      ((mem_runs isRun mem).resolve_left List.not_mem_nil)
  rw [lengths, length_runs, List.length_nil, Nat.zero_add]

end Missing

/-- `Tokenize` returns the specified tokens just when no letter or digit begins
in the two bytes after one that belongs to no rune. -/
theorem tokenize_eq_iff {unicode : Unicode} {lowerRune : Bytes → Bytes}
    (agrees : unicode.Agrees lowerRune) (text : Bytes) :
    tokenize unicode text = specification unicode text ↔
      Clear unicode 0 text := by
  rw [tokenize_eq_words agrees]
  constructor
  · intro same
    have scanned := leads_wordsBy agrees scannedWidth_of_rune text
    have proper := leads_wordsBy agrees properWidth_of_rune text
    rw [same, specification, proper] at scanned
    exact (wordCount_scanned Inside.zero).2 scanned.symm
  · intro clear
    rw [specification, wordsBy, wordsBy,
      runs_eq_of_clear (Or.inl rfl) Inside.zero clear]

/-! ## ASCII -/

def lowerASCII (byte : UInt8) : UInt8 :=
  if isUpperASCII byte then byte + 0x20 else byte

def asciiUnicode : Unicode where
  isLetter rune :=
    decide (0x61 ≤ rune ∧ rune ≤ 0x7A ∨ 0x41 ≤ rune ∧ rune ≤ 0x5A)
  isDigit rune := decide (0x30 ≤ rune ∧ rune ≤ 0x39)
  toLower bytes := bytes.map lowerASCII

theorem isUpperASCII_iff (byte : UInt8) :
    isUpperASCII byte = true ↔ 0x41 ≤ byte.toNat ∧ byte.toNat ≤ 0x5A :=
  between_iff 0x41 0x5A byte

theorem isLowerASCII_iff (byte : UInt8) :
    isLowerASCII byte = true ↔ (0x61 ≤ byte.toNat ∧ byte.toNat ≤ 0x7A) ∨
      (0x30 ≤ byte.toNat ∧ byte.toNat ≤ 0x39) := by
  rw [isLowerASCII, Bool.or_eq_true, between_iff, between_iff]
  rfl

theorem lowerASCII_of_not_upper {byte : UInt8}
    (notUpper : ¬ (0x41 ≤ byte.toNat ∧ byte.toNat ≤ 0x5A)) :
    lowerASCII byte = byte := by
  rw [lowerASCII, if_neg (mt (isUpperASCII_iff byte).mp notUpper)]

theorem lowerASCII_wide {byte : UInt8} (wide : ¬ byte < 0x80) :
    lowerASCII byte = byte := by
  rw [ascii_iff] at wide
  exact lowerASCII_of_not_upper (by omega)

theorem lowerASCII_continuation {byte : UInt8}
    (continuation : isContinuation byte = true) : lowerASCII byte = byte := by
  rw [isContinuation_iff] at continuation
  exact lowerASCII_of_not_upper (by omega)

theorem lowerASCII_ascii {byte : UInt8} (ascii : byte < 0x80) :
    lowerASCII byte < 0x80 := by
  unfold lowerASCII
  split
  case isTrue isUpper =>
      rw [isUpperASCII_iff] at isUpper
      rw [ascii_iff, UInt8.toNat_add]
      have step : (0x20 : UInt8).toNat = 0x20 := rfl
      omega
  case isFalse => exact ascii

theorem RuneAt.lowered {text : Bytes} {width : Nat}
    (rune : RuneAt text width) : RuneAt (text.map lowerASCII) width := by
  cases rune with
  | one rest ascii => exact .one _ (lowerASCII_ascii ascii)
  | two rest wide two continuation =>
      rw [List.map_cons, List.map_cons, lowerASCII_wide wide,
        lowerASCII_continuation continuation]
      exact .two _ wide two continuation
  | three rest wide notTwo three continuations =>
      have all := continuations
      simp only [Bool.and_eq_true] at all
      rw [List.map_cons, List.map_cons, List.map_cons, lowerASCII_wide wide,
        lowerASCII_continuation all.1.1.1, lowerASCII_continuation all.1.1.2]
      exact .three _ wide notTwo three continuations
  | four rest wide notTwo notThree continuations =>
      have all := continuations
      simp only [Bool.and_eq_true] at all
      rw [List.map_cons, List.map_cons, List.map_cons, List.map_cons,
        lowerASCII_wide wide, lowerASCII_continuation all.1.1.1.1.2,
        lowerASCII_continuation all.1.1.1.2,
        lowerASCII_continuation all.1.1.2]
      exact .four _ wide notTwo notThree continuations

theorem asciiUnicode_agrees : asciiUnicode.Agrees fun piece =>
    piece.map lowerASCII where
  ascii byte _ := by
    rw [Bool.eq_iff_iff, Bool.or_eq_true, isLowerASCII_iff, isUpperASCII_iff]
    simp only [isWord, asciiUnicode, Bool.or_eq_true, decide_eq_true_eq]
    omega
  replacement := by decide
  toLower pieces _ := by
    simp only [asciiUnicode, List.map_flatten]
  runes piece rune := by
    rw [IsRune, List.length_map]
    exact rune.lowered
  lower byte isLower := by
    rw [isLowerASCII_iff] at isLower
    rw [List.map_cons, List.map_nil, lowerASCII_of_not_upper (by omega)]
  upper byte isUpper := by
    simp only [List.map_cons, List.map_nil, lowerASCII, isUpper, if_true]

/-- `"\xff Ab1"` -/
def spaced : Bytes := [0xFF, 0x20, 0x2D, 0x41, 0x62, 0x31]

theorem tokenize_spaced :
    tokenize asciiUnicode spaced = specification asciiUnicode spaced ∧
      specification asciiUnicode spaced = [[0x61, 0x62, 0x31]] := by
  refine ⟨(tokenize_eq_iff asciiUnicode_agrees spaced).mpr ?_, by decide⟩
  exact ⟨by decide, by decide, trivial⟩

/-- `"\xffabc"`: two letters after the stray byte are lost. -/
theorem tokenize_loses_letters :
    tokenize asciiUnicode [0xFF, 0x61, 0x62, 0x63] = [[0x63]] ∧
      specification asciiUnicode [0xFF, 0x61, 0x62, 0x63] =
        [[0x61, 0x62, 0x63]] ∧
      tokenize asciiUnicode [0xFF, 0x61, 0x62, 0x63] ≠
        specification asciiUnicode [0xFF, 0x61, 0x62, 0x63] := by
  decide

end CocoDB.Text
