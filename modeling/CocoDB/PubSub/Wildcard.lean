import CocoDB.PubSub.Topic

/-!
# Wildcard patterns

What a pattern stands for, read off the segments of the pattern and of the
topic, and when `matchTopic` agrees: the closing `>` of a pattern also matches
the topic that ends just before it.
-/

namespace CocoDB.PubSub

open Lib

variable {pattern topic : Bytes} {parts topicParts : List Bytes}

/-! ## The meaning of a pattern -/

/-- `strings.Split(name, ".")` -/
def segments (name : Bytes) : List Bytes :=
  name.splitOn 0x2E

def star : Bytes := [0x2A]

def rest : Bytes := [0x3E]

/-- `>` is a segment of the pattern at its end only. -/
def RestLast (parts : List Bytes) : Prop :=
  rest ∉ parts.dropLast

/-- The segments before a closing `>`. -/
def opening (parts : List Bytes) : List Bytes :=
  if parts.getLast? = some rest then parts.dropLast else parts

/-- Each of the segments is `*` or that of the topic at the same position. -/
def Fits (parts topicParts : List Bytes) : Prop :=
  ∀ index (inside : index < parts.length),
    parts[index] = star ∨ topicParts[index]? = some parts[index]

structure Meets (parts topicParts : List Bytes) : Prop where
  fits : Fits (opening parts) topicParts
  length : if parts.getLast? = some rest then
      (opening parts).length < topicParts.length
    else topicParts.length = parts.length

/-- The pattern ends in `>`, and the topic has the segments before it and no
other. -/
structure Bare (parts topicParts : List Bytes) : Prop where
  closed : parts.getLast? = some rest
  fits : Fits (opening parts) topicParts
  length : topicParts.length = (opening parts).length

/-! ## The loop over the segments -/

def Starts (parts topicParts : List Bytes) : Prop :=
  parts.length ≤ topicParts.length ∧ Fits parts topicParts

theorem starts_nil : Starts [] topicParts := by
  constructor
  · exact Nat.zero_le _
  · intro index inside
    exact absurd inside (Nat.not_lt_zero _)

theorem not_starts_cons_nil {part : Bytes} : ¬ Starts (part :: parts) [] := by
  rintro ⟨length, -⟩
  simp at length

theorem starts_cons {part topicPart : Bytes} :
    Starts (part :: parts) (topicPart :: topicParts) ↔
      (part = star ∨ part = topicPart) ∧ Starts parts topicParts := by
  constructor
  · rintro ⟨length, fits⟩
    have first := fits 0 (by simp)
    have others : Fits parts topicParts := by
      intro index inside
      have next := fits (index + 1) (by simpa using inside)
      simpa using next
    have bound : parts.length ≤ topicParts.length := by simpa using length
    refine ⟨?_, bound, others⟩
    simpa [eq_comm] using first
  · rintro ⟨first, length, fits⟩
    constructor
    · simpa using length
    · intro index inside
      cases index with
      | zero => simpa [eq_comm] using first
      | succ index =>
          have next := fits index (by simpa using inside)
          simpa using next

theorem matchParts_cons {part topicPart : Bytes} (differs : part ≠ [0x3E]) :
    matchParts (part :: parts) (topicPart :: topicParts) = true ↔
      (part = star ∨ part = topicPart) ∧
        matchParts parts topicParts = true := by
  rw [matchParts, if_neg differs]
  by_cases covers : part = star ∨ part = topicPart
  · have passes : ¬ (part ≠ [0x2A] ∧ part ≠ topicPart) := by
      rintro ⟨one, other⟩
      exact covers.elim one other
    rw [if_neg passes]
    simp only [covers, true_and]
  · have fails : part ≠ [0x2A] ∧ part ≠ topicPart := by
      simpa [star] using covers
    rw [if_pos fails]
    simp only [covers, false_and, Bool.false_eq_true]

theorem matchParts_plain (plain : rest ∉ parts) :
    matchParts parts topicParts = true ↔
      Starts parts topicParts ∧ topicParts.length = parts.length := by
  induction parts generalizing topicParts with
  | nil => cases topicParts <;> simp [matchParts, starts_nil]
  | cons part parts ih =>
      simp only [List.mem_cons, not_or] at plain
      have differs : part ≠ [0x3E] := Ne.symm plain.1
      cases topicParts with
      | nil => simp [matchParts, differs, not_starts_cons_nil]
      | cons topicPart others =>
          rw [matchParts_cons differs, starts_cons, ih plain.2]
          simp [and_assoc]

/-- With a closing `>` the loop asks for the segments before it only: it stops
at `>` before it looks whether the topic has a segment left. -/
theorem matchParts_closed (plain : rest ∉ parts) :
    matchParts (parts ++ [rest]) topicParts = true ↔
      Starts parts topicParts := by
  induction parts generalizing topicParts with
  | nil => cases topicParts <;> simp [matchParts, rest, starts_nil]
  | cons part parts ih =>
      simp only [List.mem_cons, not_or] at plain
      have differs : part ≠ [0x3E] := Ne.symm plain.1
      cases topicParts with
      | nil => simp [matchParts, differs, not_starts_cons_nil]
      | cons topicPart others =>
          rw [List.cons_append, matchParts_cons differs, starts_cons,
            ih plain.2]

theorem matchParts_self (parts : List Bytes) :
    matchParts parts parts = true := by
  induction parts with
  | nil => rfl
  | cons part parts ih => simp [matchParts, ih]

theorem matchTopic_eq (pattern topic : Bytes) :
    matchTopic pattern topic =
      matchParts (segments pattern) (segments topic) := by
  rw [matchTopic]
  split
  · next short =>
    cases short with
    | inl same => rw [same, matchParts_self]
    | inr single =>
        have parts : segments pattern = [[0x3E]] := by
          rw [single]
          decide
        rw [parts]
        cases segments topic <;> simp [matchParts]
  · rfl

/-! ## When the loop meets the meaning -/

theorem opening_closed (closed : parts.getLast? = some rest) :
    parts = opening parts ++ [rest] := by
  rw [opening, if_pos closed]
  exact (List.dropLast_append_getLast? rest closed).symm

theorem plain_opening (last : RestLast parts) : rest ∉ opening parts := by
  rw [opening]
  split
  · exact last
  · next unclosed =>
    intro member
    cases final : parts.getLast? with
    | none =>
        rw [List.getLast?_eq_none_iff.1 final] at member
        exact absurd member List.not_mem_nil
    | some closing =>
        rw [← List.dropLast_append_getLast? closing final] at member
        simp only [List.mem_append, List.mem_singleton] at member
        cases member with
        | inl before => exact last before
        | inr equal =>
            rw [final, equal] at unclosed
            exact unclosed rfl

/-- `matchParts` accepts the topics of the pattern and those without a segment
in the place of a closing `>`. -/
theorem matchParts_iff (last : RestLast parts) :
    matchParts parts topicParts = true ↔
      Meets parts topicParts ∨ Bare parts topicParts := by
  have plain := plain_opening last
  by_cases closed : parts.getLast? = some rest
  · have loop := @matchParts_closed (opening parts) topicParts plain
    rw [← opening_closed closed] at loop
    rw [loop]
    constructor
    · rintro ⟨bound, fits⟩
      cases Nat.lt_or_eq_of_le bound with
      | inl longer =>
          exact .inl ⟨fits, by rw [if_pos closed]; exact longer⟩
      | inr same => exact .inr ⟨closed, fits, same.symm⟩
    · rintro (⟨fits, length⟩ | ⟨-, fits, length⟩)
      · rw [if_pos closed] at length
        exact ⟨length.le, fits⟩
      · exact ⟨length.ge, fits⟩
  · have whole : opening parts = parts := if_neg closed
    rw [whole] at plain
    rw [matchParts_plain plain]
    constructor
    · rintro ⟨⟨-, fits⟩, length⟩
      exact .inl ⟨by rw [whole]; exact fits,
        by rw [if_neg closed]; exact length⟩
    · rintro (⟨fits, length⟩ | ⟨ends, -, -⟩)
      · rw [whole] at fits
        rw [if_neg closed] at length
        exact ⟨⟨length.ge, fits⟩, length⟩
      · exact absurd ends closed

theorem Bare.not_meets (bare : Bare parts topicParts) :
    ¬ Meets parts topicParts := by
  rintro ⟨-, length⟩
  rw [if_pos bare.closed, bare.length] at length
  exact Nat.lt_irrefl _ length

/-- `matchTopic` gives the meaning of the pattern unless the pattern ends in
`>` and the topic stops where the `>` stands. -/
theorem matchTopic_meets_iff (last : RestLast (segments pattern)) :
    (matchTopic pattern topic = true ↔
        Meets (segments pattern) (segments topic)) ↔
      ¬ Bare (segments pattern) (segments topic) := by
  rw [matchTopic_eq, matchParts_iff last]
  constructor
  · intro agrees bare
    exact bare.not_meets (agrees.1 (.inr bare))
  · intro notBare
    constructor
    · exact fun accepted => accepted.resolve_right notBare
    · exact .inl

/-- `a.*.>` and the topic `a.b.c` -/
theorem matchTopic_meets_three :
    RestLast (segments [0x61, 0x2E, 0x2A, 0x2E, 0x3E]) ∧
      ((matchTopic [0x61, 0x2E, 0x2A, 0x2E, 0x3E]
            [0x61, 0x2E, 0x62, 0x2E, 0x63] = true ↔
          Meets (segments [0x61, 0x2E, 0x2A, 0x2E, 0x3E])
            (segments [0x61, 0x2E, 0x62, 0x2E, 0x63])) ↔
        ¬ Bare (segments [0x61, 0x2E, 0x2A, 0x2E, 0x3E])
          (segments [0x61, 0x2E, 0x62, 0x2E, 0x63])) := by
  have last : RestLast (segments [0x61, 0x2E, 0x2A, 0x2E, 0x3E]) := by
    rw [RestLast]
    decide
  exact ⟨last, matchTopic_meets_iff last⟩

/-- The pattern `a.>` matches the topic `a`, which has no segment for `>`. -/
theorem matchTopic_without_rest :
    ¬ (matchTopic [0x61, 0x2E, 0x3E] [0x61] = true ↔
      Meets (segments [0x61, 0x2E, 0x3E]) (segments [0x61])) := by
  have accepted : matchTopic [0x61, 0x2E, 0x3E] [0x61] = true := by decide
  intro agrees
  have length := (agrees.1 accepted).length
  have closed : (segments [0x61, 0x2E, 0x3E]).getLast? = some rest := by
    decide
  rw [if_pos closed] at length
  exact absurd length (by decide)

end CocoDB.PubSub
