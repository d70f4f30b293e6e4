import Mathlib
import Verdict.Json.Reader

/-!
# Number lexemes

A number is read off its text part by part. A lexeme that is spelled as JSON asks for is read back as
it was, whatever stands after it, as long as that does not go on with the number.
-/

namespace Verdict.Json.Reader

/-- All characters are decimal digits. -/
def AllDigits (cs : List Char) : Prop := ∀ c ∈ cs, c.isDigit = true

/-- A text that does not go on with a number. -/
def EndsNumber (cs : List Char) : Prop :=
  ∀ c ∈ cs.head?, c.isDigit = false ∧ c ≠ '.' ∧ c ≠ 'e' ∧ c ≠ 'E'

theorem endsNumber_nil : EndsNumber [] := by
  intro c hc
  simp at hc

theorem endsNumber_cons {c : Char} (h : c.isDigit = false ∧ c ≠ '.' ∧ c ≠ 'e' ∧ c ≠ 'E')
    (cs : List Char) : EndsNumber (c :: cs) := by
  intro c' hc
  rw [List.head?_cons, Option.mem_some_iff] at hc
  exact hc ▸ h

/-- Digits end where the text goes on with something else. -/
def EndsDigits (cs : List Char) : Prop := ∀ c ∈ cs.head?, c.isDigit = false

theorem EndsNumber.endsDigits {cs : List Char} (h : EndsNumber cs) : EndsDigits cs :=
  fun c hc => (h c hc).1

theorem endsDigits_cons {c : Char} (h : c.isDigit = false) (cs : List Char) :
    EndsDigits (c :: cs) := by
  intro c' hc
  rw [List.head?_cons, Option.mem_some_iff] at hc
  exact hc ▸ h

theorem takeWhile_digits {ds rest : List Char} (hds : AllDigits ds) (hrest : EndsDigits rest) :
    (ds ++ rest).takeWhile Char.isDigit = ds ∧ (ds ++ rest).dropWhile Char.isDigit = rest := by
  have hstop : rest.takeWhile Char.isDigit = [] ∧ rest.dropWhile Char.isDigit = rest := by
    cases rest with
    | nil => exact ⟨rfl, rfl⟩
    | cons c cs =>
      have := hrest c (by simp)
      simp [this]
  rw [List.takeWhile_append_of_pos hds, List.dropWhile_append_of_pos hds, hstop.1, hstop.2]
  simp

/-! ## The text of a lexeme -/

/-- The fraction of a number with its point. -/
def fractionText : Option (List Char) → List Char
  | none => []
  | some ds => '.' :: ds

/-- The exponent of a number with its sign. -/
def exponentText : Option (Bool × List Char) → List Char
  | none => []
  | some (negative, ds) => 'e' :: (if negative then '-' else '+') :: ds

namespace Lexeme

/-- A lexeme without its sign. -/
def unsignedText (l : Lexeme) : List Char :=
  l.whole ++ (fractionText l.fraction ++ exponentText l.exponent)

/-- A lexeme as it is written. -/
def text (l : Lexeme) : List Char :=
  if l.negative then '-' :: l.unsignedText else l.unsignedText

/-- The parts of a lexeme are what JSON allows. -/
structure WellFormed (l : Lexeme) : Prop where
  whole_digits : AllDigits l.whole
  /-- The first of several digits is not zero. -/
  whole_head : l.whole = ['0'] ∨ ∃ c cs, l.whole = c :: cs ∧ c ≠ '0'
  fraction_digits : ∀ ds ∈ l.fraction, ds ≠ [] ∧ AllDigits ds
  exponent_digits : ∀ e ∈ l.exponent, e.2 ≠ [] ∧ AllDigits e.2

end Lexeme

theorem exponentPart_eq {l : Lexeme} {exponent : Option (Bool × List Char)} {rest : List Char}
    (h : ∀ e ∈ exponent, e.2 ≠ [] ∧ AllDigits e.2) (hl : l.exponent = none)
    (hrest : EndsNumber rest) :
    exponentPart l (exponentText exponent ++ rest) =
      completeNumber { l with exponent := exponent } rest := by
  cases exponent with
  | none =>
    obtain ⟨negative, whole, fraction, exponent⟩ := l
    cases hl
    cases rest with
    | nil => rfl
    | cons c cs =>
      obtain ⟨-, -, he, hE⟩ := hrest c (by simp)
      simp [exponentText, exponentPart, he, hE]
  | some e =>
    obtain ⟨negative, ds⟩ := e
    obtain ⟨hne, hds⟩ := h _ rfl
    obtain ⟨htake, hdrop⟩ := takeWhile_digits hds hrest.endsDigits
    have hempty : ds.isEmpty = false := by simpa using hne
    cases negative with
    | true => simp [exponentText, exponentPart, htake, hdrop, hempty]
    | false => simp [exponentText, exponentPart, htake, hdrop, hempty]

theorem endsDigits_exponentText (exponent : Option (Bool × List Char)) {rest : List Char}
    (hrest : EndsNumber rest) : EndsDigits (exponentText exponent ++ rest) := by
  cases exponent with
  | none => exact hrest.endsDigits
  | some e => exact endsDigits_cons rfl _

theorem fractionPart_eq {l : Lexeme} {fraction : Option (List Char)} {rest : List Char}
    (h : ∀ ds ∈ fraction, ds ≠ [] ∧ AllDigits ds) (hl : l.fraction = none)
    (hrest : EndsDigits rest) (hpoint : ∀ c ∈ rest.head?, c ≠ '.') :
    fractionPart l (fractionText fraction ++ rest) =
      exponentPart { l with fraction := fraction } rest := by
  cases fraction with
  | none =>
    obtain ⟨negative, whole, fraction, exponent⟩ := l
    cases hl
    cases rest with
    | nil => rfl
    | cons c cs =>
      have hc : c ≠ '.' := hpoint c (by simp)
      simp only [fractionText, List.nil_append]
      unfold fractionPart
      split
      · simp_all
      · rfl
  | some ds =>
    obtain ⟨hne, hds⟩ := h _ rfl
    obtain ⟨htake, hdrop⟩ := takeWhile_digits hds hrest
    have hempty : ds.isEmpty = false := by simpa using hne
    simp [fractionText, fractionPart, htake, hdrop, hempty]

theorem endsDigits_fractionText (fraction : Option (List Char)) {rest : List Char}
    (hrest : EndsDigits rest) : EndsDigits (fractionText fraction ++ rest) := by
  cases fraction with
  | none => exact hrest
  | some ds => exact endsDigits_cons rfl _

theorem head_exponentText_ne_point (exponent : Option (Bool × List Char)) {rest : List Char}
    (hrest : EndsNumber rest) : ∀ c ∈ (exponentText exponent ++ rest).head?, c ≠ '.' := by
  cases exponent with
  | none => exact fun c hc => (hrest c hc).2.1
  | some e =>
    intro c hc
    rw [exponentText, List.cons_append, List.head?_cons, Option.mem_some_iff] at hc
    rw [← hc]
    decide

/-- A well-formed lexeme is read back from its text. -/
theorem unsignedNumber_eq {l : Lexeme} (h : l.WellFormed) {rest : List Char}
    (hrest : EndsNumber rest) :
    unsignedNumber l.negative (l.unsignedText ++ rest) = completeNumber l rest := by
  have hexponent := endsDigits_exponentText l.exponent hrest
  obtain ⟨htake, hdrop⟩ := takeWhile_digits h.whole_digits
    (endsDigits_fractionText l.fraction hexponent)
  have hread : fractionPart ⟨l.negative, l.whole, none, none⟩
      (fractionText l.fraction ++ (exponentText l.exponent ++ rest)) = completeNumber l rest := by
    rw [fractionPart_eq h.fraction_digits rfl hexponent
      (head_exponentText_ne_point l.exponent hrest), exponentPart_eq h.exponent_digits rfl hrest]
  unfold unsignedNumber Lexeme.unsignedText
  rw [List.append_assoc, List.append_assoc]
  dsimp only
  rw [htake, hdrop]
  rcases h.whole_head with hw | ⟨c, cs, hw, hc⟩
  · rw [hw] at hread ⊢
    exact hread
  · rw [hw] at hread ⊢
    split
    case h_1 heq => cases heq
    case h_2 heq =>
      cases heq
      exact absurd rfl hc
    case h_3 => exact hread

/-- The first character of an unsigned text is a digit. -/
theorem Lexeme.WellFormed.exists_digit {l : Lexeme} (h : l.WellFormed) :
    ∃ c cs, l.unsignedText = c :: cs ∧ c.isDigit = true := by
  have hw := h.whole_digits
  unfold unsignedText
  rcases h.whole_head with hz | ⟨c, cs, hz, -⟩
  · exact ⟨'0', _, by rw [hz]; rfl, rfl⟩
  · refine ⟨c, _, by rw [hz]; rfl, hw c ?_⟩
    rw [hz]
    exact List.mem_cons_self

end Verdict.Json.Reader
