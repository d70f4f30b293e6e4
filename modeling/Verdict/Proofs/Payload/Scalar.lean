import Verdict.Payload.Basic
import Verdict.Proofs.Payload.Rule

/-!
# Scalars read alike

A scalar is read in two ways: off a value by its shape, and off a draft by trying one kind after the
other. A rule is compiled in the first way and loaded again in the second, so they have to make the
same scalar of every value.
-/

namespace Verdict

open Json (toDraft)
open Results

namespace Json

/-- The scalar that a value stands for. A number is an integer if it is held as one and fits 64
signed bits, and the nearest decimal otherwise. -/
inductive StandsFor : Json → Scalar → Prop
  | boolean (b : Bool) : StandsFor (.bool b) (.boolean b)
  | integer {i : ℤ} : -2 ^ 63 ≤ i → i < 2 ^ 63 → StandsFor (.num (.int i)) (.integer i)
  | decimal {n : Number} : (∀ i, n = .int i → ¬ (-2 ^ 63 ≤ i ∧ i < 2 ^ 63)) →
      StandsFor (.num n) (.decimal n.toBinary64)
  | text (s : String) : StandsFor (.str s) (.text s)

/-- A number is written as an integer of 64 signed bits: without point and exponent, and not as
minus zero. -/
structure WritesInt64 (l : Reader.Lexeme) (i : ℤ) : Prop where
  fraction_eq : l.fraction = none
  exponent_eq : l.exponent = none
  whole_eq : signedWhole l = i
  not_minus_zero : ¬ (l.negative = true ∧ i = 0)
  fits : -2 ^ 63 ≤ i ∧ i < 2 ^ 63

end Json

namespace Scalar

theorem fitsInt64_iff_pow {i : ℤ} : fitsInt64 i = true ↔ -2 ^ 63 ≤ i ∧ i < 2 ^ 63 := by
  rw [fitsInt64_iff]
  norm_num [Binary64.signBit]

/-! ## Values -/

theorem ofJson?_eq_some_iff {j : Json} {s : Scalar} : ofJson? j = some s ↔ j.StandsFor s := by
  constructor
  · intro h
    cases j with
    | bool b =>
      cases h
      exact .boolean b
    | num n =>
      cases n with
      | int i =>
        rw [ofJson?, Option.some.injEq] at h
        split_ifs at h with hfit
        · obtain ⟨hlow, hhigh⟩ := fitsInt64_iff_pow.mp hfit
          exact h ▸ .integer hlow hhigh
        · refine h ▸ .decimal (n := .int i) ?_
          rintro _ ⟨⟩
          exact fun hrange => hfit (fitsInt64_iff_pow.mpr hrange)
      | decimal d =>
        cases h
        refine .decimal (n := .decimal d) ?_
        rintro _ ⟨⟩
    | str t =>
      cases h
      exact .text t
    | null | arr | obj => cases h
  · rintro (_ | ⟨hlow, hhigh⟩ | @⟨_ | _, hn⟩)
    case boolean | text => rfl
    case integer =>
      rw [ofJson?, if_pos (fitsInt64_iff_pow.mpr ⟨hlow, hhigh⟩)]
    case decimal.int i =>
      rw [ofJson?, if_neg (fitsInt64_iff_pow.not.mpr (hn i rfl))]
      rfl
    case decimal.decimal => rfl

/-- What is no scalar is null or made of other values. -/
theorem ofJson?_eq_none_iff {j : Json} :
    ofJson? j = none ↔ j = .null ∨ (∃ xs, j = .arr xs) ∨ ∃ ms, j = .obj ms := by
  cases j with
  | num n => cases n <;> simp [ofJson?]
  | _ => simp [ofJson?]

/-! ## Rules -/

/-- A stored rule is read if a literal is read off its value. -/
theorem ofJson?_rule (input operator ruleType : String) (value : Json) :
    Payload.ofJson? .rule (.obj [("input", .str input), ("operator", .str operator),
      ("ruleType", .str ruleType), ("value", value)]) =
      (ofJson? value).map fun s => .rule ⟨input, operator, s, ruleType⟩ := by
  have hmem : ("value", value) ∈ [("input", Json.str input), ("operator", .str operator),
    ("ruleType", .str ruleType), ("value", value)] := by simp
  rw [Payload.ofJson?, ← toOption_ofDraft_toDraft Json.Draft.depthLimit value]
  cases hs : ofDraft Json.Draft.depthLimit value.toDraft with
  | ok s => rw [Rule.ofDraft_of_value hs, toOption_ok, toOption_ok, Option.map_some, Option.map_some]
  | error f =>
    cases hr : Rule.ofDraft (toDraft (.obj [("input", .str input), ("operator", .str operator),
      ("ruleType", .str ruleType), ("value", value)])) with
    | ok r =>
      obtain ⟨s, hs'⟩ := Rule.exists_value_of_ofDraft hr hmem
      cases hs.symm.trans hs'
    | error f => rfl

/-! ## Texts -/

theorem readWith_eq_integer_iff {l : Json.Reader.Lexeme} (h : l.WellFormed) {i : ℤ} :
    Json.readWith (ofDraft Json.Draft.depthLimit) (String.ofList l.text) = .ok (.integer i) ↔
      Json.WritesInt64 l i := by
  have hsize : (2 : ℤ) ^ 63 < UInt64.size := by decide
  have hsign : (Binary64.signBit : ℤ) = 2 ^ 63 := by decide
  rw [Json.readWith_lexeme _ h, ← toOption_eq_some_iff, toOption_ofDraft]
  simp only [Option.bind_eq_some_iff, toOption_eq_some_iff, ofJson?_eq_some_iff,
    Json.Draft.toJson, map_eq_ok_iff]
  constructor
  · rintro ⟨_, ⟨n, hn, rfl⟩, _ | ⟨hlow, hhigh⟩⟩
    obtain ⟨hfraction, hexponent, hwhole, hzero, -⟩ := Json.value_eq_int_iff.mp hn
    exact ⟨hfraction, hexponent, hwhole, hzero, hlow, hhigh⟩
  · rintro ⟨hfraction, hexponent, hwhole, hzero, hlow, hhigh⟩
    have hrange : (Json.Number.int i).InRange := by constructor <;> omega
    have hvalue := Json.value_eq_int_iff.mpr ⟨hfraction, hexponent, hwhole, hzero, hrange⟩
    exact ⟨_, ⟨.int i, hvalue, rfl⟩, .integer hlow hhigh⟩

/-- Trying the kinds in turn reads off the draft of a value, off the value of a stored rule and off a
text what the shape of the value says: the scalar that the value stands for, and nothing if it is null
or made of other values. A number that a text writes is an integer if it is written as one. -/
theorem readings_agree :
    (∀ j : Json,
      (∀ depth, (ofDraft depth j.toDraft).toOption = ofJson? j) ∧
      (∀ input operator ruleType, Payload.ofJson? .rule (.obj [("input", .str input),
        ("operator", .str operator), ("ruleType", .str ruleType), ("value", j)]) =
          (ofJson? j).map fun s => .rule ⟨input, operator, s, ruleType⟩) ∧
      (∀ s, ofJson? j = some s ↔ j.StandsFor s) ∧
      (ofJson? j = none ↔ j = .null ∨ (∃ xs, j = .arr xs) ∨ ∃ ms, j = .obj ms)) ∧
    (∀ text, (Json.readWith (ofDraft Json.Draft.depthLimit) text).toOption =
      (Json.ofText text).toOption.bind ofJson?) ∧
    ∀ l : Json.Reader.Lexeme, l.WellFormed → ∀ i,
      (Json.readWith (ofDraft Json.Draft.depthLimit) (String.ofList l.text) = .ok (.integer i) ↔
        Json.WritesInt64 l i) := by
  refine ⟨fun j => ⟨fun depth => toOption_ofDraft_toDraft depth j, ?_, fun s => ofJson?_eq_some_iff,
    ofJson?_eq_none_iff⟩, ?_, fun l hl i => readWith_eq_integer_iff hl⟩
  · exact fun input operator ruleType => ofJson?_rule input operator ruleType j
  · exact Json.toOption_readWith (toOption_ofDraft Json.Draft.depthLimit)

/-- The first integer of 64 signed bits, and numbers that are none: the one behind the last of them,
minus zero, and a whole number with a point. -/
theorem readings_agree_corners :
    let read (text : String) := Json.readWith (ofDraft Json.Draft.depthLimit) text
    read "-9223372036854775808" = .ok (.integer (-2 ^ 63)) ∧
      (∀ i, read "9223372036854775808" ≠ .ok (.integer i)) ∧
      (∀ i, read "-0" ≠ .ok (.integer i)) ∧ ∀ i, read "3.0" ≠ .ok (.integer i) := by
  intro read
  obtain ⟨-, -, hwritten⟩ := readings_agree
  have hzero : (⟨true, ['0'], none, none⟩ : Json.Reader.Lexeme).WellFormed :=
    ⟨by simp [Json.Reader.AllDigits], .inl rfl, by simp, by simp⟩
  refine ⟨?_, fun i hi => ?_, fun i hi => ?_, fun i hi => ?_⟩
  · have hfirst := Json.wellFormed_intLexeme (-2 ^ 63)
    exact (hwritten _ hfirst _).mpr ⟨rfl, rfl, by decide, by decide, by decide⟩
  · have hbehind := Json.wellFormed_intLexeme (2 ^ 63)
    obtain ⟨-, -, hwhole, -, -, hhigh⟩ := (hwritten _ hbehind i).mp hi
    have : Json.signedWhole (Json.intLexeme (2 ^ 63)) = 2 ^ 63 := by decide
    omega
  · obtain ⟨-, -, rfl, hminus, -⟩ := (hwritten _ hzero i).mp hi
    exact hminus ⟨rfl, rfl⟩
  · have hpoint := Json.wellFormed_wholeLexeme false (n := 3) (k := 0) (by simp)
    obtain ⟨hfraction, -⟩ := (hwritten _ hpoint i).mp hi
    cases hfraction

end Scalar
end Verdict
