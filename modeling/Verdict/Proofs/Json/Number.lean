import Mathlib
import Verdict.Json.Printer
import Verdict.Proofs.Decimal.Shortest
import Verdict.Proofs.Json.Lexeme

/-!
# Numbers read back

Every number that a text can hold is written as a well-formed lexeme of the same value: an integer
digit by digit, a decimal by the digits of its shortest decimal, with the point or the exponent where
the layout puts them.
-/

namespace Verdict.Json

open Reader (AllDigits Lexeme)

/-- A number that a text can hold: an integer of 64 bits, or a finite decimal. -/
def Number.InRange : Number → Prop
  | .int i => -(Binary64.signBit : ℤ) ≤ i ∧ i < UInt64.size
  | .decimal d => d.isFinite = true

/-! ## Digits -/

theorem allDigits_toDigits (n : ℕ) : AllDigits (Nat.toDigits 10 n) :=
  fun _ hc => Nat.isDigit_of_mem_toDigits (by decide) (by decide) hc

theorem toDigits_head {n : ℕ} (h : n ≠ 0) :
    ∃ c cs, Nat.toDigits 10 n = c :: cs ∧ c ≠ '0' := by
  induction n using Nat.strongRecOn with
  | _ n ih =>
    by_cases hn : n < 10
    · refine ⟨n.digitChar, [], Nat.toDigits_of_lt_base hn, ?_⟩
      interval_cases n <;> first | exact absurd rfl h | decide
    · obtain ⟨c, cs, hd, hc⟩ := ih (n / 10) (by omega) (by omega)
      rw [Nat.toDigits_of_base_le (by decide) (by omega), hd]
      exact ⟨c, _, rfl, hc⟩

/-- The digits of a number start like the whole part of a lexeme. -/
theorem toDigits_whole_head (n : ℕ) :
    Nat.toDigits 10 n = ['0'] ∨ ∃ c cs, Nat.toDigits 10 n = c :: cs ∧ c ≠ '0' := by
  by_cases h : n = 0
  · left
    rw [h]
    rfl
  · exact .inr (toDigits_head h)

theorem decimalValue_eq (ds : List Char) : Text.decimalValue ds = Nat.ofDigitChars 10 ds 0 := rfl

@[simp] theorem decimalValue_toDigits (n : ℕ) : Text.decimalValue (Nat.toDigits 10 n) = n := by
  rw [decimalValue_eq, Nat.ofDigitChars_ten_toDigits]

/-! ## Integers -/

theorem toList_toString_int (i : ℤ) :
    (toString i).toList = if i < 0 then '-' :: Nat.toDigits 10 i.natAbs
      else Nat.toDigits 10 i.natAbs := by
  cases i with
  | ofNat n =>
    change (Nat.repr n).toList = _
    simp
  | negSucc n =>
    change ("-" ++ Nat.repr (n + 1)).toList = _
    simp [Int.negSucc_lt_zero]

/-- The lexeme of an integer. -/
def intLexeme (i : ℤ) : Lexeme := ⟨i < 0, Nat.toDigits 10 i.natAbs, none, none⟩

theorem wellFormed_intLexeme (i : ℤ) : (intLexeme i).WellFormed where
  whole_digits := allDigits_toDigits _
  whole_head := toDigits_whole_head _
  fraction_digits := by simp [intLexeme]
  exponent_digits := by simp [intLexeme]

theorem text_intLexeme (i : ℤ) : (intLexeme i).text = writeNumber (.int i) := by
  rw [writeNumber, toList_toString_int]
  simp [Lexeme.text, Lexeme.unsignedText, intLexeme, Reader.fractionText, Reader.exponentText]

theorem value_intLexeme {i : ℤ} (h : (Number.int i).InRange) : (intLexeme i).value = .ok (.int i) := by
  obtain ⟨hl, hu⟩ := h
  by_cases hi : i < 0
  · have hrange : 0 < i.natAbs ∧ i.natAbs ≤ Binary64.signBit := by omega
    have habs : -(i.natAbs : ℤ) = i := by omega
    simp only [Lexeme.value, intLexeme, decimalValue_toDigits, hi, decide_true, if_true, if_pos hrange,
      habs]
  · have hrange : i.natAbs < UInt64.size := by omega
    have habs : (i.natAbs : ℤ) = i := by omega
    simp only [Lexeme.value, intLexeme, decimalValue_toDigits, hi, decide_false, Bool.false_eq_true,
      if_false, if_pos hrange, habs]

/-! ## Decimals -/

/-- The digits of a lexeme on both sides of the point. -/
def digits (l : Lexeme) : ℕ := Text.decimalValue (l.whole ++ l.fraction.getD [])

/-- The place of the last digit of a lexeme. -/
def scale (l : Lexeme) : ℤ :=
  (match l.exponent with
    | none => 0
    | some (negative, ds) => Reader.exponentValue negative ds) - (l.fraction.getD []).length

/-- A lexeme with a point or an exponent is a decimal. -/
theorem value_of_fraction_or_exponent (l : Lexeme) (hl : l.fraction ≠ none ∨ l.exponent ≠ none) :
    l.value = if (Binary64.ofDecimal l.negative (digits l) (scale l)).isFinite then
        .ok (.decimal (Binary64.ofDecimal l.negative (digits l) (scale l)))
      else .error .malformed := by
  obtain ⟨negative, whole, fraction, exponent⟩ := l
  rcases fraction with _ | fraction
  · rcases exponent with _ | exponent
    · simp at hl
    · rfl
  · rfl

/-- The digits of a lexeme before the point, with its sign. -/
def signedWhole (l : Lexeme) : ℤ :=
  if l.negative then -(Text.decimalValue l.whole : ℤ) else Text.decimalValue l.whole

theorem ne_int_of_decimal (d : Binary64) (i : ℤ) :
    (if d.isFinite then .ok (.decimal d) else .error .malformed : Except Flaw Number) ≠
      .ok (.int i) := by
  split_ifs <;> simp

/-- A lexeme is an integer if it has neither point nor exponent and fits 64 bits; minus zero is
none. -/
theorem value_eq_int_iff {l : Lexeme} {i : ℤ} :
    l.value = .ok (.int i) ↔ l.fraction = none ∧ l.exponent = none ∧ signedWhole l = i ∧
      ¬ (l.negative = true ∧ i = 0) ∧ (Number.int i).InRange := by
  by_cases hl : l.fraction ≠ none ∨ l.exponent ≠ none
  · rw [value_of_fraction_or_exponent l hl]
    refine iff_of_false (ne_int_of_decimal _ i) ?_
    rintro ⟨hf, he, -⟩
    exact hl.elim (· hf) (· he)
  · push Not at hl
    obtain ⟨hf, he⟩ := hl
    have hsize : (0 : ℤ) < UInt64.size := by decide
    simp only [Lexeme.value, hf, he, signedWhole, Number.InRange, true_and]
    cases l.negative with
    | true =>
      simp only [if_true, true_and]
      by_cases hfit : 0 < Text.decimalValue l.whole ∧ Text.decimalValue l.whole ≤ Binary64.signBit
      · rw [if_pos hfit, Except.ok.injEq, Number.int.injEq]
        omega
      · rw [if_neg hfit]
        exact iff_of_false (ne_int_of_decimal _ i) (by omega)
    | false =>
      simp only [Bool.false_eq_true, if_false, false_and, not_false_eq_true, true_and]
      by_cases hfit : Text.decimalValue l.whole < UInt64.size
      · rw [if_pos hfit, Except.ok.injEq, Number.int.injEq]
        omega
      · rw [if_neg hfit]
        exact iff_of_false (ne_int_of_decimal _ i) (by omega)

theorem value_of_eq_shortest {l : Lexeme} {d : Binary64} (finite : d.isFinite = true)
    (tie : Decimal.Tie) (hl : l.fraction ≠ none ∨ l.exponent ≠ none) (hneg : l.negative = d.negative)
    (h : Decimal.decimalValue (digits l) (scale l) =
      Decimal.decimalValue (Decimal.shortest tie d).digits (Decimal.shortest tie d).exponent) :
    l.value = .ok (.decimal d) := by
  rw [value_of_fraction_or_exponent l hl, hneg, Decimal.ofDecimal_of_eq_shortest finite tie h,
    if_pos finite]

/-- The value of a decimal does not depend on the zeros behind its last digit. -/
theorem decimalValue_mul_pow (n k : ℕ) (exponent : ℤ) :
    Decimal.decimalValue (10 ^ k * n) (exponent - k) = Decimal.decimalValue n exponent := by
  rw [Decimal.decimalValue, Decimal.decimalValue, zpow_sub₀ (by norm_num), zpow_natCast]
  push_cast
  field_simp

/-- The lexeme of a whole number written with a point and one zero. -/
def wholeLexeme (negative : Bool) (n k : ℕ) : Lexeme :=
  ⟨negative, Nat.toDigits 10 n ++ List.replicate k '0', some ['0'], none⟩

theorem wellFormed_wholeLexeme (negative : Bool) {n k : ℕ} (h : n = 0 → k = 0) :
    (wholeLexeme negative n k).WellFormed where
  whole_digits := by
    intro c hc
    rcases List.mem_append.mp hc with hc | hc
    · exact allDigits_toDigits n c hc
    · rw [List.eq_of_mem_replicate hc]
      rfl
  whole_head := by
    by_cases hn : n = 0
    · left
      rw [wholeLexeme, hn, h hn]
      rfl
    · obtain ⟨c, cs, hd, hc⟩ := toDigits_head hn
      right
      exact ⟨c, _, by rw [wholeLexeme, hd]; rfl, hc⟩
  fraction_digits := by
    simp only [wholeLexeme, Option.mem_some_iff, forall_eq']
    exact ⟨by decide, by simp [AllDigits]⟩
  exponent_digits := by simp [wholeLexeme]

theorem value_wholeLexeme (negative : Bool) (n k : ℕ) :
    Decimal.decimalValue (digits (wholeLexeme negative n k)) (scale (wholeLexeme negative n k)) =
      Decimal.decimalValue n k := by
  have hdigits : digits (wholeLexeme negative n k) = 10 ^ (k + 1) * n := by
    simp only [digits, wholeLexeme, Option.getD_some, decimalValue_eq, Nat.ofDigitChars_append,
      Nat.ofDigitChars_ten_toDigits, Nat.ofDigitChars_replicate_zero]
    rw [Nat.ofDigitChars_cons, Nat.ofDigitChars_nil]
    norm_num
    ring
  have hscale : scale (wholeLexeme negative n k) = (k : ℤ) - (k + 1 : ℕ) := by
    simp [scale, wholeLexeme]
  rw [hdigits, hscale, decimalValue_mul_pow]

/-- Digits filled up with zeros, so that there is one before the last `places`. -/
def padded (n places : ℕ) : List Char :=
  List.replicate (places + 1 - (Nat.toDigits 10 n).length) '0' ++ Nat.toDigits 10 n

theorem length_padded (n places : ℕ) : places < (padded n places).length := by
  rw [padded, List.length_append, List.length_replicate]
  omega

theorem allDigits_padded (n places : ℕ) : AllDigits (padded n places) := by
  intro c hc
  rcases List.mem_append.mp hc with hc | hc
  · rw [List.eq_of_mem_replicate hc]
    rfl
  · exact allDigits_toDigits n c hc

/-- The lexeme of a number written with the point before the last `places` digits. -/
def pointLexeme (negative : Bool) (n places : ℕ) : Lexeme :=
  ⟨negative, (padded n places).take ((padded n places).length - places),
    some ((padded n places).drop ((padded n places).length - places)), none⟩

theorem wellFormed_pointLexeme (negative : Bool) {n places : ℕ} (hn : n ≠ 0) (hp : 0 < places) :
    (pointLexeme negative n places).WellFormed where
  whole_digits := fun c hc => allDigits_padded n places c (List.mem_of_mem_take hc)
  whole_head := by
    by_cases hlen : places + 1 ≤ (Nat.toDigits 10 n).length
    · obtain ⟨c, cs, hd, hc⟩ := toDigits_head hn
      have hpad : padded n places = c :: cs := by
        rw [padded, Nat.sub_eq_zero_of_le hlen, List.replicate_zero, List.nil_append, hd]
      obtain ⟨k, hk⟩ : ∃ k, (padded n places).length - places = k + 1 :=
        Nat.exists_eq_succ_of_ne_zero (by have := length_padded n places; omega)
      right
      exact ⟨c, cs.take k, by rw [pointLexeme, hk, hpad, List.take_succ_cons], hc⟩
    · obtain ⟨k, hk⟩ : ∃ k, places + 1 - (Nat.toDigits 10 n).length = k + 1 :=
        Nat.exists_eq_succ_of_ne_zero (by omega)
      have hone : (padded n places).length - places = 1 := by
        rw [padded, List.length_append, List.length_replicate]
        omega
      left
      rw [pointLexeme, hone, padded, hk, List.replicate_succ]
      rfl
  fraction_digits := by
    simp only [pointLexeme, Option.mem_some_iff, forall_eq']
    constructor
    · have := length_padded n places
      rw [ne_eq, List.drop_eq_nil_iff]
      omega
    · exact fun c hc => allDigits_padded n places c (List.mem_of_mem_drop hc)
  exponent_digits := by simp [pointLexeme]

theorem value_pointLexeme (negative : Bool) (n places : ℕ) :
    Decimal.decimalValue (digits (pointLexeme negative n places))
      (scale (pointLexeme negative n places)) = Decimal.decimalValue n (-places) := by
  have hdigits : digits (pointLexeme negative n places) = n := by
    rw [digits, pointLexeme, Option.getD_some, List.take_append_drop, padded, decimalValue_eq,
      Nat.ofDigitChars_append, Nat.ofDigitChars_replicate_zero, mul_zero,
      Nat.ofDigitChars_ten_toDigits]
  have hscale : scale (pointLexeme negative n places) = -places := by
    have := length_padded n places
    simp only [scale, pointLexeme, Option.getD_some, List.length_drop]
    omega
  rw [hdigits, hscale]

/-- The lexeme of a number with one digit before the point and an exponent. -/
def exponentLexeme (negative : Bool) (c : Char) (rest : List Char) (first : ℤ) : Lexeme :=
  ⟨negative, [c], if rest = [] then none else some rest,
    some (first < 0, Nat.toDigits 10 first.natAbs)⟩

theorem getD_fraction_exponentLexeme (negative : Bool) (c : Char) (rest : List Char) (first : ℤ) :
    (exponentLexeme negative c rest first).fraction.getD [] = rest := by
  unfold exponentLexeme
  split_ifs with h
  · exact h.symm
  · rfl

theorem wellFormed_exponentLexeme (negative : Bool) {n : ℕ} {c : Char} {rest : List Char}
    (h : Nat.toDigits 10 n = c :: rest) (first : ℤ) :
    (exponentLexeme negative c rest first).WellFormed where
  whole_digits := by
    intro c' hc
    rw [exponentLexeme, List.mem_singleton] at hc
    exact allDigits_toDigits n c' (by rw [h, hc]; exact List.mem_cons_self)
  whole_head := by
    by_cases hc : c = '0'
    · left
      rw [exponentLexeme, hc]
    · exact .inr ⟨c, [], rfl, hc⟩
  fraction_digits := by
    intro ds hds
    unfold exponentLexeme at hds
    split_ifs at hds with hrest
    · simp at hds
    · rw [Option.mem_some_iff] at hds
      rw [← hds]
      exact ⟨hrest, fun c' hc => allDigits_toDigits n c' (by rw [h]; exact List.mem_cons_of_mem _ hc)⟩
  exponent_digits := by
    intro e he
    rw [exponentLexeme, Option.mem_some_iff] at he
    rw [← he]
    exact ⟨Nat.toDigits_ne_nil, allDigits_toDigits _⟩

theorem exponentValue_toDigits (i : ℤ) :
    Reader.exponentValue (decide (i < 0)) (Nat.toDigits 10 i.natAbs) = i := by
  unfold Reader.exponentValue
  rw [decimalValue_toDigits]
  by_cases hi : i < 0
  · simp only [hi, decide_true, if_true]
    omega
  · simp only [hi, decide_false, Bool.false_eq_true, if_false]
    omega

theorem value_exponentLexeme (negative : Bool) {n : ℕ} {c : Char} {rest : List Char}
    (h : Nat.toDigits 10 n = c :: rest) (first : ℤ) :
    Decimal.decimalValue (digits (exponentLexeme negative c rest first))
      (scale (exponentLexeme negative c rest first)) =
      Decimal.decimalValue n (first - rest.length) := by
  have hdigits : digits (exponentLexeme negative c rest first) = n := by
    rw [digits, getD_fraction_exponentLexeme]
    change Text.decimalValue (c :: rest) = n
    rw [← h, decimalValue_toDigits]
  have hscale : scale (exponentLexeme negative c rest first) = first - rest.length := by
    rw [scale, getD_fraction_exponentLexeme]
    simp only [exponentLexeme, exponentValue_toDigits]
  rw [hdigits, hscale]

/-! ## Layouts -/

/-- A text is the unsigned text of a lexeme of the same value as a decimal. -/
def Spells (text : List Char) (negative : Bool) (s : Decimal.Scientific) : Prop :=
  ∃ l : Lexeme, l.WellFormed ∧ l.negative = negative ∧ l.unsignedText = text ∧
    (l.fraction ≠ none ∨ l.exponent ≠ none) ∧
    Decimal.decimalValue (digits l) (scale l) = Decimal.decimalValue s.digits s.exponent

theorem spells_positionalText (negative : Bool) {s : Decimal.Scientific}
    (h : s.digits = 0 → s.exponent = 0) :
    Spells (Decimal.positionalText true (Nat.toDigits 10 s.digits) s.exponent) negative s := by
  obtain ⟨n, exponent⟩ := s
  dsimp only at h ⊢
  by_cases he : 0 ≤ exponent
  · rw [Decimal.positionalText, if_pos he, if_pos rfl]
    obtain ⟨k, rfl⟩ := Int.eq_ofNat_of_zero_le he
    refine ⟨wholeLexeme negative n k, wellFormed_wholeLexeme negative fun hn => by simpa using h hn,
      rfl, ?_, .inl (by simp [wholeLexeme]), value_wholeLexeme negative n k⟩
    simp [Lexeme.unsignedText, wholeLexeme, Reader.fractionText, Reader.exponentText]
  · rw [Decimal.positionalText, if_neg he]
    obtain ⟨k, rfl⟩ : ∃ k : ℕ, exponent = -k := ⟨(-exponent).toNat, by omega⟩
    have hn : n ≠ 0 := fun hn => he (by rw [h hn])
    refine ⟨pointLexeme negative n k, wellFormed_pointLexeme negative hn (by omega), rfl, ?_,
      .inl (by simp [pointLexeme]), value_pointLexeme negative n k⟩
    simp [Lexeme.unsignedText, pointLexeme, Reader.fractionText, Reader.exponentText, padded]

theorem spells_exponentText (negative : Bool) (s : Decimal.Scientific) :
    Spells (Decimal.exponentText (Nat.toDigits 10 s.digits)
      (s.exponent + (Nat.toDigits 10 s.digits).length - 1)) negative s := by
  obtain ⟨c, rest, h⟩ := List.exists_cons_of_ne_nil (@Nat.toDigits_ne_nil s.digits 10)
  have hfirst : s.exponent + (Nat.toDigits 10 s.digits).length - 1 - rest.length = s.exponent := by
    rw [h, List.length_cons]
    push_cast
    omega
  refine ⟨exponentLexeme negative c rest _, wellFormed_exponentLexeme negative h _, rfl, ?_,
    .inr (by simp [exponentLexeme]), by rw [value_exponentLexeme negative h, hfirst]⟩
  rw [h]
  cases rest with
  | nil => simp [Lexeme.unsignedText, exponentLexeme, Reader.fractionText, Reader.exponentText,
      Decimal.exponentText]
  | cons c' rest => simp [Lexeme.unsignedText, exponentLexeme, Reader.fractionText,
      Reader.exponentText, Decimal.exponentText]

/-- Every number that a text can hold is written as a lexeme of its value. -/
theorem exists_lexeme {n : Number} (h : n.InRange) :
    ∃ l : Lexeme, l.WellFormed ∧ l.text = writeNumber n ∧ l.value = .ok n := by
  cases n with
  | int i => exact ⟨intLexeme i, wellFormed_intLexeme i, text_intLexeme i, value_intLexeme h⟩
  | decimal d =>
    have finite : d.isFinite = true := h
    obtain ⟨l, hwf, hneg, htext, hparts, hvalue⟩ :
        Spells (let s := Decimal.shortest Decimal.Layout.json.tie d
          let ds := Nat.toDigits 10 s.digits
          let first := s.exponent + (ds.length : ℤ) - 1
          if Decimal.Layout.json.positional first then
            Decimal.positionalText Decimal.Layout.json.pointZero ds s.exponent
          else Decimal.exponentText ds first) d.negative
          (Decimal.shortest Decimal.Layout.json.tie d) := by
      dsimp only
      split_ifs
      · exact spells_positionalText _ (Decimal.shortest_exponent_of_digits_eq_zero _)
      · exact spells_exponentText _ _
    refine ⟨l, hwf, ?_, value_of_eq_shortest finite _ hparts hneg hvalue⟩
    simp only [writeNumber, finite, if_true, Decimal.Layout.write, Lexeme.text, hneg, htext]

end Verdict.Json
