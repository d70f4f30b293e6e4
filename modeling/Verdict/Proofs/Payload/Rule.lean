import Verdict.Proofs.Binary64.Rounding
import Verdict.Proofs.Payload.Plain

/-!
# Rules read back

A literal is written as the number or text it is and read back by trying the kinds in turn, which
finds what the shape of the value says. Literals that come from a text are integers of 64 signed bits
or finite decimals, so nothing is lost.
-/

namespace Verdict

open Json (sortKeys sortKeysMembers toDraft)
open Json.Draft (Field)
open Results

namespace Scalar

/-- Trying the kinds in turn finds what the value of the draft stands for. -/
theorem toOption_ofDraft (depth : ℕ) (d : Json.Draft) :
    (ofDraft depth d).toOption = (d.toJson depth).toOption.bind ofJson? := by
  rw [ofDraft]
  cases hd : d.toJson depth with
  | error f => rfl
  | ok j =>
    rw [ok_bind, toOption_ok, Option.bind_some]
    cases d with
    | null | bool =>
      cases hd
      rfl
    | number t =>
      obtain ⟨value, skipped⟩ := t
      obtain ⟨n, rfl, rfl⟩ := map_eq_ok_iff.mp hd
      cases n with
      | decimal x => rfl
      | int i =>
        -- Only here two kinds may fit, so that it matters which of them is tried first.
        by_cases hfit : fitsInt64 i = true
        · have hint : int64OfDraft (.number ⟨.ok (.int i), skipped⟩) = .ok i := if_pos hfit
          rw [hint, ofJson?, if_pos hfit]
          rfl
        · have hint : int64OfDraft (.number ⟨.ok (.int i), skipped⟩) = .error .mismatched :=
            if_neg hfit
          rw [hint, ofJson?, if_neg hfit]
          rfl
    | string t =>
      obtain ⟨value, skipped⟩ := t
      obtain ⟨s, rfl, rfl⟩ := map_eq_ok_iff.mp hd
      rfl
    | array =>
      obtain ⟨-, xs, -, -, rfl⟩ := Json.exists_items_of_toJson hd
      rfl
    | object =>
      obtain ⟨-, ms, -, -, rfl⟩ := Json.exists_members_of_toJson hd
      rfl
    | misspelt | absent => cases hd

/-- Off the draft of a value, the value itself is read. -/
theorem toOption_ofDraft_toDraft (depth : ℕ) (j : Json) :
    (ofDraft depth j.toDraft).toOption = ofJson? j := by
  rw [toOption_ofDraft]
  cases j with
  | null | bool | num | str => rfl
  | arr xs =>
    cases hx : (toDraft (.arr xs)).toJson depth with
    | error f => rfl
    | ok j =>
      obtain ⟨-, ys, -, -, rfl⟩ := Json.exists_items_of_toJson hx
      rfl
  | obj ms =>
    cases hm : (toDraft (.obj ms)).toJson depth with
    | error f => rfl
    | ok j =>
      obtain ⟨-, ys, -, -, rfl⟩ := Json.exists_members_of_toJson hm
      rfl

/-! ## Portable scalars -/

/-- A scalar that a text can hold. -/
def Portable : Scalar → Prop
  | boolean _ => True
  | integer i => fitsInt64 i = true
  | decimal d => d.isFinite = true
  | text _ => True

theorem fitsInt64_iff {i : ℤ} :
    fitsInt64 i = true ↔ -(Binary64.signBit : ℤ) ≤ i ∧ i < Binary64.signBit := by
  simp [fitsInt64]

theorem Portable.inRange {s : Scalar} (h : s.Portable) : s.toJson.InRange := by
  cases s with
  | boolean b => trivial
  | integer i =>
    obtain ⟨hlow, hhigh⟩ := fitsInt64_iff.mp h
    have : (Binary64.signBit : ℤ) < UInt64.size := by decide
    exact ⟨hlow, by omega⟩
  | decimal d => exact h
  | text s => trivial

theorem sortKeys_toJson (s : Scalar) : s.toJson.sortKeys = s.toJson := by
  cases s <;> rfl

theorem ofJson?_toJson {s : Scalar} (h : s.Portable) : ofJson? s.toJson = some s := by
  cases s with
  | integer i => exact congrArg some (if_pos h)
  | _ => rfl

theorem ofDraft_toJson {s : Scalar} (h : s.Portable) (depth : ℕ) :
    ofDraft depth s.toJson.toDraft = .ok s := by
  rw [← toOption_eq_some_iff, toOption_ofDraft_toDraft, ofJson?_toJson h]

/-- An integer that a text can hold is near a finite decimal. -/
theorem portable_ofInt {i : ℤ} (h : (Json.Number.int i).InRange) :
    (decimal (.ofInt i)).Portable := by
  obtain ⟨hlow, hhigh⟩ := h
  refine Binary64.isFinite_ofInt ?_
  have hsign : (Binary64.signBit : ℤ) < 2 ^ 65 := by decide
  have hsize : (UInt64.size : ℤ) < 2 ^ 65 := by decide
  omega

theorem portable_of_ofJson? {j : Json} (h : j.InRange) {s : Scalar} (hs : ofJson? j = some s) :
    s.Portable := by
  cases j with
  | null => cases hs
  | bool b =>
    cases hs
    trivial
  | num n =>
    cases n with
    | int i =>
      rw [ofJson?, Option.some.injEq] at hs
      split_ifs at hs with hfit
      · rw [← hs]
        exact hfit
      · rw [← hs]
        exact portable_ofInt h
    | decimal d =>
      cases hs
      exact h
  | str t =>
    cases hs
    trivial
  | arr xs => cases hs
  | obj ms => cases hs

theorem portable_of_ofDraft {d : Json.Draft} (h : d.InRange) {depth : ℕ} {s : Scalar}
    (hs : ofDraft depth d = .ok s) : s.Portable := by
  rw [← toOption_eq_some_iff, toOption_ofDraft, Option.bind_eq_some_iff] at hs
  obtain ⟨j, hj, hs⟩ := hs
  exact portable_of_ofJson? (Json.storable_of_toJson h (toOption_eq_some_iff.mp hj)).inRange hs

end Scalar

namespace Rule

theorem sortKeys_toJson (r : Rule) :
    r.toJson.sortKeys = .obj [("input", .str r.input), ("operator", .str r.operator),
      ("ruleType", .str r.ruleType), ("value", r.value.toJson)] := by
  simp +decide [toJson, sortKeys, sortKeysMembers, insertSorted, Scalar.sortKeys_toJson]

/-- A rule is read if its literal is. -/
theorem ofDraft_of_value {value : Json} {s : Scalar}
    (hvalue : Scalar.ofDraft Json.Draft.depthLimit value.toDraft = .ok s)
    (input operator ruleType : String) :
    ofDraft (toDraft (.obj [("input", .str input), ("operator", .str operator),
      ("ruleType", .str ruleType), ("value", value)])) = .ok ⟨input, operator, s, ruleType⟩ := by
  have hinput := Json.text_str input
  have hoperator := Json.text_str operator
  have htype := Json.text_str ruleType
  refine bind_of_ok (Json.record_obj (by simp) ?_ (by simp [Field.required])) ?_
  · simp only [List.forall_mem_cons]
    exact ⟨Json.fits_required rfl hinput, Json.fits_required rfl hoperator,
      Json.fits_required rfl htype, Json.fits_required rfl hvalue, by simp⟩
  · exact bind_of_ok hinput (bind_of_ok hoperator (bind_of_ok hvalue (bind_of_ok htype rfl)))

/-- No rule is read without its literal. -/
theorem exists_value_of_ofDraft {ms : List (String × Json)} {value : Json} {r : Rule}
    (h : ofDraft (toDraft (.obj ms)) = .ok r) (hm : ("value", value) ∈ ms) :
    ∃ s, Scalar.ofDraft Json.Draft.depthLimit value.toDraft = .ok s := by
  obtain ⟨fields, hfields, -⟩ := bind_eq_ok_iff.mp h
  have hcheck := Json.check_of_record hfields hm rfl
  obtain ⟨s, hs, -⟩ := map_eq_ok_iff.mp hcheck
  exact ⟨s, hs⟩

theorem ofDraft_sortKeys {r : Rule} (h : r.value.Portable) :
    ofDraft r.toJson.sortKeys.toDraft = .ok r := by
  rw [sortKeys_toJson]
  exact ofDraft_of_value (Scalar.ofDraft_toJson h Json.Draft.depthLimit) r.input r.operator
    r.ruleType

end Rule
end Verdict
