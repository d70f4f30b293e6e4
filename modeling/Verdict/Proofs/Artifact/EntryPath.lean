import Verdict.Artifact.EntryPath
import Verdict.Proofs.Json.Number
import Verdict.Proofs.Text.Segments

/-!
# Paths of artifacts read back

The path of an artifact with a valid id is read back as its reference, and the path of any other
artifact as none.
-/

namespace Verdict

/-! ## Ids -/

theorem validId_iff {id : String} : ValidId id ↔ id ≠ "" ∧ '/' ∉ id.toList ∧ '\\' ∉ id.toList ∧
    id ≠ "." ∧ id ≠ ".." ∧ ∀ c ∈ id.toList, Text.isControl c = false := by
  unfold ValidId idFault?
  split_ifs with hempty hslash hdot hcontrol
  · simp [hempty]
  · rw [false_iff]
    rintro ⟨-, h, h', -⟩
    rw [List.any_eq_true] at hslash
    obtain ⟨c, hc, hs⟩ := hslash
    simp only [Bool.or_eq_true, decide_eq_true_eq] at hs
    rcases hs with rfl | rfl
    · exact h hc
    · exact h' hc
  · rw [false_iff]
    rintro ⟨-, -, -, h, h', -⟩
    exact hdot.elim h h'
  · rw [false_iff]
    rintro ⟨-, -, -, -, -, h⟩
    rw [List.any_eq_true] at hcontrol
    obtain ⟨c, hc, hs⟩ := hcontrol
    simp [h c hc] at hs
  · simp only [true_iff]
    rw [Bool.not_eq_true, List.any_eq_false] at hslash hcontrol
    rw [not_or] at hdot
    refine ⟨hempty, ?_, ?_, hdot.1, hdot.2, by simpa using hcontrol⟩
    · exact fun h => hslash _ h rfl
    · exact fun h => hslash _ h rfl

/-! ## Versions -/

theorem toList_toString_nat (n : ℕ) : (toString n).toList = Nat.toDigits 10 n := by
  change (Nat.repr n).toList = _
  simp

theorem Version.ofText?_toString (v : Version) : ofText? (toString v.toNat).toList = some v := by
  have hdigits := Json.allDigits_toDigits v.toNat
  have hne : Nat.toDigits 10 v.toNat ≠ [] := Nat.toDigits_ne_nil
  have hplus : ∀ cs, Nat.toDigits 10 v.toNat ≠ '+' :: cs := by
    intro cs h
    have := hdigits '+' (by rw [h]; exact List.mem_cons_self)
    exact absurd this (by decide)
  have hall : (Nat.toDigits 10 v.toNat).all Char.isDigit = true := List.all_eq_true.mpr hdigits
  rw [toList_toString_nat, ofText?]
  · simp [hne, hall, v.toNat_lt_size]
  · exact hplus

theorem not_mem_toString {c : Char} (h : c.isDigit = false) (n : ℕ) : c ∉ (toString n).toList := by
  rw [toList_toString_nat]
  intro hc
  rw [Json.allDigits_toDigits n c hc] at h
  cases h

/-! ## Paths -/

namespace Reference

/-- The names on the path of an artifact. -/
def entryNames (r : Reference) : List String :=
  [r.kind.name, toString r.version.toNat, r.id ++ entryEnding]

theorem intercalate_entryNames (r : Reference) : "/".intercalate r.entryNames = r.entryPath := by
  rw [entryNames, String.intercalate_cons_cons, String.intercalate_cons_cons,
    String.intercalate_singleton, entryPath]
  simp only [String.append_assoc]

theorem not_mem_kindName (k : Kind) : '/' ∉ k.name.toList := by cases k <;> decide

theorem segments_entryPath (r : Reference) : Text.segments '/' r.entryPath.toList =
    r.kind.name.toList :: (toString r.version.toNat).toList ::
      Text.segments '/' (r.id.toList ++ entryEnding.toList) := by
  have hpath : r.entryPath.toList = r.kind.name.toList ++ '/' ::
      ((toString r.version.toNat).toList ++ '/' :: (r.id.toList ++ entryEnding.toList)) := by
    simp [entryPath]
  rw [hpath, Text.segments_append, Text.segments_append,
    Text.segments_of_not_mem (not_mem_kindName r.kind),
    Text.segments_of_not_mem (not_mem_toString (by decide) _)]
  rfl

/-- The path of an artifact is read back as its reference exactly if its id is valid. -/
theorem ofEntryPath?_entryPath (r : Reference) :
    ofEntryPath? r.entryPath = if ValidId r.id then some r else none := by
  rw [ofEntryPath?, segments_entryPath]
  split
  case h_1 kind version file heq =>
    simp only [List.cons.injEq] at heq
    obtain ⟨rfl, rfl, hfile⟩ := heq
    obtain ⟨rfl, -⟩ := Text.segments_eq_singleton_iff.mp hfile
    simp only [String.ofList_toList, Kind.ofName?_name, Version.ofText?_toString,
      Text.dropEnding?_append, Option.bind_eq_bind, Option.bind_some]
    rfl
  case h_2 hne =>
    rw [if_neg]
    intro hid
    obtain ⟨-, hslash, -⟩ := validId_iff.mp hid
    have hfile : '/' ∉ r.id.toList ++ entryEnding.toList := by
      rw [List.mem_append, not_or]
      exact ⟨hslash, by decide⟩
    exact hne _ _ _ (by rw [Text.segments_of_not_mem hfile])

/-- A path that stands for an artifact differs from the path of that artifact at most in how it
spells the version. -/
theorem exists_version_of_ofEntryPath? {path : String} {r : Reference}
    (h : ofEntryPath? path = some r) : ValidId r.id ∧ ∃ version,
      Version.ofText? version = some r.version ∧ path.toList = r.kind.name.toList ++ '/' ::
        (version ++ '/' :: (r.id.toList ++ entryEnding.toList)) := by
  rw [ofEntryPath?] at h
  split at h
  case h_1 kind version file heq =>
    simp only [Option.bind_eq_bind, Option.bind_eq_some_iff, Option.ite_none_right_eq_some] at h
    obtain ⟨k, hk, v, hv, id, hid, hvalid, hr⟩ := h
    obtain rfl := Option.some.inj hr
    refine ⟨hvalid, version, hv, ?_⟩
    have hkind : kind = k.name.toList := by rw [Kind.name_of_ofName? hk, String.toList_ofList]
    rw [← Text.intercalate_segments '/' path.toList, heq, hkind,
      Text.eq_append_of_dropEnding? hid]
    simp
  case h_2 => cases h

end Reference
end Verdict
