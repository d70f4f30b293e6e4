import Verdict.Proofs.Archive.Staging

/-!
# Names of entries

The path of an artifact is read back as the artifact exactly if its id can be one, so an artifact
has a path of its own. It does not have the only name: a name may spell the version with a plus sign
and with zeros in front, and stands for the artifact all the same. The path is the one with neither.
-/

namespace Verdict

open Json.Reader (AllDigits)

/-! ## Spellings of numbers -/

namespace Text

theorem decimalValue_concat (ds : List Char) (c : Char) :
    decimalValue (ds ++ [c]) = 10 * decimalValue ds + (c.toNat - '0'.toNat) := by
  rw [decimalValue, List.foldl_concat]
  rfl

/-- A digit is written as the number that it stands for. -/
theorem exists_toDigits_of_isDigit {c : Char} (h : c.isDigit = true) :
    ∃ d < 10, c.toNat - '0'.toNat = d ∧ Nat.toDigits 10 d = [c] := by
  have hbounds : 48 ≤ c.toNat ∧ c.toNat ≤ 57 := Char.isDigit_iff_toNat.mp h
  have hzero : '0'.toNat = 48 := rfl
  have hd : c.toNat - '0'.toNat < 10 := by omega
  refine ⟨_, hd, rfl, ?_⟩
  rw [Nat.toDigits_of_lt_base hd, List.singleton_inj, ← Char.toNat_inj,
    Nat.toNat_digitChar_of_lt_ten hd]
  omega

/-- A run of digits is what its number is written with, behind some zeros. -/
theorem exists_zeros {ds : List Char} (hds : AllDigits ds) (hne : ds ≠ []) :
    ∃ zeros, ds = List.replicate zeros '0' ++ Nat.toDigits 10 (decimalValue ds) := by
  induction ds using List.reverseRecOn with
  | nil => exact absurd rfl hne
  | append_singleton ds c ih =>
    obtain ⟨d, hd, hvalue, hwritten⟩ := exists_toDigits_of_isDigit (hds c (by simp))
    rw [decimalValue_concat, hvalue]
    by_cases hfirst : ds = []
    · exact ⟨0, by simp [hfirst, decimalValue, hwritten]⟩
    · obtain ⟨zeros, hzeros⟩ := ih (fun x hx => hds x (List.mem_append_left _ hx)) hfirst
      by_cases hnull : decimalValue ds = 0
      · refine ⟨zeros + 1, ?_⟩
        rw [hnull, Nat.toDigits_zero] at hzeros
        rw [hnull, Nat.mul_zero, Nat.zero_add, hwritten, hzeros, List.replicate_succ']
      · refine ⟨zeros, ?_⟩
        rw [← Nat.toDigits_append_toDigits (by decide) (by omega) hd, hwritten, ← List.append_assoc,
          ← hzeros]

theorem decimalValue_zeros (zeros n : ℕ) :
    decimalValue (List.replicate zeros '0' ++ Nat.toDigits 10 n) = n := by
  rw [Json.decimalValue_eq, Nat.ofDigitChars_append, Nat.ofDigitChars_replicate_zero, Nat.mul_zero,
    Nat.ofDigitChars_ten_toDigits]

end Text

namespace Version

/-- A way to spell a version: with or without a plus sign, and with zeros in front of its digits. -/
structure Spelling where
  plus : Bool
  zeros : ℕ

namespace Spelling

/-- The spelling that is written: the digits alone. -/
def Plain (s : Spelling) : Prop := s.plus = false ∧ s.zeros = 0

def digits (s : Spelling) (v : Version) : List Char :=
  List.replicate s.zeros '0' ++ (toString v.toNat).toList

def text (s : Spelling) (v : Version) : List Char :=
  if s.plus then '+' :: s.digits v else s.digits v

variable (s : Spelling) (v : Version)

theorem allDigits : AllDigits (s.digits v) := by
  intro c hc
  rw [digits, toList_toString_nat, List.mem_append] at hc
  rcases hc with hc | hc
  · rw [List.eq_of_mem_replicate hc]
    rfl
  · exact Json.allDigits_toDigits _ c hc

theorem slash_not_mem_text : '/' ∉ s.text v := by
  have hdigits : '/' ∉ s.digits v := fun h => absurd (s.allDigits v '/' h) (by decide)
  unfold text
  split_ifs
  · rw [List.mem_cons, not_or]
    exact ⟨by decide, hdigits⟩
  · exact hdigits

end Spelling

/-- Digits are read as a version exactly if they are its digits behind some zeros. -/
theorem ofDigits_eq_some_iff {ds : List Char} {v : Version} :
    (if ds.isEmpty || !ds.all Char.isDigit then none
      else if Text.decimalValue ds < UInt32.size then some (UInt32.ofNat (Text.decimalValue ds))
      else none) = some v ↔
        ∃ zeros, ds = List.replicate zeros '0' ++ (toString v.toNat).toList := by
  rw [toList_toString_nat]
  constructor
  · intro h
    split_ifs at h with hdigits hfits
    cases h
    simp only [Bool.or_eq_true, Bool.not_eq_true', not_or, Bool.not_eq_false, List.isEmpty_iff,
      List.all_eq_true] at hdigits
    rw [UInt32.toNat_ofNat_of_lt' hfits]
    exact Text.exists_zeros hdigits.2 hdigits.1
  · rintro ⟨zeros, rfl⟩
    have hdigits : AllDigits (List.replicate zeros '0' ++ Nat.toDigits 10 v.toNat) := by
      simpa only [Spelling.digits, toList_toString_nat] using Spelling.allDigits ⟨false, zeros⟩ v
    have hne : Nat.toDigits 10 v.toNat ≠ [] := Nat.toDigits_ne_nil
    rw [if_neg (by simp [hne, List.all_eq_true.mpr hdigits]), Text.decimalValue_zeros,
      if_pos v.toNat_lt_size, UInt32.ofNat_toNat]

/-- A version is read from its digits in every spelling, and from nothing else. -/
theorem ofText?_eq_some_iff {cs : List Char} {v : Version} :
    ofText? cs = some v ↔ ∃ s : Spelling, cs = s.text v := by
  unfold ofText?
  split
  case h_1 ds =>
    rw [ofDigits_eq_some_iff]
    constructor
    · rintro ⟨zeros, rfl⟩
      exact ⟨⟨true, zeros⟩, rfl⟩
    · rintro ⟨s, h⟩
      unfold Spelling.text at h
      split_ifs at h with hplus
      · exact ⟨s.zeros, (List.cons.inj h).2⟩
      · have hdigit := s.allDigits v '+' (h ▸ List.mem_cons_self)
        exact absurd hdigit (by decide)
  case h_2 hplus =>
    rw [ofDigits_eq_some_iff]
    constructor
    · rintro ⟨zeros, rfl⟩
      exact ⟨⟨false, zeros⟩, rfl⟩
    · rintro ⟨s, h⟩
      unfold Spelling.text at h
      split_ifs at h
      · exact absurd h (hplus _)
      · exact ⟨s.zeros, h⟩

end Version

/-! ## Names -/

namespace Reference

open Version (Spelling)

/-- The name of an entry for an artifact that spells the version in some way. -/
def entryName (r : Reference) (s : Spelling) : String :=
  r.kind.name ++ "/" ++ String.ofList (s.text r.version) ++ "/" ++ r.id ++ entryEnding

theorem toList_entryName (r : Reference) (s : Spelling) :
    (r.entryName s).toList = r.kind.name.toList ++
      '/' :: (s.text r.version ++ '/' :: (r.id.toList ++ entryEnding.toList)) := by
  simp [entryName]

/-- The names of an artifact are those that spell its version in some way. -/
theorem ofEntryPath?_eq_some_iff {name : String} {r : Reference} :
    ofEntryPath? name = some r ↔ ValidId r.id ∧ ∃ s, name = r.entryName s := by
  constructor
  · intro h
    obtain ⟨hvalid, version, hversion, hname⟩ := exists_version_of_ofEntryPath? h
    obtain ⟨s, rfl⟩ := Version.ofText?_eq_some_iff.mp hversion
    refine ⟨hvalid, s, ?_⟩
    rw [← String.toList_inj, hname, toList_entryName]
  · rintro ⟨hvalid, s, rfl⟩
    have hversion : Version.ofText? (s.text r.version) = some r.version :=
      Version.ofText?_eq_some_iff.mpr ⟨s, rfl⟩
    have hfile : '/' ∉ r.id.toList ++ entryEnding.toList := by
      rw [List.mem_append, not_or]
      exact ⟨(validId_iff.mp hvalid).2.1, by decide⟩
    rw [ofEntryPath?, toList_entryName, Text.segments_append, Text.segments_append,
      Text.segments_of_not_mem (not_mem_kindName r.kind),
      Text.segments_of_not_mem (s.slash_not_mem_text _), Text.segments_of_not_mem hfile]
    simp only [List.singleton_append, String.ofList_toList, Kind.ofName?_name, hversion,
      Text.dropEnding?_append, Option.bind_eq_bind, Option.bind_some]
    rw [if_pos hvalid]
    rfl

theorem entryName_eq_entryPath_iff {r : Reference} {s : Spelling} :
    r.entryName s = r.entryPath ↔ s.Plain := by
  constructor
  · intro h
    have hlength := congrArg (fun name => name.toList.length) h
    unfold Spelling.Plain
    simp only [entryName, entryPath, Spelling.text, Spelling.digits] at hlength
    split_ifs at hlength with hplus <;> simp at hlength
    · omega
    · exact ⟨by simpa using hplus, hlength⟩
  · rintro ⟨hplus, hzeros⟩
    rw [← String.toList_inj, toList_entryName]
    simp [entryPath, Spelling.text, Spelling.digits, hplus, hzeros]

/-- The path of an artifact is read back as the artifact if its id can be one, and as nothing
otherwise. So no other artifact shares the path, which has three names, each of them a name to go
down by. -/
theorem entryPath_unambiguous (r : Reference) :
    ofEntryPath? r.entryPath = (if ValidId r.id then some r else none) ∧
    (ValidId r.id → (∀ r' : Reference, r'.entryPath = r.entryPath → r' = r) ∧
      FileTree.steps r.entryPath = [r.kind.name, toString r.version.toNat, r.id ++ entryEnding] ∧
      ∀ s ∈ FileTree.steps r.entryPath, s ≠ "" ∧ s ≠ "." ∧ s ≠ "..") := by
  have hread := ofEntryPath?_entryPath r
  refine ⟨hread, fun hvalid => ⟨?_, steps_entryPath hvalid, ?_⟩⟩
  · intro r' hpath
    rw [if_pos hvalid, ← hpath, ofEntryPath?_entryPath r'] at hread
    split_ifs at hread
    exact Option.some.inj hread
  · exact goesDown_entryPath hvalid

/-- An id may look like a step out of the archive and end like an entry. -/
theorem entryPath_unambiguous_dots :
    let r : Reference := ⟨.evidenceType, "...json", 0⟩
    ValidId r.id ∧ r.entryPath = "EvidenceType/0/...json.json" ∧
      ofEntryPath? r.entryPath = some r ∧
      (∀ r' : Reference, r'.entryPath = r.entryPath → r' = r) ∧
      FileTree.steps r.entryPath = ["EvidenceType", "0", "...json.json"] ∧
      ofEntryPath? (entryPath ⟨.evidenceType, "..", 0⟩) = none := by
  intro r
  have hvalid : ValidId r.id := by decide
  obtain ⟨hread, hvalid'⟩ := entryPath_unambiguous r
  obtain ⟨hinjective, hsteps, -⟩ := hvalid' hvalid
  rw [if_pos hvalid] at hread
  have hup := (entryPath_unambiguous ⟨.evidenceType, "..", 0⟩).1
  exact ⟨hvalid, by decide, hread, hinjective, hsteps.trans (by decide), hup⟩

/-- The names that stand for an artifact are those that spell its version in some way. Such a name
is the path of the artifact exactly if it spells the version without a plus sign and without zeros
in front. -/
theorem entryPath_eq_iff_plain {name : String} {r : Reference} (h : ofEntryPath? name = some r) :
    (∃ s : Spelling, name = r.entryName s ∧ (r.entryPath = name ↔ s.Plain)) ∧
    ∀ name', ofEntryPath? name' = some r ↔ ∃ s : Spelling, name' = r.entryName s := by
  obtain ⟨hvalid, s, rfl⟩ := ofEntryPath?_eq_some_iff.mp h
  refine ⟨⟨s, rfl, ?_⟩, ?_⟩
  · rw [eq_comm]
    exact entryName_eq_entryPath_iff
  · intro name'
    rw [ofEntryPath?_eq_some_iff, and_iff_right hvalid]

theorem entryPath_eq_iff_plain_signed :
    ofEntryPath? "Rule/+007/x.json" = some ⟨.rule, "x", 7⟩ ∧
      ∃ s : Spelling, "Rule/+007/x.json" = entryName ⟨.rule, "x", 7⟩ s ∧ ¬s.Plain := by
  have hread : ofEntryPath? "Rule/+007/x.json" = some ⟨.rule, "x", 7⟩ := by decide
  obtain ⟨⟨s, hname, hplain⟩, -⟩ := entryPath_eq_iff_plain hread
  exact ⟨hread, s, hname, fun hs => absurd (hplain.mpr hs) (by decide)⟩

/-- A name need not be the path of what it stands for, and two names may stand for the same. -/
theorem not_forall_entryPath :
    (¬ ∀ name r, ofEntryPath? name = some r → r.entryPath = name) ∧
    ¬ ∀ name name' r, ofEntryPath? name = some r → ofEntryPath? name' = some r → name = name' := by
  have hsigned : ofEntryPath? "Rule/+1/x.json" = some ⟨.rule, "x", 1⟩ := by decide
  have hplain : ofEntryPath? "Rule/1/x.json" = some ⟨.rule, "x", 1⟩ := by decide
  constructor
  · intro h
    exact absurd (h _ _ hsigned) (by decide)
  · intro h
    exact absurd (h _ _ _ hsigned hplain) (by decide)

end Reference

end Verdict
