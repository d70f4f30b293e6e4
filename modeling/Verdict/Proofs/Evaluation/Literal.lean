import Verdict.Evaluation.Evidence
import Verdict.Proofs.Artifact.Stability
import Verdict.Proofs.Compilation.Portable
import Verdict.Proofs.Evaluation.Comparison

/-!
# Rules on their own literal

A literal is read from its document, written in an envelope and read back there, while evidence is
read from a text of its own. All of these readers make the same scalar of the same value, and a
scalar that a text can hold is the same value as itself. So a rule that asks for equality says yes
to its own literal, and a rule that asks for inequality says no.
-/

namespace Verdict

open Results

/-! ## Scalars -/

namespace Json

/-- A value that is neither null nor made of other values. -/
def IsScalar : Json → Prop
  | bool _ | num _ | str _ => True
  | null | arr _ | obj _ => False

theorem isScalar_iff {v : Json} : v.IsScalar ↔ ∃ s, Scalar.ofJson? v = some s := by
  cases v with
  | num n => cases n <;> simp [IsScalar, Scalar.ofJson?]
  | _ => simp [IsScalar, Scalar.ofJson?]

end Json

theorem Scalar.Portable.isNumber {s : Scalar} (h : s.Portable) {x : Binary64}
    (hx : s.toBinary64? = some x) : s.IsNumber := by
  cases s with
  | boolean | text => cases hx
  | integer i => exact .integer h
  | decimal d => exact .decimal h

/-- Only what is not a number differs from itself, and that stands in no text. -/
theorem Scalar.Portable.sameValue_self {s : Scalar} (h : s.Portable) : s.sameValue s = true := by
  cases hs : s.toBinary64? with
  | none =>
    rcases toBinary64?_eq_none_iff.mp hs with ⟨b, rfl⟩ | ⟨t, rfl⟩
    all_goals simp [sameValue]
  | some x =>
    obtain ⟨y, hy, hnan⟩ := (h.isNumber hs).exists_toBinary64?
    refine (sameValue_iff hy hy hnan hnan).mpr ⟨rfl, fun hmerged => ?_⟩
    cases hmerged
    contradiction

namespace Operator

theorem ofName?_name (o : Operator) : ofName? o.name = some o := by cases o <;> rfl

theorem apply_self {o : Operator} (ho : ¬ o.IsOrdering) (field : String) {s : Scalar}
    (h : s.Portable) : o.apply field s s = .ok (decide (o = equal)) := by
  cases o with
  | equal => simp [apply, h.sameValue_self]
  | notEqual => simp [apply, h.sameValue_self]
  | _ => exact absurd (by decide) ho

end Operator

/-! ## Evidence -/

namespace Evidence

/-- The entry that evidence has for a member. -/
def Reads (m : String × Json) (e : String × Scalar) : Prop :=
  e.1 = m.1 ∧ Scalar.ofJson? m.2 = some e.2

variable {members : List (String × Json)} {fields : List (String × Scalar)} {evidence : Evidence}

theorem exists_reads_iff {m : String × Json} : (∃ e, Reads m e) ↔ m.2.IsScalar := by
  rw [Json.isScalar_iff]
  exact ⟨fun ⟨e, he⟩ => ⟨e.2, he.2⟩, fun ⟨s, hs⟩ => ⟨(m.1, s), rfl, hs⟩⟩

theorem ofMembers_eq_ok_iff : ofMembers members = .ok evidence ↔
    ∃ fields, List.Forall₂ Reads members fields ∧ Table.ofList fields = evidence := by
  simp only [ofMembers, bind_eq_ok_iff, pure_eq, Except.ok.injEq, mapM_eq_ok_iff]
  refine exists_congr fun fields => and_congr_left' ?_
  refine iff_of_eq (congrArg (List.Forall₂ · members fields) ?_)
  funext ⟨key, v⟩ ⟨field, s⟩
  cases hs : Scalar.ofJson? v <;> simp [Reads, hs, eq_comm]

/-- An object is evidence if all its members are scalars. -/
theorem exists_ofMembers_iff :
    (∃ evidence, ofMembers members = .ok evidence) ↔ ∀ m ∈ members, m.2.IsScalar := by
  simp only [ofMembers_eq_ok_iff, ← exists_reads_iff, ← exists_forall₂_iff]
  rw [exists_comm]
  simp

theorem map_fst_of_reads (h : List.Forall₂ Reads members fields) :
    fields.map (·.1) = members.map (·.1) := by
  induction h with
  | nil => rfl
  | cons hm _ ih => rw [List.map_cons, List.map_cons, hm.1, ih]

theorem lookup_of_reads (h : List.Forall₂ Reads members fields) (field : String) :
    fields.lookup field = (Json.lookup field members).bind Scalar.ofJson? := by
  induction h with
  | nil => rfl
  | @cons m e _ _ hm _ ih =>
    obtain ⟨key, v⟩ := m
    obtain ⟨key', s⟩ := e
    obtain ⟨rfl, hs⟩ := hm
    rw [Table.lookup_cons, Json.lookup]
    by_cases hk : field = key'
    · rw [if_pos hk, if_pos hk.symm]
      exact hs.symm
    · rw [if_neg hk, if_neg (Ne.symm hk), ih]

/-- A field of evidence is read from the member of that name. -/
theorem find?_of_ofMembers (hnodup : (members.map (·.1)).Nodup)
    (h : ofMembers members = .ok evidence) (field : String) :
    evidence.find? field = (Json.lookup field members).bind Scalar.ofJson? := by
  obtain ⟨fields, hfields, rfl⟩ := ofMembers_eq_ok_iff.mp h
  rw [← map_fst_of_reads hfields] at hnodup
  rw [Table.ofList_eq hnodup]
  exact lookup_of_reads hfields field

/-- A text that writes an object of scalars is evidence of the scalars it writes. -/
theorem exists_ofText {text : String} (htext : Json.ofText text = .ok (.obj members))
    (hscalars : ∀ m ∈ members, m.2.IsScalar) :
    ∃ evidence, ofText text = .ok evidence ∧
      ∀ field, evidence.find? field = (Json.lookup field members).bind Scalar.ofJson? := by
  obtain ⟨evidence, hevidence⟩ := exists_ofMembers_iff.mpr hscalars
  have hnodup := (Json.storable_obj_iff.mp (Json.storable_of_ofText htext)).1
  refine ⟨evidence, ?_, find?_of_ofMembers hnodup hevidence⟩
  rw [ofText, htext]
  exact hevidence

end Evidence

/-! ## Rules -/

/-- The document compares a field with a value, and nothing else in it keeps it from being compiled
as a rule. -/
structure Document.Compares (d : Document) (input : String) (o : Operator) (v : Json) : Prop where
  input_eq : Json.lookup "input" d.spec = some (.str input)
  operator_eq : Json.lookup "operator" d.spec = some (.str o.name)
  value_eq : Json.lookup "value" d.spec = some v
  type_eq : ∃ ruleType, Json.lookup "type" d.spec = some (.str ruleType)
  evidenceType : ∃ e, Option.Rel Json.RefersTo (Json.lookup "evidenceTypeRef" d.spec) e

namespace Rule

variable {d : Document} {input : String} {o : Operator} {v : Json} {s : Scalar}

theorem exists_compile {source : Json} (hd : Document.ofJson .rule source = .ok d)
    (h : d.Compares input o v) (hs : Scalar.ofJson? v = some s) (registered : Registry)
    (builtAt : UInt64) :
    ∃ a ruleType, compile .rule registered builtAt source = .ok a ∧
      a.payload = .rule ⟨input, o.name, s, ruleType⟩ := by
  obtain ⟨ruleType, htype⟩ := h.type_eq
  obtain ⟨e, he⟩ := h.evidenceType
  have hvalue : Scalar.ofJson? ((Json.lookup "value" d.spec).getD .null) = some s := by
    rw [h.value_eq]
    exact hs
  have hbody := Compilation.rule_eq_ok_iff.mpr
    ⟨⟨input, o.name, s, ruleType⟩, e, h.input_eq, h.operator_eq, htype, hvalue, he, rfl⟩
  exact ⟨_, ruleType, compile_eq_ok_iff.mpr ⟨d, _, hd, hbody, rfl⟩, rfl⟩

/-- A rule on equality says yes, and one on inequality no, to what is the literal itself. -/
theorem evaluate_self {ruleType : String} {evidence : EvidenceSource} (ho : ¬ o.IsOrdering)
    (hs : s.Portable) (h : evidence input = some s) :
    (evaluate evidence ⟨input, o.name, s, ruleType⟩).result = .ok (decide (o = .equal)) := by
  rw [evaluate_of_some h, comparison, Operator.ofName, Operator.ofName?_name]
  exact Operator.apply_self ho input hs

/-- A document that asks for equality or inequality with a scalar compiles to an artifact that is
read back from its envelope as a rule. Evidence that was read from the same scalar is equal to the
literal of this rule, whether it was read by itself or with the text that it stands in. -/
theorem evaluate_literal {text : String} (hv : Json.ofText text = .ok v) (hscalar : v.IsScalar)
    {source : Json} (hd : Document.ofJson .rule source = .ok d) (h : d.Compares input o v)
    (ho : ¬ o.IsOrdering) (registered : Registry) (builtAt : UInt64) :
    ∃ a b r, compile .rule registered builtAt source = .ok a ∧
      Artifact.ofText a.toJson.compact = .ok b ∧ Artifact.ofText a.toJson.pretty = .ok b ∧
      b.payload = .rule r ∧
      (∀ evidence : EvidenceSource, evidence input = Scalar.ofJson? v →
        (r.evaluate evidence).result = .ok (decide (o = .equal))) ∧
      ∀ evidenceText members, Json.ofText evidenceText = .ok (.obj members) →
        Json.lookup input members = some v → (∀ m ∈ members, m.2.IsScalar) →
        ∃ evidence, Evidence.ofText evidenceText = .ok evidence ∧
          (r.evaluate evidence.find?).result = .ok (decide (o = .equal)) := by
  obtain ⟨s, hs⟩ := Json.isScalar_iff.mp hscalar
  have hportable : s.Portable :=
    Scalar.portable_of_ofJson? (Json.storable_of_ofText hv).inRange hs
  obtain ⟨a, ruleType, ha, hpayload⟩ := exists_compile hd h hs registered builtAt
  have settled : a.Settled := by
    refine Artifact.Portable.settled ?_ ?_
    · rw [Artifact.Portable, hpayload]
      exact hportable
    · simp [Artifact.kind, hpayload, Payload.kind]
  refine ⟨a, a, _, ha, settled.ofText_compact, settled.ofText_pretty, hpayload, ?_, ?_⟩
  · intro evidence hevidence
    exact evaluate_self ho hportable (hevidence.trans hs)
  · intro evidenceText members htext hlookup hscalars
    obtain ⟨evidence, hread, hfind⟩ := Evidence.exists_ofText htext hscalars
    refine ⟨evidence, hread, evaluate_self ho hportable ?_⟩
    rw [hfind, hlookup]
    exact hs

/-- A document that compares a count with a value. -/
def countDocument (o : Operator) (v : Json) : Document :=
  ⟨"c", 1, [("type", .str "EQUALITY"), ("input", .str "count"), ("operator", .str o.name),
    ("value", v)]⟩

def countSource (o : Operator) (v : Json) : Json :=
  (Library.document .rule "c" (countDocument o v).spec).content

theorem ofJson_countSource (o : Operator) (v : Json) :
    Document.ofJson .rule (countSource o v) = .ok (countDocument o v) := rfl

theorem compares_countDocument (o : Operator) (v : Json) :
    (countDocument o v).Compares "count" o v where
  input_eq := rfl
  operator_eq := rfl
  value_eq := rfl
  type_eq := ⟨"EQUALITY", rfl⟩
  evidenceType := ⟨none, .none⟩

/-- Evidence of a count. -/
def countEvidence (v : Json) : Json := .obj [("count", v)]

/-- An integer that is too large for 64 signed bits equals itself, and minus zero does not differ
from itself. -/
theorem evaluate_literal_unusual :
    (∃ a b r evidence, compile .rule Table.empty 0
        (countSource .equal (.num (.int 18446744073709551615))) = .ok a ∧
      Artifact.ofText a.toJson.pretty = .ok b ∧ b.payload = .rule r ∧
      Evidence.ofText (countEvidence (.num (.int 18446744073709551615))).compact = .ok evidence ∧
      (r.evaluate evidence.find?).result = .ok true) ∧
    ∃ a b r evidence, compile .rule Table.empty 0
        (countSource .notEqual (.num (.decimal ⟨0x8000000000000000⟩))) = .ok a ∧
      Artifact.ofText a.toJson.pretty = .ok b ∧ b.payload = .rule r ∧
      Evidence.ofText (countEvidence (.num (.decimal ⟨0x8000000000000000⟩))).compact =
        .ok evidence ∧
      (r.evaluate evidence.find?).result = .ok false := by
  have evaluated (o : Operator) (ho : ¬ o.IsOrdering) (n : Json.Number) (hn : n.InRange) :
      ∃ a b r evidence, compile .rule Table.empty 0 (countSource o (.num n)) = .ok a ∧
        Artifact.ofText a.toJson.pretty = .ok b ∧ b.payload = .rule r ∧
        Evidence.ofText (countEvidence (.num n)).compact = .ok evidence ∧
        (r.evaluate evidence.find?).result = .ok (decide (o = .equal)) := by
    have hnumber : Json.ofText (Json.num n).compact = .ok (.num n) := Json.ofText_compact (.num hn)
    have hmembers : Json.ofText (countEvidence (.num n)).compact = .ok (.obj [("count", .num n)]) :=
      Json.ofText_compact (.obj (by simp) (by simpa using hn))
    obtain ⟨a, b, r, ha, -, hb, hr, -, hevaluate⟩ := evaluate_literal hnumber trivial
      (ofJson_countSource o _) (compares_countDocument o _) ho Table.empty 0
    obtain ⟨evidence, hread, hresult⟩ := hevaluate _ _ hmembers rfl (by simp [Json.IsScalar])
    exact ⟨a, b, r, evidence, ha, hb, hr, hread, hresult⟩
  exact ⟨evaluated .equal (by decide) _ ⟨by decide, by decide⟩,
    evaluated .notEqual (by decide) (.decimal ⟨0x8000000000000000⟩) rfl⟩

end Rule
end Verdict
