import Verdict.Proofs.Compilation.Document
import Verdict.Proofs.Evaluation.Tree
import Verdict.Proofs.Payload.References
import Verdict.Validation.Unit

/-!
# What validated documents compile to

An artifact declares whatever its payload refers to as a dependency. If its document has passed
validation and it is a rule, the rule can compare its literal.
-/

namespace Verdict

open Results

/-! ## References -/

/-- Whatever the payload refers to is declared. -/
def Artifact.Declares (a : Artifact) : Prop := ∀ r ∈ a.payload.references, r ∈ a.dependencies

section Compile

variable {kind : Kind} {registered : Registry} {builtAt : UInt64} {source : Json} {a : Artifact}

theorem declares_of_compile (h : compile kind registered builtAt source = .ok a) : a.Declares := by
  obtain ⟨d, c, -, hc, rfl⟩ := compile_eq_ok_iff.mp h
  intro r hr
  dsimp only at hr ⊢
  cases kind with
  | evidenceType =>
    obtain ⟨-, fields, -, -, rfl⟩ := Compilation.evidenceType_eq_ok_iff.mp hc
    cases hr
  | rule =>
    obtain ⟨body, e, -, -, -, -, -, rfl⟩ := Compilation.rule_eq_ok_iff.mp hc
    cases hr
  | ruleset =>
    obtain ⟨root, -, rfl⟩ := Compilation.ruleset_eq_ok_iff.mp hc
    obtain ⟨key, hkey, rfl⟩ := List.mem_map.mp hr
    exact List.mem_map.mpr ⟨key, Expression.mem_ruleRefs_iff.mpr hkey, rfl⟩
  | task =>
    obtain ⟨t, -, -, -, -, rfl⟩ := Compilation.task_eq_ok_iff.mp hc
    exact hr
  | challenge =>
    obtain ⟨tasks, -, -, rfl⟩ := Compilation.challenge_eq_ok_iff.mp hc
    exact hr

end Compile

/-! ## Rules -/

namespace Validation

theorem spec?_eq_of_ofJson {kind : Kind} {source : Json} {d : Document}
    (h : Document.ofJson kind source = .ok d) : spec? source = some d.spec := by
  obtain ⟨-, -, -, hspec, hne⟩ := Document.ofJson_eq_ok_iff.mp h
  rw [spec?, hspec]
  obtain ⟨m, ms, hms⟩ := List.exists_cons_of_ne_nil hne
  rw [hms]
  rfl

theorem mem_numericOperators {operator : String} (h : operator ∈ numericOperators) :
    ∃ o, Operator.ofName? operator = some o := by
  simp only [numericOperators, List.mem_cons, List.not_mem_nil, or_false] at h
  rcases h with rfl | rfl | rfl | rfl | rfl | rfl
  all_goals exact ⟨_, rfl⟩

theorem mem_equalityOperators {operator : String} (h : operator ∈ equalityOperators) :
    ∃ o, Operator.ofName? operator = some o ∧ ¬o.IsOrdering := by
  simp only [equalityOperators, List.mem_cons, List.not_mem_nil, or_false] at h
  rcases h with rfl | rfl
  · exact ⟨.equal, rfl, by decide⟩
  · exact ⟨.notEqual, rfl, by decide⟩

theorem toBinary64?_of_num {n : Json.Number} {s : Scalar} (h : Scalar.ofJson? (.num n) = some s) :
    s.toBinary64?.isSome = true := by
  cases n with
  | int i =>
    rw [Scalar.ofJson?] at h
    split_ifs at h
    · cases h
      rfl
    · cases h
      rfl
  | decimal d =>
    cases h
    rfl

/-- An operator that passes with a value can compare with it. -/
theorem comparable_of_operatorAndValue {r : Rule} {value : Option Json}
    (h : operatorAndValue r.operator value = [])
    (hvalue : Scalar.ofJson? (value.getD .null) = some r.value) :
    r.Comparable := by
  have hequality : r.operator ∈ equalityOperators → r.Comparable := by
    intro hmem
    obtain ⟨o, ho, hnot⟩ := mem_equalityOperators hmem
    exact ⟨o, ho, fun hordering => absurd hordering hnot⟩
  unfold operatorAndValue at h
  split at h
  case h_1 n =>
    split_ifs at h with hmem
    · obtain ⟨o, ho⟩ := mem_numericOperators hmem
      exact ⟨o, ho, fun _ => toBinary64?_of_num hvalue⟩
  case h_2 s =>
    split_ifs at h with hmem
    · exact hequality hmem
  case h_3 b =>
    split_ifs at h with hmem
    · exact hequality hmem
  case h_4 => cases h

/-- A rule whose document has passed validation can compare its literal. -/
theorem comparable_of_compile {kind : Kind} {registered : Registry} {builtAt : UInt64}
    {source : Json} {a : Artifact} {body : Rule} (hvalid : ofSpec kind source = [])
    (h : compile kind registered builtAt source = .ok a) (ha : a.payload = .rule body) :
    body.Comparable := by
  obtain rfl : Kind.rule = kind := by rw [← kind_of_compile h, ha]; rfl
  obtain ⟨d, c, hd, hc, rfl⟩ := compile_eq_ok_iff.mp h
  obtain ⟨r, e, -, hoperator, -, hvalue, -, rfl⟩ := Compilation.rule_eq_ok_iff.mp hc
  cases ha
  have htext : text? d.spec "operator" = some body.operator :=
    Json.bind_asString?_eq_some_iff.mpr hoperator
  rw [ofSpec, spec?_eq_of_ofJson hd] at hvalid
  dsimp only [rule] at hvalid
  rw [htext, List.append_eq_nil_iff] at hvalid
  exact comparable_of_operatorAndValue hvalid.2 hvalue

end Validation
end Verdict
