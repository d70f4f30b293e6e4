import Verdict.Proofs.Artifact.Envelope
import Verdict.Proofs.Compilation.Library
import Verdict.Proofs.Payload.References

/-!
# What is compiled can be stored

A document that was read from a text compiles to a portable artifact: its literal stands in the text,
its tree is nested no deeper than the expression it is compiled from, and no field is declared twice.
-/

namespace Verdict

open Results

/-- A member of an object is nested less deeply than the object. -/
theorem Json.Storable.lookup {n : ℕ} {ms : List (String × Json)} (h : (Json.obj ms).Storable n)
    {key : String} {v : Json} (hv : Json.lookup key ms = some v) :
    ∃ k, n = k + 1 ∧ v.Storable k := by
  cases h with
  | @obj k _ _ hall => exact ⟨k, rfl, hall _ (Json.mem_of_lookup hv)⟩

/-! ## Trees -/

/-- A tree is nested no deeper than the expression it is compiled from. -/
theorem storable_of_compileNode {id : String} {n : ℕ} {j : Json} (hj : j.Storable n)
    {e : Expression} (h : compileNode id j = .ok e) : e.toJson.Storable n := by
  refine compileNode_induct (P := fun j e => ∀ n, j.Storable n → e.toJson.Storable n)
    ?ruleRef ?logical h n hj
  case ruleRef =>
    intro members reference v _ _ n hj
    cases hj with
    | obj _ _ => exact Expression.storable_ruleRef _ v
  case logical =>
    intro members operator items es hjoins _ hitems n hj
    obtain ⟨k, rfl, hoperands⟩ := hj.lookup hjoins.operands_eq
    cases hoperands with
    | arr hall =>
      refine Expression.storable_logical operator fun e he => ?_
      obtain ⟨item, hitem, hstorable⟩ := exists_of_forall₂ hitems he
      exact hstorable _ (hall item hitem)

/-! ## Documents -/

/-- The spec of a document is two levels below the document. -/
theorem Document.storable_spec {n : ℕ} {kind : Kind} {source : Json} (hs : source.Storable n)
    {d : Document} (h : Document.ofJson kind source = .ok d) :
    ∃ k, n = k + 1 ∧ (Json.obj d.spec).Storable k := by
  obtain ⟨-, -, -, hspec, -⟩ := Document.ofJson_eq_ok_iff.mp h
  cases source with
  | obj ms => exact hs.lookup hspec
  | _ => cases hspec

theorem Compilation.portable_rule {n : ℕ} {d : Document} (hs : (Json.obj d.spec).Storable n)
    {c : Compiled} (h : rule d = .ok c) : c.payload.Portable := by
  obtain ⟨r, e, -, -, -, hvalue, -, rfl⟩ := rule_eq_ok_iff.mp h
  refine Scalar.portable_of_ofJson? ?_ hvalue
  cases hl : Json.lookup "value" d.spec with
  | none => trivial
  | some v =>
    obtain ⟨k, -, hv⟩ := hs.lookup hl
    exact hv.inRange

/-- The payload of a ruleset is nested no deeper than the spec it is compiled from, unless that is
but the name of a rule. -/
theorem Compilation.storable_ruleset {n : ℕ} {d : Document} (hs : (Json.obj d.spec).Storable n)
    {c : Compiled} (h : ruleset d = .ok c) : c.payload.toJson.Storable (max n 2) := by
  obtain ⟨root, hroot, rfl⟩ := ruleset_eq_ok_iff.mp h
  suffices H : root.toJson.Storable (max n 2 - 1) by
    refine Json.Storable.mono (m := max n 2 - 1 + 1) (by omega) (.obj (by simp) ?_)
    simp only [List.forall_mem_cons]
    exact ⟨H, by simp⟩
  rcases hroot with ⟨e, he, hnode⟩ | ⟨-, reference, r, -, -, rfl⟩
  · obtain ⟨k, rfl, hv⟩ := hs.lookup he
    exact (storable_of_compileNode hv hnode).mono (by omega)
  · exact (Expression.storable_ruleRef 0 r).mono (by omega)

/-- Whatever is compiled is portable, but for a tree that is nested too deeply. -/
theorem Compilation.portable_of_body {n : ℕ} {d : Document} (hs : (Json.obj d.spec).Storable n)
    {kind : Kind} {registered : Registry} {c : Compiled} (h : body kind registered d = .ok c)
    (hdeep : ruleset d = .ok c → c.payload.toJson.Storable payloadDepth) : c.payload.Portable := by
  cases kind with
  | evidenceType =>
    obtain ⟨entries, fields, -, hfields, rfl⟩ := evidenceType_eq_ok_iff.mp h
    exact evidenceFields_induct (fun _ _ h => h.insert _ _) Table.distinct_empty hfields
  | rule => exact portable_rule hs h
  | ruleset =>
    have hstorable := hdeep h
    obtain ⟨root, -, rfl⟩ := ruleset_eq_ok_iff.mp h
    exact hstorable
  | task =>
    obtain ⟨t, -, -, -, -, rfl⟩ := task_eq_ok_iff.mp h
    trivial
  | challenge =>
    obtain ⟨tasks, -, -, rfl⟩ := challenge_eq_ok_iff.mp h
    trivial

/-- What is compiled from a value that can be stored is portable. -/
theorem portable_of_compile {kind : Kind} {registered : Registry} {builtAt : UInt64}
    {source : Json} (hs : source.Storable Json.Draft.depthLimit) {a : Artifact}
    (h : compile kind registered builtAt source = .ok a) : a.Portable := by
  obtain ⟨d, c, hd, hc, rfl⟩ := compile_eq_ok_iff.mp h
  obtain ⟨k, hk, hspec⟩ := Document.storable_spec hs hd
  cases hk
  exact Compilation.portable_of_body hspec hc fun hruleset =>
    Compilation.storable_ruleset hspec hruleset

/-! ## Texts -/

theorem SourceUnit.portable_of_ofText {origin text : String} {u : SourceUnit}
    (hu : ofText origin text = .ok u) {kind : Kind} {registered : Registry} {builtAt : UInt64}
    {a : Artifact} (ha : compile kind registered builtAt u.content = .ok a) : a.Portable := by
  obtain ⟨content, hcontent, hunit⟩ := ofText_eq_ok_iff.mp hu
  obtain ⟨-, rfl, -⟩ := ofJson_eq_ok_iff.mp hunit
  exact portable_of_compile (Json.storable_of_ofText hcontent) ha

/-- What is compiled from a document given as text is read back from the text of its envelope,
however that is laid out: it is the same artifact, with the very same literal if it is a rule. The
envelope is nested no deeper than a document may be. -/
theorem ofText_toJson_of_compile {origin text : String} {u : SourceUnit}
    (hu : SourceUnit.ofText origin text = .ok u) {registered : Registry} {builtAt : UInt64}
    {a : Artifact} (ha : compile u.kind registered builtAt u.content = .ok a) :
    a.toJson.depth ≤ Json.Draft.depthLimit ∧
      ∃ b, Artifact.ofText a.toJson.compact = .ok b ∧ Artifact.ofText a.toJson.pretty = .ok b ∧
        b.reference = a.reference ∧ a.same b = true ∧
        ∀ r, a.payload = .rule r → b.payload = .rule r := by
  have portable : a.Portable := SourceUnit.portable_of_ofText hu ha
  obtain ⟨b, hread, href, hsame⟩ := portable.ofText_pretty
  refine ⟨portable.storable.depth_le, b, portable.ofText_compact.trans hread, hread, href, hsame,
    ?_⟩
  intro r hr
  have hpayload := Artifact.payload_same hsame
  rw [hr] at hpayload
  exact Payload.eq_of_rule_same hpayload

/-- A rule with a literal that is too large for an integer. -/
def hugeRule : SourceUnit :=
  Library.readDocument .rule "huge" [("type", .str "EQUALITY"), ("input", .str "count"),
    ("operator", .str "=="), ("value", .num (.int 18446744073709551615))]

theorem ofText_toJson_of_compile_hugeRule :
    ∃ text a b r, SourceUnit.ofText "huge" text = .ok hugeRule ∧
      compile .rule Table.empty 0 hugeRule.content = .ok a ∧ a.payload = .rule r ∧
      (∃ d, r.value = .decimal d) ∧ Artifact.ofText a.toJson.compact = .ok b ∧
      b.payload = .rule r := by
  have hread : SourceUnit.ofText "huge" _ = .ok hugeRule :=
    Library.ofText_readDocument (Json.Storable.mono (m := 2) (by decide)
      (by simp [Library.document, Json.Number.InRange])) rfl
  have hok : ∃ a, compile .rule Table.empty 0 hugeRule.content = .ok a := ⟨_, rfl⟩
  obtain ⟨a, ha⟩ := hok
  obtain ⟨-, b, hcompact, -, -, -, hrule⟩ := ofText_toJson_of_compile hread ha
  obtain ⟨r, hr, hvalue⟩ : ∃ r, a.payload = .rule r ∧ ∃ d, r.value = .decimal d := by
    cases ha
    exact ⟨_, rfl, _, rfl⟩
  exact ⟨_, a, b, r, hread, ha, hr, hvalue, hcompact, hrule r hr⟩

end Verdict
