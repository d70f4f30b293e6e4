import Verdict.Proofs.Compilation.Document
import Verdict.Proofs.Evaluation.Questions

/-!
# Declared dependencies

A compiled artifact declares what its payload refers to: a challenge its tasks, a task its ruleset
and a ruleset the rules at its leaves. An evaluation of the payload looks up nothing else. The
evidence type that a rule may declare is not looked up by any evaluation.
-/

namespace Verdict

open Results

theorem VersionedId.withKind_injective (kind : Kind) :
    Function.Injective fun v : VersionedId => v.withKind kind := by
  rintro ⟨id, version⟩ ⟨id', version'⟩ h
  cases h
  rfl

namespace Payload

/-- The references that an artifact with a payload has to declare. A challenge declares its tasks in
their order, and a ruleset every rule once, in the order in which the leaves first name them. -/
inductive Declares : Payload → List Reference → Prop
  | evidenceType (body : EvidenceType) : Declares (.evidenceType body) []
  | rule (body : Rule) {declared : List Reference} : declared.length ≤ 1 →
      (∀ r ∈ declared, r.kind = .evidenceType) → Declares (.rule body) declared
  | ruleset (body : Ruleset) {declared : List Reference} :
      ListsFirst (body.root.leaves.map fun key => key.withKind .rule) declared →
      Declares (.ruleset body) declared
  | task (body : Task) : Declares (.task body) [body.ruleset.withKind .ruleset]
  | challenge (body : Challenge) :
      Declares (.challenge body) (body.tasks.map fun key => key.withKind .task)

/-- Whatever a payload refers to is declared. -/
theorem Declares.mem {p : Payload} {declared : List Reference} (h : p.Declares declared) :
    ∀ r ∈ p.references, r ∈ declared := by
  cases h with
  | evidenceType body => exact nofun
  | rule body _ _ => exact nofun
  | ruleset body hlists => exact fun r hr => (hlists.mem_iff r).mpr hr
  | task body => exact fun r hr => hr
  | challenge body => exact fun r hr => hr

end Payload

/-- The dependencies of what is compiled are those of its payload, one case per kind. -/
theorem Compilation.declares_of_body {kind : Kind} {registered : Registry} {d : Document}
    {c : Compiled} (h : body kind registered d = .ok c) : c.payload.Declares c.dependencies := by
  cases kind with
  | evidenceType =>
    obtain ⟨-, fields, -, -, rfl⟩ := evidenceType_eq_ok_iff.mp h
    exact .evidenceType ⟨fields⟩
  | rule =>
    obtain ⟨r, e, -, -, -, -, -, rfl⟩ := rule_eq_ok_iff.mp h
    refine .rule r ?_ ?_
    · cases e <;> simp
    · intro declared hdeclared
      obtain ⟨v, -, rfl⟩ := List.mem_map.mp hdeclared
      rfl
  | ruleset =>
    obtain ⟨root, -, rfl⟩ := ruleset_eq_ok_iff.mp h
    exact .ruleset ⟨root⟩ (root.listsFirst_ruleRefs.map (VersionedId.withKind_injective .rule))
  | task =>
    obtain ⟨t, -, -, -, -, rfl⟩ := task_eq_ok_iff.mp h
    exact .task t
  | challenge =>
    obtain ⟨tasks, -, -, rfl⟩ := challenge_eq_ok_iff.mp h
    exact .challenge ⟨tasks⟩

/-- Whatever document is compiled, and whatever is registered by then: the artifact has the kind of
the document and declares what its payload refers to, each with its kind, id and version. So two
archives that hold the artifact and agree from its dependencies on answer every question about it
alike. -/
theorem dependencies_of_compile {kind : Kind} {registered : Registry} {builtAt : UInt64}
    {source : Json} {a : Artifact} (h : compile kind registered builtAt source = .ok a) :
    a.payload.kind = kind ∧ a.payload.Declares a.dependencies ∧
      (∀ r ∈ a.payload.references, r ∈ a.dependencies) ∧
      ∀ (l l' : LoadedArchive) (e e' : Evaluator), e.Asked l → e'.Asked l' →
        l.artifact? a.reference = some a → l'.artifact? a.reference = some a →
        (∀ r ∈ a.dependencies, l.AgreesFrom l' r) →
        ∀ q : Question, q.subject = a.reference → (e.ask q).2 = (e'.ask q).2 := by
  obtain ⟨d, c, -, hc, rfl⟩ := compile_eq_ok_iff.mp h
  have hdeclares := Compilation.declares_of_body hc
  refine ⟨Compilation.body_kind hc, hdeclares, hdeclares.mem, ?_⟩
  intro l l' e e' he he' ha ha' agrees q hq
  apply he.serves.ask_eq he'.serves
  rw [hq]
  exact .of_references ha ha' fun r hr => agrees r (hdeclares.mem r hr)

/-- A ruleset that names one of its two rules twice. -/
def ageLimits : Json :=
  let rule (id : String) : Json := .obj [("ruleRef", .str id)]
  .obj [("id", .str "ages"), ("version", .num (.int 1)), ("spec", .obj [("expression",
    .obj [("operator", .str "OR"), ("operands", .arr [rule "adult", .obj [("operator", .str "AND"),
      ("operands", .arr [rule "resident", rule "adult"])]])])])]

/-- What the ruleset compiles to. -/
def compiledAgeLimits : Artifact :=
  ⟨"ages", 1, ⟨compilerVersion, 0, Sha256.hexDigest ageLimits.canonical⟩,
    [⟨.rule, "adult", 1⟩, ⟨.rule, "resident", 1⟩], .ruleset ⟨.logical .or [.ruleRef ⟨"adult", 1⟩,
      .logical .and [.ruleRef ⟨"resident", 1⟩, .ruleRef ⟨"adult", 1⟩]]⟩⟩

/-- An archive with the ruleset, its rules and something else. -/
def archiveOfAges (other : Artifact) : LoadedArchive :=
  let rule (id : String) (r : Rule) : Artifact := ⟨id, 1, ⟨"1.0", 5, ""⟩, [], .rule r⟩
  ⟨⟨"c1", 1, 5, "1.0"⟩, Registry.ofArtifacts [other, compiledAgeLimits,
    rule "adult" ⟨"age", ">=", .integer 18, "THRESHOLD"⟩,
    rule "resident" ⟨"resident", "==", .boolean true, "EQUALITY"⟩]⟩

/-- What else an archive holds, be it another version of a rule, makes no difference to the
ruleset. -/
theorem dependencies_of_compile_ageLimits :
    let a := compiledAgeLimits
    let l := archiveOfAges ⟨"adult", 2, ⟨"1.0", 5, ""⟩, [], .rule ⟨"age", ">=", .integer 21, ""⟩⟩
    let l' := archiveOfAges ⟨"t1", 1, ⟨"1.0", 5, ""⟩, [], .task ⟨⟨"ages", 1⟩, .boolean, [], ""⟩⟩
    compile .ruleset Table.empty 0 ageLimits = .ok a ∧ a.payload.Declares a.dependencies ∧
      l.artifact? a.reference = some a ∧ l'.artifact? a.reference = some a ∧
      (∀ r ∈ a.dependencies, l.AgreesFrom l' r) ∧
      ∀ evidence, ((Evaluator.new l).ask (.ruleset ⟨"ages", 1⟩ evidence)).2 =
        ((Evaluator.new l').ask (.ruleset ⟨"ages", 1⟩ evidence)).2 := by
  intro a l l'
  have hcompile : compile .ruleset Table.empty 0 ageLimits = .ok a := rfl
  obtain ⟨-, hdeclares, -, hanswers⟩ := dependencies_of_compile hcompile
  have agrees : ∀ r ∈ a.dependencies, l.AgreesFrom l' r := by
    have hdependencies : a.dependencies = [⟨.rule, "adult", 1⟩, ⟨.rule, "resident", 1⟩] := rfl
    rw [hdependencies]
    simp only [List.forall_mem_cons]
    exact ⟨.of_references rfl rfl nofun, .of_references rfl rfl nofun, nofun⟩
  exact ⟨hcompile, hdeclares, rfl, rfl, agrees, fun evidence =>
    hanswers l l' _ _ .new .new rfl rfl agrees _ rfl⟩

end Verdict
