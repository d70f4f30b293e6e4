import Verdict.Compilation.Basic
import Verdict.Proofs.Compilation.Expression

/-!
# What a document compiles to

The artifact of a document has the document's own identity. Only a challenge looks at what is
registered, and only whether its tasks are.
-/

namespace Verdict

open Results

theorem Document.ofJson_eq_ok_iff {kind : Kind} {source : Json} {d : Document} :
    ofJson kind source = .ok d ↔ (source.get? "id").bind SourceUnit.nonEmpty? = some d.id ∧
      ValidId d.id ∧ (source.get? "version").bind SourceUnit.version? = some d.version ∧
      source.get? "spec" = some (.obj d.spec) ∧ d.spec ≠ [] := by
  obtain ⟨id', version', spec⟩ := d
  unfold ofJson ValidId
  cases (source.get? "id").bind SourceUnit.nonEmpty? with
  | none => simp
  | some id =>
    cases hf : idFault? id with
    | some fault =>
      simp [hf]
      rintro rfl
      simp [hf]
    | none =>
      cases (source.get? "version").bind SourceUnit.version? with
      | none => simp [hf]
      | some version =>
        rcases source.get? "spec" with _ | s
        · simp [hf]
        · rcases s with _ | _ | _ | _ | _ | ms
          case obj =>
            cases ms with
            | nil => simp [hf]
            | cons m ms =>
              suffices H : id = id' ∧ version = version' ∧ m :: ms = spec ↔
                  id = id' ∧ idFault? id' = none ∧ version = version' ∧ m :: ms = spec ∧
                    ¬spec = [] by
                simpa [hf] using H
              constructor
              · rintro ⟨rfl, rfl, rfl⟩
                exact ⟨rfl, hf, rfl, rfl, by simp⟩
              · tauto
          all_goals simp [hf]

/-- The tasks that the document of a challenge lists. -/
def Document.ListsTasks (d : Document) (tasks : List VersionedId) : Prop :=
  ∃ entries, (Json.lookup "tasks" d.spec).bind Json.asArray? = some entries ∧
    List.Forall₂ (fun entry t => versionedRef "tasks[]" (some entry) = .ok t) entries tasks

namespace Compilation

/-- What entering a field under its own name keeps, compiling fields keeps. -/
theorem evidenceFields_induct {P : Table String EvidenceField → Prop}
    (step : ∀ t field, P t → P (t.insert field.name field)) {entries : List Json}
    {before fields : Table String EvidenceField} (hbefore : P before)
    (h : evidenceFields before entries = .ok fields) : P fields := by
  induction entries generalizing before with
  | nil =>
    cases h
    exact hbefore
  | cons entry entries ih =>
    rw [evidenceFields] at h
    obtain ⟨field, -, h⟩ := bind_eq_ok_iff.mp h
    split_ifs at h
    · cases h
    · exact ih (step before field hbefore) h

theorem evidenceType_eq_ok_iff {d : Document} {c : Compiled} :
    evidenceType d = .ok c ↔ ∃ entries fields, Json.lookup "fields" d.spec = some (.arr entries) ∧
      evidenceFields Table.empty entries = .ok fields ∧ c = ⟨.evidenceType ⟨fields⟩, []⟩ := by
  simp only [← Json.bind_asArray?_eq_some_iff]
  unfold evidenceType
  cases (Json.lookup "fields" d.spec).bind Json.asArray? with
  | none => simp
  | some entries => simp [ofDocument, bind_eq_ok_iff, mapError_eq_ok_iff, @eq_comm _ c]

/-- A rule depends on the evidence type that its document refers to, if it refers to one. -/
theorem rule_eq_ok_iff {d : Document} {c : Compiled} :
    rule d = .ok c ↔ ∃ (r : Rule) (e : Option VersionedId),
      Json.lookup "input" d.spec = some (.str r.input) ∧
      Json.lookup "operator" d.spec = some (.str r.operator) ∧
      Json.lookup "type" d.spec = some (.str r.ruleType) ∧
      Scalar.ofJson? ((Json.lookup "value" d.spec).getD .null) = some r.value ∧
      Option.Rel Json.RefersTo (Json.lookup "evidenceTypeRef" d.spec) e ∧
      c = ⟨.rule r, e.toList.map fun v => v.withKind .evidenceType⟩ := by
  simp only [rule, ofDocument, bind_eq_ok_iff, mapError_eq_ok_iff, requiredText_eq_ok_iff]
  constructor
  · rintro ⟨input, hinput, operator, hoperator, ruleType, htype, h⟩
    split at h
    case h_1 value hvalue =>
      cases hl : Json.lookup "evidenceTypeRef" d.spec with
      | none =>
        simp only [hl] at h
        cases h
        exact ⟨⟨input, operator, value, ruleType⟩, none, hinput, hoperator, htype, hvalue, .none,
          rfl⟩
      | some reference =>
        simp only [hl, bind_eq_ok_iff, mapError_eq_ok_iff, versionedRef_eq_ok_iff] at h
        obtain ⟨v, ⟨j, hj, hv⟩, dependencies, hdependencies, hc⟩ := h
        cases hj
        cases hdependencies
        cases hc
        exact ⟨⟨input, operator, value, ruleType⟩, some v, hinput, hoperator, htype, hvalue,
          .some hv, rfl⟩
    case h_2 => cases h
  · rintro ⟨r, e, hinput, hoperator, htype, hvalue, he, rfl⟩
    refine ⟨r.input, hinput, r.operator, hoperator, r.ruleType, htype, ?_⟩
    rw [hvalue]
    cases hl : Json.lookup "evidenceTypeRef" d.spec with
    | none =>
      rw [hl] at he
      cases he
      rfl
    | some reference =>
      rw [hl] at he
      cases he with
      | @some _ v hv =>
        have hread : versionedRef "evidenceTypeRef" (some reference) = .ok v :=
          versionedRef_eq_ok_iff.mpr ⟨reference, rfl, hv⟩
        simp [hread, Except.mapError]

theorem ruleset_eq_ok_iff {d : Document} {c : Compiled} :
    ruleset d = .ok c ↔ ∃ root : Expression,
      ((∃ e, Json.lookup "expression" d.spec = some e ∧ compileNode d.id e = .ok root) ∨
        Json.lookup "expression" d.spec = none ∧ ∃ reference v,
          Json.lookup "ruleRef" d.spec = some reference ∧
          reference.RefersToRule (Json.lookup "version" d.spec) v ∧ root = .ruleRef v) ∧
      c = ⟨.ruleset ⟨root⟩, root.ruleRefs.map fun r => r.withKind .rule⟩ := by
  unfold ruleset
  cases Json.lookup "expression" d.spec with
  | some e => simp [bind_eq_ok_iff, @eq_comm _ c]
  | none =>
    cases Json.lookup "ruleRef" d.spec with
    | some reference => simp [bind_eq_ok_iff, ruleRef_eq_ok_iff, @eq_comm _ c]
    | none => simp [expressionFault]

theorem task_eq_ok_iff {d : Document} {c : Compiled} :
    task d = .ok c ↔ ∃ t : Task,
      (∃ reference, Json.lookup "rulesetRef" d.spec = some reference ∧
        reference.RefersTo t.ruleset) ∧
      (∃ name, Json.lookup "resultType" d.spec = some (.str name) ∧
        ResultType.ofName? name = some t.resultType) ∧
      actions (Json.lookup "actions" d.spec) = .ok t.actions ∧
      t.description = ((Json.lookup "description" d.spec).bind Json.asString?).getD "" ∧
      c = ⟨.task t, [t.ruleset.withKind .ruleset]⟩ := by
  simp only [task, ofDocument, mapError_eq_ok_iff, bind_eq_ok_iff, versionedRef_eq_ok_iff,
    requiredText_eq_ok_iff]
  constructor
  · rintro ⟨reference, href, name, hname, h⟩
    split at h
    case h_1 resultType htype =>
      obtain ⟨as, has, h⟩ := bind_eq_ok_iff.mp h
      cases h
      exact ⟨⟨reference, resultType, as, _⟩, href, ⟨name, hname, htype⟩, has, rfl, rfl⟩
    case h_2 => cases h
  · rintro ⟨t, href, ⟨name, hname, htype⟩, has, hdescription, rfl⟩
    refine ⟨t.ruleset, href, name, hname, ?_⟩
    rw [htype, has, ← hdescription]
    rfl

theorem taskRef_eq_ok_iff {id : String} {registered : Registry} {entry : Json} {t : VersionedId} :
    taskRef id registered entry = .ok t ↔ versionedRef "tasks[]" (some entry) = .ok t ∧
      registered.contains (t.withKind .task) = true := by
  unfold taskRef ofDocument
  simp only [bind_eq_ok_iff, mapError_eq_ok_iff]
  constructor
  · rintro ⟨t', ht, h⟩
    split_ifs at h with hc
    · cases h
      exact ⟨ht, hc⟩
  · rintro ⟨ht, hc⟩
    exact ⟨t, ht, by simp [hc]⟩

/-- A challenge compiles if it lists its tasks as it should and all of them are registered. -/
theorem challenge_eq_ok_iff {registered : Registry} {d : Document} {c : Compiled} :
    challenge registered d = .ok c ↔ ∃ tasks, d.ListsTasks tasks ∧
      (∀ t ∈ tasks, registered.contains (t.withKind .task) = true) ∧
      c = ⟨.challenge ⟨tasks⟩, tasks.map fun t => t.withKind .task⟩ := by
  unfold challenge Document.ListsTasks
  cases (Json.lookup "tasks" d.spec).bind Json.asArray? with
  | none => simp
  | some entries =>
    simp only [bind_eq_ok_iff, mapM_eq_ok_iff, taskRef_eq_ok_iff, forall₂_and_right,
      Option.some.injEq, exists_eq_left', pure_eq, Except.ok.injEq]
    constructor
    · rintro ⟨tasks, ⟨h, hc⟩, rfl⟩
      exact ⟨tasks, h, hc, rfl⟩
    · rintro ⟨tasks, h, hc, rfl⟩
      exact ⟨tasks, ⟨h, hc⟩, rfl⟩

/-- A payload is of the kind that its document is compiled as. -/
theorem body_kind {kind : Kind} {registered : Registry} {d : Document} {c : Compiled}
    (h : body kind registered d = .ok c) : c.payload.kind = kind := by
  cases kind with
  | evidenceType =>
    obtain ⟨-, fields, -, -, rfl⟩ := evidenceType_eq_ok_iff.mp h
    rfl
  | rule =>
    obtain ⟨r, e, -, -, -, -, -, rfl⟩ := rule_eq_ok_iff.mp h
    rfl
  | ruleset =>
    obtain ⟨root, -, rfl⟩ := ruleset_eq_ok_iff.mp h
    rfl
  | task =>
    obtain ⟨t, -, -, -, -, rfl⟩ := task_eq_ok_iff.mp h
    rfl
  | challenge =>
    obtain ⟨tasks, -, -, rfl⟩ := challenge_eq_ok_iff.mp h
    rfl

/-- Only a challenge looks at what is registered. -/
theorem body_of_ne_challenge {kind : Kind} (h : kind ≠ .challenge)
    (registered registered' : Registry)
    (d : Document) : body kind registered d = body kind registered' d := by
  cases kind with
  | challenge => exact absurd rfl h
  | _ => rfl

theorem taskRef_congr {registered registered' : Registry}
    (h : ∀ t : VersionedId, registered.contains (t.withKind .task) =
      registered'.contains (t.withKind .task)) (id : String) :
    taskRef id registered = taskRef id registered' := by
  funext entry
  unfold taskRef
  simp only [h]

/-- A challenge looks at nothing but whether tasks are registered. -/
theorem body_congr {registered registered' : Registry}
    (h : ∀ t : VersionedId, registered.contains (t.withKind .task) =
      registered'.contains (t.withKind .task)) (kind : Kind) (d : Document) :
    body kind registered d = body kind registered' d := by
  cases kind with
  | challenge => simp only [body, challenge, taskRef_congr h]
  | _ => rfl

end Compilation

section Compile

variable {kind : Kind} {registered registered' : Registry} {builtAt : UInt64} {source : Json}
  {a : Artifact}

theorem compile_eq_ok_iff :
    compile kind registered builtAt source = .ok a ↔
      ∃ d c, Document.ofJson kind source = .ok d ∧ Compilation.body kind registered d = .ok c ∧
        a = ⟨d.id, d.version, ⟨compilerVersion, builtAt, Sha256.hexDigest source.canonical⟩,
          c.dependencies, c.payload⟩ := by
  unfold compile
  simp only [bind_eq_ok_iff, pure_eq, Except.ok.injEq]
  constructor
  · rintro ⟨d, hd, c, hc, rfl⟩
    exact ⟨d, c, hd, hc, rfl⟩
  · rintro ⟨d, c, hd, hc, rfl⟩
    exact ⟨d, hd, c, hc, rfl⟩

/-- What is compiled as a kind has a payload of the kind. -/
theorem kind_of_compile (h : compile kind registered builtAt source = .ok a) :
    a.payload.kind = kind := by
  obtain ⟨d, c, -, hc, rfl⟩ := compile_eq_ok_iff.mp h
  exact Compilation.body_kind hc

theorem validId_of_compile (h : compile kind registered builtAt source = .ok a) : ValidId a.id := by
  obtain ⟨d, c, hd, -, rfl⟩ := compile_eq_ok_iff.mp h
  exact (Document.ofJson_eq_ok_iff.mp hd).2.1

theorem compile_of_ne_challenge (h : kind ≠ .challenge) (registered registered' : Registry) :
    compile kind registered builtAt source = compile kind registered' builtAt source := by
  unfold compile
  simp only [Compilation.body_of_ne_challenge h registered registered']

theorem compile_congr (h : ∀ t : VersionedId, registered.contains (t.withKind .task) =
    registered'.contains (t.withKind .task)) :
    compile kind registered builtAt source = compile kind registered' builtAt source := by
  unfold compile
  simp only [Compilation.body_congr h]

/-- An artifact has the identity of the document it is compiled from. -/
theorem reference_of_compile {u : SourceUnit} (hu : u.Parsed)
    (h : compile u.kind registered builtAt u.content = .ok a) : a.reference = u.reference := by
  obtain ⟨d, c, hd, hc, rfl⟩ := compile_eq_ok_iff.mp h
  obtain ⟨-, -, -, hid, hversion⟩ := SourceUnit.ofJson_eq_ok_iff.mp hu
  obtain ⟨hdid, -, hdversion, -⟩ := Document.ofJson_eq_ok_iff.mp hd
  rw [hid, Option.some.injEq] at hdid
  rw [hversion, Option.some.injEq] at hdversion
  simp [Artifact.reference, Artifact.kind, SourceUnit.reference, Compilation.body_kind hc, hdid,
    hdversion]

/-- A challenge compiles if its document is well formed and all its tasks are registered. -/
theorem compile_challenge_isOk_iff :
    (∃ a, compile .challenge registered builtAt source = .ok a) ↔
      ∃ d tasks, Document.ofJson .challenge source = .ok d ∧ d.ListsTasks tasks ∧
        ∀ t ∈ tasks, registered.contains (t.withKind .task) = true := by
  simp only [compile_eq_ok_iff, Compilation.body, Compilation.challenge_eq_ok_iff]
  constructor
  · rintro ⟨a, d, c, hd, ⟨tasks, hl, hc, -⟩, -⟩
    exact ⟨d, tasks, hd, hl, hc⟩
  · rintro ⟨d, tasks, hd, hl, hc⟩
    exact ⟨_, d, _, hd, ⟨tasks, hl, hc, rfl⟩, rfl⟩

end Compile

end Verdict
