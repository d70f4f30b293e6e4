import Verdict.Proofs.Build.Soundness
import Verdict.Proofs.Compilation.Readable
import Verdict.Proofs.Evaluation.Vacuity
import Verdict.Proofs.Validation.Agreement

/-!
# Builds fail closed

Nobody passes the challenge of a completed build without evidence. Validation sees to it that a
challenge has tasks and that every node of a ruleset has operands, and neither is lost on the way
into the archive and out of it.
-/

namespace Verdict

open Results

/-- An expression with two operands wherever it has any is occupied. -/
theorem Expression.Branching.occupied {e : Expression} (h : e.Branching) : e.Occupied := by
  induction h with
  | ruleRef r => exact .ruleRef r
  | logical operator hlength _ ih =>
    apply Expression.Occupied.logical _ ih
    rintro rfl
    simp at hlength

/-! ## Documents that have passed -/

namespace Validation

variable {kind : Kind} {registered : Registry} {builtAt : UInt64} {source : Json} {a : Artifact}

theorem occupied_of_compile (valid : ofSpec kind source = [])
    (h : compile kind registered builtAt source = .ok a) {body : Ruleset}
    (hbody : a.payload = .ruleset body) : body.root.Occupied := by
  obtain rfl : Kind.ruleset = kind := by rw [← kind_of_compile h, hbody]; rfl
  obtain ⟨d, c, hd, hc, rfl⟩ := compile_eq_ok_iff.mp h
  rw [ofSpec, spec?_eq_of_ofJson hd] at valid
  obtain ⟨root, hroot, hbranching⟩ := branching_of_ruleset valid hc
  cases hroot.symm.trans hbody
  exact hbranching.occupied

theorem tasks_ne_nil_of_compile (valid : ofSpec kind source = [])
    (h : compile kind registered builtAt source = .ok a) {body : Challenge}
    (hbody : a.payload = .challenge body) : body.tasks ≠ [] := by
  obtain rfl : Kind.challenge = kind := by rw [← kind_of_compile h, hbody]; rfl
  obtain ⟨d, c, hd, hc, rfl⟩ := compile_eq_ok_iff.mp h
  obtain ⟨tasks, ⟨entries, hentries, hlisted⟩, -, rfl⟩ := Compilation.challenge_eq_ok_iff.mp hc
  cases hbody
  rw [ofSpec, spec?_eq_of_ofJson hd] at valid
  obtain ⟨-, htasks⟩ := List.append_eq_nil_iff.mp valid
  rw [hentries] at htasks
  rintro rfl
  cases hlisted
  cases htasks

end Validation

/-! ## Refusals -/

/-- The result lets nobody pass: evidence is missing, or the value is one that is refused. -/
def Refused {α : Type} (refused : α → Prop) (x : Except EvaluationError α) : Prop :=
  (∃ field, x = .error (.missingEvidence field)) ∨ ∃ a, x = .ok a ∧ refused a

theorem Refused.map {α β : Type} {p : α → Prop} {q : β → Prop} {x : Except EvaluationError α}
    (h : Refused p x) {f : α → β} (hf : ∀ a, p a → q (f a)) : Refused q (x.map f) := by
  obtain ⟨field, rfl⟩ | ⟨a, rfl, ha⟩ := h
  · exact .inl ⟨field, rfl⟩
  · exact .inr ⟨f a, rfl, hf a ha⟩

/-- A task whose ruleset is loaded with all its rules, and has operands at every node. -/
def LoadedArchive.Guards (l : LoadedArchive) (key : VersionedId) : Prop :=
  ∃ task ruleset tree, l.task key = .ok task ∧ l.ruleset task.ruleset = .ok ruleset ∧
    Tree.ofExpression l ruleset.root = .ok tree ∧ ruleset.root.Occupied

namespace Evaluator.Serves

variable {l : LoadedArchive} {e : Evaluator} (h : e.Serves l) {evidence : EvidenceSource}
  (nothing : ∀ field, evidence field = none)

include h nothing

theorem refused_evaluateTask {key : VersionedId} (guards : l.Guards key) :
    Refused (fun o => o.task = key ∧ o.passed = false) (e.evaluateTask key evidence).2.result := by
  obtain ⟨task, ruleset, tree, htask, hset, htree, occupied⟩ := guards
  have htask' : e.archive.task key = .ok task := by rw [h.archive_eq, htask]
  have hbuilt : Tree.ofRuleset l task.ruleset = .ok tree :=
    Tree.ofRuleset_eq_ok_iff.mpr ⟨ruleset, hset, htree⟩
  have hevaluate := (h.evaluate task.ruleset evidence).2 tree hbuilt
  have hrefused : Refused (· = false) (tree.evaluate evidence).result :=
    (Tree.evaluate_of_occupied nothing htree occupied).symm.imp_right fun hfalse =>
      ⟨false, hfalse, rfl⟩
  rw [Evaluator.evaluateTask, htask']
  dsimp only
  rw [hevaluate]
  exact hrefused.map fun passed hpassed => ⟨rfl, hpassed⟩

/-- Guarded tasks are refused one and all, up to the first whose rule misses its field. -/
theorem refused_evaluateTasks {keys : List VersionedId} (guards : ∀ key ∈ keys, l.Guards key) :
    Refused (fun os => os.map (·.task) = keys ∧ ∀ o ∈ os, o.passed = false)
      (e.evaluateTasks evidence keys).2.result := by
  induction keys generalizing e with
  | nil => exact .inr ⟨[], rfl, rfl, by simp⟩
  | cons key keys ih =>
    rw [List.forall_mem_cons] at guards
    have hfirst := h.refused_evaluateTask nothing guards.1
    have hnext := h.evaluateTask key evidence
    unfold Evaluator.evaluateTasks
    split
    case h_1 e' asked err heq =>
      rw [heq] at hfirst
      obtain ⟨field, herr⟩ | ⟨o, ho, -⟩ := hfirst
      · cases herr
        exact .inl ⟨field, rfl⟩
      · cases ho
    case h_2 e' asked outcome heq =>
      rw [heq] at hfirst hnext
      obtain ⟨field, herr⟩ | ⟨o, ho, hkey, hpassed⟩ := hfirst
      · cases herr
      · cases ho
        apply (ih hnext guards.2).map
        rintro os ⟨hkeys, hall⟩
        exact ⟨by rw [List.map_cons, hkey, hkeys], List.forall_mem_cons.mpr ⟨hpassed, hall⟩⟩

/-- A challenge with tasks that are all guarded is refused. -/
theorem refused_evaluateChallenge {key : VersionedId} {c : Challenge}
    (hc : l.challenge key = .ok c) (hne : c.tasks ≠ []) (guards : ∀ k ∈ c.tasks, l.Guards k) :
    Refused (fun o => o.tasks ≠ [] ∧ o.passed = false ∧ ∀ t ∈ o.tasks, t.passed = false)
      (e.evaluateChallenge key evidence).2.result := by
  have hc' : e.archive.challenge key = .ok c := by rw [h.archive_eq, hc]
  rw [Evaluator.evaluateChallenge, hc']
  apply (h.refused_evaluateTasks nothing guards).map
  rintro os ⟨hkeys, hall⟩
  have hos : os ≠ [] := by
    rintro rfl
    exact hne hkeys.symm
  refine ⟨hos, ?_, hall⟩
  obtain ⟨o, ho⟩ := List.exists_mem_of_ne_nil os hos
  rw [ChallengeOutcome.passed, List.all_eq_false]
  exact ⟨o, ho, by simp [hall o ho]⟩

end Evaluator.Serves

/-! ## Archives that load -/

/-- If an emitted archive loads, the envelopes of all its artifacts can be read. -/
theorem exists_ofText_of_load {tree tree' : FileTree} {output path : String} {o : Outcome}
    (distinct : (o.reached.map Artifact.reference).Nodup)
    (h : emit tree output o = (tree', .ok path)) {loaded : LoadedArchive}
    (hload : LoadedArchive.load tree' path = .ok loaded) :
    ∀ a ∈ o.reached, ∃ b, Artifact.ofText a.toJson.pretty = .ok b := by
  intro a ha
  obtain ⟨es, hpack, hes⟩ := load_of_emit h
  obtain ⟨-, valid, root, -, -, hpacked⟩ := Emission.pack_eq_ok hpack distinct
  obtain ⟨m, bs, -, hbs, -⟩ := LoadedArchive.ofEntries_eq_ok_iff.mp (hes.symm.trans hload)
  have hfile : Emission.artifactEntry a ∈ Entry.files es :=
    (hpacked.mem_files_iff valid distinct).mpr ⟨a, ha, rfl⟩
  obtain ⟨b, -, -, text, htext, hread⟩ := exists_of_forall₂ hbs.flip hfile
  cases htext
  exact ⟨b, hread⟩

/-! ## Builds -/

namespace Library

/-- Every document holds a JSON value: no object repeats a key, and the numbers are such as a text
can hold. How deep the value is nested does not matter. -/
def WellFormed (l : Library) : Prop := ∀ u ∈ l.loaded, ∃ n, u.content.Storable n

theorem FromTexts.wellFormed {l : Library} (h : l.FromTexts) : l.WellFormed := by
  intro u hu
  obtain ⟨text, htext⟩ := h u hu
  obtain ⟨content, hcontent, hunit⟩ := SourceUnit.ofText_eq_ok_iff.mp htext
  obtain ⟨-, rfl, -⟩ := SourceUnit.ofJson_eq_ok_iff.mp hunit
  exact ⟨_, Json.storable_of_ofText hcontent⟩

end Library

/-- The artifact was compiled from a document that has passed validation. -/
def Artifact.Validated (builtAt : UInt64) (l : Library) (a : Artifact) : Prop :=
  ∃ u ∈ l.loaded, Validation.ofSpec u.kind u.content = [] ∧
    ∃ registered, compile u.kind registered builtAt u.content = .ok a

namespace LoadedArchive.Restores

variable {as : List Artifact} {loaded : LoadedArchive} {builtAt : UInt64} {l : Library}
  (h : loaded.Restores as) (validated : ∀ a ∈ as, a.Validated builtAt l)

include h validated

theorem occupied {key : VersionedId} {ruleset : Ruleset} (hset : loaded.ruleset key = .ok ruleset) :
    ruleset.root.Occupied := by
  obtain ⟨b, hb, hselect⟩ := payload_eq_ok_iff.mp hset
  obtain ⟨a, ha, -, -, hsame⟩ := h.exists_original hb
  obtain ⟨u, -, valid, registered, hcompile⟩ := validated a ha
  rw [Payload.asRuleset?_eq_some_iff.mp hselect] at hsame
  exact Validation.occupied_of_compile valid hcompile (Payload.eq_ruleset_of_same hsame)

theorem tasks_ne_nil {key : VersionedId} {c : Challenge} (hc : loaded.challenge key = .ok c) :
    c.tasks ≠ [] := by
  obtain ⟨b, hb, hselect⟩ := payload_eq_ok_iff.mp hc
  obtain ⟨a, ha, -, -, hsame⟩ := h.exists_original hb
  obtain ⟨u, -, valid, registered, hcompile⟩ := validated a ha
  rw [Payload.asChallenge?_eq_some_iff.mp hselect] at hsame
  exact Validation.tasks_ne_nil_of_compile valid hcompile (Payload.eq_challenge_of_same hsame)

theorem sound_of_validated (closed : ∀ a ∈ as, ∀ r ∈ a.dependencies, ∃ b ∈ as, b.reference = r) :
    loaded.Sound := by
  apply h.sound _ closed
  · intro a ha body hbody
    obtain ⟨u, -, valid, registered, hcompile⟩ := validated a ha
    exact Validation.comparable_of_compile valid hcompile hbody
  · intro a ha
    obtain ⟨u, -, -, registered, hcompile⟩ := validated a ha
    exact declares_of_compile hcompile

/-- Every task of a restored challenge is guarded. -/
theorem guards (closed : ∀ a ∈ as, ∀ r ∈ a.dependencies, ∃ b ∈ as, b.reference = r)
    {key : VersionedId} {c : Challenge} (hc : loaded.challenge key = .ok c) :
    ∀ k ∈ c.tasks, loaded.Guards k := by
  have sound := h.sound_of_validated validated closed
  intro k hk
  obtain ⟨task, htask⟩ := sound.task_of_challenge hc k hk
  obtain ⟨ruleset, hset⟩ := sound.ruleset_of_task htask
  obtain ⟨tree, htree, -⟩ := sound.exists_tree hset
  exact ⟨task, ruleset, tree, htask, hset, htree, h.occupied validated hset⟩

end LoadedArchive.Restores

/-- On empty evidence nobody passes the root challenge of a completed build: a field is missing, or
every task has failed and there is at least one. The archive loads if the documents were given as
text. -/
theorem build_fails_closed {l : Library} (wellFormed : l.WellFormed) {tree tree' : FileTree}
    {builtAt : UInt64} {root : Reference} {output : String} {report : Report}
    (h : build tree builtAt l root output = (report, tree'))
    (completed : report.state = .completed) :
    ∃ path, report.archive = some path ∧
      (l.FromTexts → ∃ loaded, LoadedArchive.load tree' path = .ok loaded) ∧
      ∀ loaded, LoadedArchive.load tree' path = .ok loaded →
        loaded.root = root.versionedId ∧ ∀ e, Evaluator.Asked loaded e →
          (∃ field, (e.evaluateChallenge loaded.root Evidence.empty.find?).2.result =
            .error (.missingEvidence field)) ∨
          ∃ outcome, (e.evaluateChallenge loaded.root Evidence.empty.find?).2.result = .ok outcome ∧
            outcome.tasks ≠ [] ∧ outcome.passed = false ∧
            ∀ t ∈ outcome.tasks, t.passed = false := by
  obtain ⟨-, valid, success, path, rfl, hemit⟩ := build_eq_completed h completed
  have closure := l.isClosure_closure builtAt root
  set o := l.closure builtAt root
  have validated : ∀ a ∈ o.reached, a.Validated builtAt l := by
    intro a ha
    obtain ⟨u, hu, registered, hcompile⟩ := Library.exists_unit_of_reached ha
    exact ⟨u, hu, (List.append_eq_nil_iff.mp (valid u hu)).2, registered, hcompile⟩
  refine ⟨path, rfl, fun fromTexts => ?_, fun loaded hload => ?_⟩
  · have portable : ∀ a ∈ o.reached, a.Portable := by
      intro a ha
      obtain ⟨u, hu, -, registered, hcompile⟩ := validated a ha
      obtain ⟨text, htext⟩ := fromTexts u hu
      exact SourceUnit.portable_of_ofText htext hcompile
    obtain ⟨loaded, -, hload, -⟩ :=
      exists_challenge_of_emit closure.reached_nodup portable hemit
    exact ⟨loaded, hload⟩
  have portable : ∀ a ∈ o.reached, a.Portable := by
    intro a ha
    obtain ⟨u, hu, -, registered, hcompile⟩ := validated a ha
    obtain ⟨n, hn⟩ := wellFormed u hu
    obtain ⟨b, hb⟩ := exists_ofText_of_load closure.reached_nodup hemit hload a ha
    exact portable_of_compile_of_ofText hn hcompile hb
  obtain ⟨loaded', c, hload', hrestores, hroot, hc⟩ :=
    exists_challenge_of_emit closure.reached_nodup portable hemit
  cases hload.symm.trans hload'
  refine ⟨hroot, fun e he => ?_⟩
  exact he.serves.refused_evaluateChallenge Evidence.find?_empty hc
    (hrestores.tasks_ne_nil validated hc)
    (hrestores.guards validated (fun b hb r hr => closure.exists_dependency success hb hr) hc)

theorem build_fails_closed_adultLibrary :
    adultLibrary.WellFormed ∧
      (build .empty 5 adultLibrary ⟨.challenge, "entry", 1⟩ "out").1.state = .completed ∧
      ∃ path loaded,
        LoadedArchive.load (build .empty 5 adultLibrary ⟨.challenge, "entry", 1⟩ "out").2 path =
          .ok loaded ∧ loaded.root = ⟨"entry", 1⟩ ∧
        Refused (fun o => o.tasks ≠ [] ∧ o.passed = false ∧ ∀ t ∈ o.tasks, t.passed = false)
          ((Evaluator.new loaded).evaluateChallenge loaded.root Evidence.empty.find?).2.result := by
  have wellFormed := fromTexts_adultLibrary.wellFormed
  refine ⟨wellFormed, completed_adultLibrary, ?_⟩
  obtain ⟨path, -, hloads, hloaded⟩ :=
    build_fails_closed wellFormed (Prod.eta _).symm completed_adultLibrary
  obtain ⟨loaded, hload⟩ := hloads fromTexts_adultLibrary
  obtain ⟨hroot, hrefused⟩ := hloaded loaded hload
  exact ⟨path, loaded, hload, hroot, hrefused _ .new⟩

end Verdict
