import Verdict.Build
import Verdict.Proofs.Archive.RoundTrip
import Verdict.Proofs.Compilation.Library
import Verdict.Proofs.Compilation.Validated
import Verdict.Proofs.Evaluation.Evaluator

/-!
# Builds are sound

The archive of a completed build loads, and its root challenge can be evaluated on any evidence,
except where the evidence itself misses a field or has no number for an ordering.
-/

namespace Verdict

open Results

/-! ## What a library leaves registered -/

namespace Library

variable {builtAt : UInt64} {l : Library}

/-- Whatever is registered was compiled from a document of the library. -/
theorem Parsed.exists_unit (parsed : l.Parsed) {r : Reference} {a : Artifact}
    (h : (compileLibrary builtAt l .empty).context.resolve r = .ok a) :
    ∃ u ∈ l.loaded, l.outcome builtAt u = .ok a := by
  rw [Context.resolve_eq_ok_iff, parsed.compileLibrary_eq, LibraryResult.ofResults,
    Registry.find?_ofArtifacts] at h
  have hmem := List.mem_of_mem_filter (List.mem_of_getLast? h)
  obtain ⟨u, hu, hout⟩ := List.mem_filterMap.mp hmem
  exact ⟨u, l.units_perm.mem_iff.mp hu, toOption_eq_some_iff.mp hout⟩

/-- What a document given as text compiles to can be put into an envelope. -/
theorem FromTexts.portable (fromTexts : l.FromTexts) {u : SourceUnit} (hu : u ∈ l.loaded)
    {a : Artifact} (ha : l.outcome builtAt u = .ok a) : a.Portable := by
  obtain ⟨text, htext⟩ := fromTexts u hu
  exact SourceUnit.portable_of_ofText htext ha

/-- A rule that was compiled from a document without findings can compare its literal. -/
theorem Parsed.comparable (parsed : l.Parsed) {u : SourceUnit} (hu : u ∈ l.loaded)
    (hvalid : Validation.findings u = []) {a : Artifact} (ha : l.outcome builtAt u = .ok a)
    {body : Rule} (hbody : a.payload = .rule body) : body.Comparable := by
  have hkind : u.kind = .rule := by
    have href := congrArg Reference.kind (parsed.reference_outcome hu ha)
    rw [← show u.reference.kind = u.kind from rfl, ← href, Artifact.reference, Artifact.kind, hbody]
    rfl
  rw [Validation.findings, List.append_eq_nil_iff, hkind] at hvalid
  rw [outcome, hkind] at ha
  exact Validation.comparable_of_compile hvalid.2 ha hbody

/-- A library has no errors exactly if all its documents have passed validation. -/
theorem any_isError_eq_false_iff : (Validation.ofLibrary l).any Diagnostic.isError = false ↔
    ∀ u ∈ l.loaded, Validation.findings u = [] := by
  simp only [List.any_eq_false, Validation.ofLibrary, List.mem_flatMap, List.mem_map]
  constructor
  · intro h u hu
    rw [List.eq_nil_iff_forall_not_mem]
    intro f hf
    exact h _ ⟨u, l.units_perm.mem_iff.mpr hu, f, hf, rfl⟩ rfl
  · rintro h - ⟨u, hu, f, hf, rfl⟩
    rw [h u (l.units_perm.mem_iff.mp hu)] at hf
    exact absurd hf List.not_mem_nil

/-- Validation reports nothing but errors. -/
theorem ofLibrary_eq_nil (valid : ∀ u ∈ l.loaded, Validation.findings u = []) :
    Validation.ofLibrary l = [] := by
  rw [Validation.ofLibrary, List.flatMap_eq_nil_iff]
  intro u hu
  rw [valid u (l.units_perm.mem_iff.mp hu), List.map_nil]

/-- What a root reaches among the artifacts compiled from a library. -/
def closure (builtAt : UInt64) (l : Library) (root : Reference) : Outcome :=
  Outcome.ofRoot (compileLibrary builtAt l .empty).context.freeze root

theorem isClosure_closure (builtAt : UInt64) (l : Library) (root : Reference) :
    (l.closure builtAt root).IsClosure (compileLibrary builtAt l .empty).context.freeze root :=
  Outcome.isClosure_ofRoot (LibraryResult.assembled_compileLibrary builtAt l).freeze rfl root

/-- What a root reaches was compiled from documents of the library. -/
theorem exists_unit_of_reached {root : Reference} {a : Artifact}
    (ha : a ∈ (l.closure builtAt root).reached) :
    ∃ u ∈ l.loaded, ∃ registered, compile u.kind registered builtAt u.content = .ok a :=
  LibraryResult.exists_unit ((l.isClosure_closure builtAt root).resolve_of_mem ha)

end Library

/-! ## Sound archives -/

namespace LoadedArchive

/-- Whatever is restored comes from an artifact that was packed. -/
theorem Restores.exists_original {as : List Artifact} {loaded : LoadedArchive}
    (h : loaded.Restores as) {r : Reference} {b : Artifact} (hb : loaded.artifact? r = some b) :
    ∃ a ∈ as, a.reference = r ∧ b.reference = r ∧ a.payload.same b.payload = true := by
  obtain ⟨a, ha, rfl⟩ := h.exists_of_artifact? r b hb
  obtain ⟨b', hb', href, hsame⟩ := h.exists_same a ha
  cases hb.symm.trans hb'
  exact ⟨a, ha, rfl, href, Artifact.payload_same hsame⟩

/-- An archive of artifacts is sound if they are closed under dependencies, declare what they refer
to, and every rule can compare its literal. -/
theorem Restores.sound {as : List Artifact} {loaded : LoadedArchive} (h : loaded.Restores as)
    (declares : ∀ a ∈ as, a.Declares)
    (closed : ∀ a ∈ as, ∀ r ∈ a.dependencies, ∃ b ∈ as, b.reference = r)
    (comparable : ∀ a ∈ as, ∀ body, a.payload = .rule body → body.Comparable) : loaded.Sound := by
  have hof := fun r b (hb : loaded.artifact? r = some b) => h.exists_original hb
  constructor
  case reference_eq =>
    intro r b hb
    obtain ⟨-, -, -, href, -⟩ := hof r b hb
    exact href
  case closed =>
    intro r b hb r' hr'
    obtain ⟨a, ha, -, -, hsame⟩ := hof r b hb
    rw [Payload.references_of_same hsame] at hr'
    obtain ⟨a', ha', rfl⟩ := closed a ha r' (declares a ha r' hr')
    obtain ⟨b', hb', -⟩ := h.exists_same a' ha'
    exact ⟨b', hb'⟩
  case comparable =>
    intro r b body hb hbody
    obtain ⟨a, ha, -, -, hsame⟩ := hof r b hb
    rw [hbody] at hsame
    exact comparable a ha body (Payload.eq_rule_of_same hsame)

end LoadedArchive

/-! ## Builds -/

/-- The report of a build up to the closure of the root. -/
def Report.linked (builtAt : UInt64) (l : Library) (root : Reference) : Report :=
  { Report.start root l with
    diagnostics := (compileLibrary builtAt l .empty).warnings
    compiled := (compileLibrary builtAt l .empty).counts
    reachable := (l.closure builtAt root).reached.length }

/-- The report of a build whose archive was written. -/
def Report.written (builtAt : UInt64) (l : Library) (root : Reference) (path : String) : Report :=
  { linked builtAt l root with archive := some path, state := .completed }

/-- The five ways in which a build ends. -/
theorem build_cases {P : Report × FileTree → Prop} (tree : FileTree) (builtAt : UInt64)
    (l : Library) (root : Reference) (output : String)
    (refused : ∀ e, outputFault? tree output = some e →
      P ((Report.start root l).fail [.ofError e.message], tree))
    (invalid : (Validation.ofLibrary l).any Diagnostic.isError = true →
      P ((Report.start root l).fail (Validation.ofLibrary l), tree))
    (missing : (l.closure builtAt root).isSuccess = false →
      P ((Report.linked builtAt l root).fail (l.closure builtAt root).diagnostics, tree))
    (unwritten : ∀ tree' e, outputFault? tree output = none →
      (∀ u ∈ l.loaded, Validation.findings u = []) → (l.closure builtAt root).isSuccess = true →
      emit tree output (l.closure builtAt root) = (tree', .error e) →
      P ((Report.linked builtAt l root).fail [.ofError e.message], tree'))
    (written : ∀ tree' path, outputFault? tree output = none →
      (∀ u ∈ l.loaded, Validation.findings u = []) → (l.closure builtAt root).isSuccess = true →
      emit tree output (l.closure builtAt root) = (tree', .ok path) →
      P (Report.written builtAt l root path, tree')) :
    P (build tree builtAt l root output) := by
  unfold build
  dsimp only
  split
  case h_1 e hfault => exact refused e hfault
  case h_2 hfault =>
    split
    case isTrue hfound => exact invalid hfound
    case isFalse hfound =>
      have valid := Library.any_isError_eq_false_iff.mp (Bool.eq_false_of_not_eq_true hfound)
      rw [Library.ofLibrary_eq_nil valid, List.nil_append]
      split
      case isTrue hsuccess => exact missing (by simpa [Library.closure] using hsuccess)
      case isFalse hsuccess =>
        have success : (l.closure builtAt root).isSuccess = true := by
          simpa [Library.closure] using hsuccess
        split
        case h_1 tree' e hemit => exact unwritten tree' e hfault valid success hemit
        case h_2 tree' path hemit => exact written tree' path hfault valid success hemit

/-- A build is completed only through all its stages. -/
theorem build_eq_completed {tree tree' : FileTree} {builtAt : UInt64} {l : Library}
    {root : Reference} {output : String} {report : Report}
    (h : build tree builtAt l root output = (report, tree'))
    (completed : report.state = .completed) :
    outputFault? tree output = none ∧ (∀ u ∈ l.loaded, Validation.findings u = []) ∧
      (l.closure builtAt root).isSuccess = true ∧ ∃ path,
        report = Report.written builtAt l root path ∧
        emit tree output (l.closure builtAt root) = (tree', .ok path) := by
  refine build_cases (P := fun x => x = (report, tree') → _) tree builtAt l root output
    ?refused ?invalid ?missing ?unwritten ?written h
  case refused =>
    rintro e - ⟨⟩
    cases completed
  case invalid =>
    rintro - ⟨⟩
    cases completed
  case missing =>
    rintro - ⟨⟩
    cases completed
  case unwritten =>
    rintro made e - - - - ⟨⟩
    cases completed
  case written =>
    rintro made path output_ok valid success hemit ⟨⟩
    exact ⟨output_ok, valid, success, path, rfl, hemit⟩

/-- The archive of a completed build loads and is rooted at the root of the build. Its challenge can
be evaluated on any evidence, whatever was evaluated before, unless a bare rule misses its field or
an ordering is asked of a boolean or a text. -/
theorem build_sound {l : Library} (fromTexts : l.FromTexts) {tree tree' : FileTree}
    {builtAt : UInt64} {root : Reference} {output : String} {report : Report}
    (h : build tree builtAt l root output = (report, tree'))
    (completed : report.state = .completed) :
    ∃ path loaded c, report.archive = some path ∧ LoadedArchive.load tree' path = .ok loaded ∧
      loaded.root = root.versionedId ∧ loaded.challenge loaded.root = .ok c ∧
      ∀ e, Evaluator.Asked loaded e → ∀ evidence,
        (∃ outcome, (e.evaluateChallenge loaded.root evidence).2.result = .ok outcome) ∨
          ∃ err, (e.evaluateChallenge loaded.root evidence).2.result = .error err ∧
            c.FailsOn loaded evidence err := by
  obtain ⟨-, valid, success, path, rfl, hemit⟩ := build_eq_completed h completed
  have parsed := fromTexts.parsed
  have closure := l.isClosure_closure builtAt root
  have compiled : ∀ a ∈ (l.closure builtAt root).reached,
      ∃ u ∈ l.loaded, l.outcome builtAt u = .ok a := by
    intro a ha
    exact parsed.exists_unit (closure.resolve_of_mem ha)
  have portable : ∀ a ∈ (l.closure builtAt root).reached, a.Portable := by
    intro a ha
    obtain ⟨u, hu, hout⟩ := compiled a ha
    exact fromTexts.portable hu hout
  obtain ⟨loaded, c, hload, hrestores, hroot, hc⟩ :=
    exists_challenge_of_emit closure.reached_nodup portable hemit
  have sound : loaded.Sound := by
    apply hrestores.sound
    · intro b hb
      obtain ⟨u, -, hout⟩ := compiled b hb
      exact declares_of_compile hout
    · intro b hb r hr
      exact closure.exists_dependency success hb hr
    · intro b hb body hbody
      obtain ⟨u, hu, hout⟩ := compiled b hb
      exact parsed.comparable hu (valid u hu) hout hbody
  refine ⟨path, loaded, c, rfl, hload, hroot, hc, ?_⟩
  intro e he evidence
  exact Evaluator.evaluateChallenge_cases he.serves sound hc

/-! ## A build of one rule -/

/-- A challenge that asks one rule for an age. -/
def adultLibrary : Library :=
  ⟨[Library.readDocument .rule "adult" [("type", .str "THRESHOLD"), ("input", .str "age"),
      ("operator", .str ">="), ("value", .num (.int 18))],
    Library.readDocument .ruleset "ages" [("ruleRef", .str "adult")],
    Library.readDocument .task "check" [("rulesetRef", .obj [("id", .str "ages")]),
      ("resultType", .str "BOOLEAN")],
    Library.readDocument .challenge "entry" [("tasks", .arr [.obj [("id", .str "check")]])]]⟩

theorem fromTexts_adultLibrary : adultLibrary.FromTexts := by
  simp only [Library.FromTexts, adultLibrary, List.forall_mem_cons]
  refine ⟨⟨_, Library.ofText_readDocument ?_ rfl⟩, ⟨_, Library.ofText_readDocument ?_ rfl⟩,
    ⟨_, Library.ofText_readDocument ?_ rfl⟩, ⟨_, Library.ofText_readDocument ?_ rfl⟩, by simp⟩
  all_goals
    refine Json.Storable.mono (m := 6) (by decide) ?_
    simp [Library.document, Json.Number.InRange]

theorem completed_adultLibrary :
    (build .empty 5 adultLibrary ⟨.challenge, "entry", 1⟩ "out").1.state = .completed := by
  decide +kernel

theorem build_sound_adultLibrary :
    adultLibrary.FromTexts ∧
      (build .empty 5 adultLibrary ⟨.challenge, "entry", 1⟩ "out").1.state = .completed ∧
      ∃ path loaded c,
        LoadedArchive.load (build .empty 5 adultLibrary ⟨.challenge, "entry", 1⟩ "out").2 path =
          .ok loaded ∧ loaded.root = ⟨"entry", 1⟩ ∧ loaded.challenge loaded.root = .ok c ∧
        ∀ evidence,
          (∃ outcome, ((Evaluator.new loaded).evaluateChallenge loaded.root evidence).2.result =
            .ok outcome) ∨
          ∃ err, ((Evaluator.new loaded).evaluateChallenge loaded.root evidence).2.result =
            .error err ∧ c.FailsOn loaded evidence err := by
  refine ⟨fromTexts_adultLibrary, completed_adultLibrary, ?_⟩
  obtain ⟨path, loaded, c, -, hload, hroot, hc, heval⟩ :=
    build_sound fromTexts_adultLibrary (Prod.eta _).symm completed_adultLibrary
  exact ⟨path, loaded, c, hload, hroot, hc, heval _ .new⟩

end Verdict
