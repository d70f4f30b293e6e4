import Mathlib
import Verdict.Evaluation.Evidence
import Verdict.Proofs.Archive.Collisions
import Verdict.Proofs.Evaluation.Evaluator

/-!
# Evaluation without evidence

Without evidence no rule holds, so what a tree comes to depends on the shape of its expression alone:
it holds exactly if the expression is vacuous. An expression whose nodes all have operands is not
vacuous, but a loaded ruleset may have a node without operands.
-/

namespace Verdict

open Results

/-! ## Vacuous expressions -/

namespace Expression

/-- The expression holds whatever its rules say. -/
inductive Vacuous : Expression → Prop
  | and {es : List Expression} : (∀ e ∈ es, Vacuous e) → Vacuous (.logical .and es)
  | or {e : Expression} {es : List Expression} : e ∈ es → Vacuous e → Vacuous (.logical .or es)

/-- Every node has an operand. -/
inductive Occupied : Expression → Prop
  | ruleRef (r : VersionedId) : Occupied (.ruleRef r)
  | logical {operator : Connective} {es : List Expression} : es ≠ [] → (∀ e ∈ es, Occupied e) →
      Occupied (.logical operator es)

variable {e : Expression} {es : List Expression} {operator : Connective}

theorem not_vacuous_ruleRef (r : VersionedId) : ¬ Vacuous (.ruleRef r) := nofun

theorem vacuous_and_iff : Vacuous (.logical .and es) ↔ ∀ e ∈ es, e.Vacuous :=
  ⟨fun h => by cases h; assumption, .and⟩

theorem vacuous_or_iff : Vacuous (.logical .or es) ↔ ∃ e ∈ es, e.Vacuous := by
  constructor
  · intro h
    cases h with
    | or hmem he => exact ⟨_, hmem, he⟩
  · rintro ⟨e, hmem, he⟩
    exact .or hmem he

/-- A node without operands is vacuous if no operand could have decided it against. -/
theorem vacuous_nil_iff : Vacuous (.logical operator []) ↔ operator.decisive = false := by
  cases operator <;> simp [vacuous_and_iff, vacuous_or_iff, Connective.decisive]

/-- The first operand decides a node, or leaves the decision to the others. -/
theorem vacuous_cons_iff {b : Bool} (he : b = true ↔ e.Vacuous) :
    Vacuous (.logical operator (e :: es)) ↔
      if b = operator.decisive then b = true else Vacuous (.logical operator es) := by
  cases operator <;> cases b <;>
    simp_all [vacuous_and_iff, vacuous_or_iff, Connective.decisive]

theorem Occupied.not_vacuous (h : e.Occupied) : ¬ e.Vacuous := by
  intro hv
  induction hv with
  | @and es _ ih =>
    cases h with
    | logical hne hall =>
      obtain ⟨e, he⟩ := List.exists_mem_of_ne_nil es hne
      exact ih e he (hall e he)
  | or hmem _ ih =>
    cases h with
    | logical _ hall => exact ih (hall _ hmem)

end Expression

/-! ## Trees -/

namespace Tree

variable {l : LoadedArchive} {evidence : EvidenceSource}

mutual
/-- Without evidence a tree counts as true if its expression is vacuous, and as false otherwise. -/
theorem settle_evaluate (nothing : ∀ field, evidence field = none) :
    ∀ {e : Expression} {t : Tree}, ofExpression l e = .ok t →
      ∃ b, settle (t.evaluate evidence).result = .ok b ∧ (b = true ↔ e.Vacuous)
  | .ruleRef k, t, h => by
    rw [ofExpression] at h
    split at h
    case h_1 body hbody =>
      cases h
      refine ⟨false, ?_, by simp [Expression.not_vacuous_ruleRef]⟩
      rw [evaluate, Rule.evaluate, nothing]
      rfl
    case h_2 => cases h
  | .logical operator es, t, h => by
    rw [ofExpression] at h
    split at h
    case h_1 ts hts =>
      cases h
      obtain ⟨b, hb, hiff⟩ := evaluateOperands_result nothing operator hts
      exact ⟨b, by rw [evaluate, hb]; rfl, hiff⟩
    case h_2 => cases h

/-- A node always comes to a value, since what its operands miss counts as false. -/
theorem evaluateOperands_result (nothing : ∀ field, evidence field = none) (operator : Connective) :
    ∀ {es : List Expression} {ts : List Tree}, ofExpressions l es = .ok ts →
      ∃ b, (evaluateOperands evidence operator ts).result = .ok b ∧
        (b = true ↔ Expression.Vacuous (.logical operator es))
  | [], ts, h => by
    cases h
    exact ⟨!operator.decisive, rfl, by simp [Expression.vacuous_nil_iff]⟩
  | e :: es, ts, h => by
    rw [ofExpressions] at h
    split at h
    · cases h
    case h_2 t ht =>
      split at h
      · cases h
      case h_2 ts' hts =>
        cases h
        obtain ⟨first, hfirst, he⟩ := settle_evaluate nothing ht
        obtain ⟨rest, hrest, hes⟩ := evaluateOperands_result nothing operator hts
        rw [Expression.vacuous_cons_iff he, evaluateOperands, hfirst]
        dsimp only
        split_ifs
        · exact ⟨first, rfl, Iff.rfl⟩
        · exact ⟨rest, hrest, hes⟩
end

variable (nothing : ∀ field, evidence field = none) {e : Expression} {t : Tree}
  (h : ofExpression l e = .ok t)

include nothing h

/-- A tree that holds without evidence is the tree of a vacuous expression. -/
theorem evaluate_eq_true_iff : (t.evaluate evidence).result = .ok true ↔ e.Vacuous := by
  obtain ⟨b, hb, hiff⟩ := settle_evaluate nothing h
  rw [← settle_eq_ok_true_iff, hb, ← hiff, Except.ok.injEq]

/-- If every node has an operand, a tree is false without evidence, or it is a rule without its
field. -/
theorem evaluate_of_occupied (occupied : e.Occupied) : (t.evaluate evidence).result = .ok false ∨
    ∃ field, (t.evaluate evidence).result = .error (.missingEvidence field) := by
  obtain ⟨b, hb, hiff⟩ := settle_evaluate nothing h
  rw [← settle_eq_ok_false_iff, hb]
  cases b with
  | false => rfl
  | true => exact absurd (hiff.mp rfl) occupied.not_vacuous

end Tree

/-! ## Loaded rulesets -/

theorem Evidence.find?_empty (field : String) : Evidence.empty.find? field = none := rfl

namespace Tree

variable {l : LoadedArchive} {key : VersionedId}

/-- The tree of a ruleset is built exactly if the ruleset and all its rules are loaded. -/
theorem ofRuleset_eq_ok_iff {t : Tree} : ofRuleset l key = .ok t ↔
    ∃ ruleset, l.ruleset key = .ok ruleset ∧ ofExpression l ruleset.root = .ok t := by
  rw [ofRuleset]
  cases l.ruleset key <;> simp [Except.bind]

mutual
/-- A tree is built only if the rules at the leaves are there. -/
theorem rule_of_ofExpression : ∀ {e : Expression} {t : Tree}, ofExpression l e = .ok t →
    ∀ k ∈ e.leaves, ∃ r, l.rule k = .ok r
  | .ruleRef k, t, h, k', hk' => by
    rw [Expression.leaves, List.mem_singleton] at hk'
    rw [ofExpression] at h
    split at h
    case h_1 body hbody => exact ⟨body, hk' ▸ hbody⟩
    case h_2 => cases h
  | .logical _ es, t, h, k, hk => by
    rw [ofExpression] at h
    split at h
    case h_1 ts hts => exact rule_of_ofExpressions hts k hk
    case h_2 => cases h

theorem rule_of_ofExpressions : ∀ {es : List Expression} {ts : List Tree},
    ofExpressions l es = .ok ts → ∀ k ∈ Expression.leavesOfAll es, ∃ r, l.rule k = .ok r
  | [], ts, h, k, hk => by cases hk
  | e :: es, ts, h, k, hk => by
    rw [ofExpressions] at h
    split at h
    · cases h
    case h_2 t ht =>
      split at h
      · cases h
      case h_2 ts' hts =>
        rw [Expression.leavesOfAll, List.mem_append] at hk
        rcases hk with hk | hk
        · exact rule_of_ofExpression ht k hk
        · exact rule_of_ofExpressions hts k hk
end

end Tree

namespace Evaluator

variable {l : LoadedArchive} {e : Evaluator}

/-- A ruleset that is evaluated has a tree. -/
theorem Serves.evaluate_eq_ok_iff (h : e.Serves l) {key : VersionedId} {evidence : EvidenceSource}
    {b : Bool} : (e.evaluate key evidence).2.result = .ok b ↔
      ∃ t, Tree.ofRuleset l key = .ok t ∧ (t.evaluate evidence).result = .ok b := by
  obtain ⟨-, htree⟩ := h.tree key
  unfold Evaluator.evaluate
  split
  case h_1 e' t heq =>
    rw [heq] at htree
    simp [← htree]
  case h_2 e' missing heq =>
    rw [heq] at htree
    simp [← htree, Inquiry.ofResult]

/-- Without evidence a ruleset passes exactly if it is loaded with all its rules and its expression
is vacuous. -/
theorem Serves.passes_iff (h : e.Serves l) {evidence : EvidenceSource}
    (nothing : ∀ field, evidence field = none) (key : VersionedId) :
    (e.evaluate key evidence).2.result = .ok true ↔ ∃ ruleset, l.ruleset key = .ok ruleset ∧
      (∀ k ∈ ruleset.root.leaves, ∃ r, l.rule k = .ok r) ∧ ruleset.root.Vacuous := by
  rw [h.evaluate_eq_ok_iff]
  constructor
  · rintro ⟨t, ht, hresult⟩
    obtain ⟨ruleset, hset, htree⟩ := Tree.ofRuleset_eq_ok_iff.mp ht
    exact ⟨ruleset, hset, Tree.rule_of_ofExpression htree,
      (Tree.evaluate_eq_true_iff nothing htree).mp hresult⟩
  · rintro ⟨ruleset, hset, hrules, hvacuous⟩
    obtain ⟨t, htree⟩ := Tree.exists_ofExpression hrules
    exact ⟨t, Tree.ofRuleset_eq_ok_iff.mpr ⟨ruleset, hset, htree⟩,
      (Tree.evaluate_eq_true_iff nothing htree).mpr hvacuous⟩

/-- On empty evidence a ruleset of an archive passes exactly if it is loaded with all its rules and
its expression is vacuous. So it never passes if all nodes of its expression have operands. -/
theorem passes_empty_iff (h : e.Asked l) (key : VersionedId) :
    ((e.evaluate key Evidence.empty.find?).2.result = .ok true ↔ ∃ ruleset,
      l.ruleset key = .ok ruleset ∧ (∀ k ∈ ruleset.root.leaves, ∃ r, l.rule k = .ok r) ∧
        ruleset.root.Vacuous) ∧
    ∀ ruleset, l.ruleset key = .ok ruleset → ruleset.root.Occupied →
      (e.evaluate key Evidence.empty.find?).2.result ≠ .ok true := by
  have hiff := h.serves.passes_iff Evidence.find?_empty key
  refine ⟨hiff, fun ruleset hset occupied hpass => ?_⟩
  obtain ⟨ruleset', hset', -, hvacuous⟩ := hiff.mp hpass
  cases hset.symm.trans hset'
  exact occupied.not_vacuous hvacuous

end Evaluator

/-! ## A ruleset without rules -/

namespace Loading.Placed

variable {header : ManifestHeader} {xs : List (String × Artifact)}

/-- Artifacts with different references are all loaded. -/
theorem artifact?_eq (h : Placed header xs) (different : (xs.map fun x => x.2.reference).Nodup)
    {l : LoadedArchive} (hl : LoadedArchive.ofEntries (listing header xs) = .ok l) :
    ∀ x ∈ xs, l.artifact? x.2.reference = some x.2 := by
  intro x hx
  have hplaces : (Entry.files (listing header xs)).map (fun e => Reference.ofEntryPath? e.name) =
      (xs.map fun x => x.2.reference).map some := by
    rw [h.files_listing, List.map_map, List.map_map]
    exact List.map_congr_left h.places
  apply (LoadedArchive.artifact?_eq_some_iff_of_nodup hl ?_).mpr
  · refine ⟨rfl, ⟨x.1, some x.2.toJson.pretty⟩, ?_, h.places x hx, _, rfl, (h.settled x hx).ofText_pretty⟩
    rw [h.files_listing]
    exact List.mem_map_of_mem hx
  · rw [hplaces]
    exact different.map (Option.some_injective _)

end Loading.Placed

namespace LoadedArchive

/-- A ruleset that joins no operands. -/
def openRuleset : Artifact := ⟨"rs1", 1, ⟨"1.0", 5, ""⟩, [], .ruleset ⟨.logical .and []⟩⟩

/-- A ruleset that asks for a rule. -/
def guardedRuleset : Artifact :=
  ⟨"rs2", 1, ⟨"1.0", 5, ""⟩, [⟨.rule, "r1", 1⟩], .ruleset ⟨.logical .and [.ruleRef ⟨"r1", 1⟩]⟩⟩

/-- The visit with both rulesets. -/
def rulesetFiles : List (String × Artifact) :=
  [("Ruleset/1/rs1.json", openRuleset), ("Ruleset/1/rs2.json", guardedRuleset),
    ("Task/1/t1.json", visitTask), ("Challenge/1/c1.json", visit)]

theorem portable_openRuleset : openRuleset.Portable := by
  apply Json.Storable.mono (m := 3) (by decide)
  simp [Ruleset.toJson, Expression.toJson, Expression.toJsonAll]

theorem portable_guardedRuleset : guardedRuleset.Portable := by
  apply Json.Storable.mono (m := 4) (by decide)
  simp only [Ruleset.toJson, Expression.toJson, Expression.toJsonAll, Json.storable_obj_iff,
    Json.storable_arr_iff, List.forall_mem_cons]
  simpa using Json.inRange_uint32 1

theorem placed_rulesetFiles : Loading.Placed visitHeader rulesetFiles where
  names := by decide
  places := by
    rw [rulesetFiles]
    simp only [List.forall_mem_cons]
    exact ⟨by decide, by decide, by decide, by decide, by simp⟩
  settled := by
    rw [rulesetFiles]
    simp only [List.forall_mem_cons]
    exact ⟨portable_openRuleset.settled (by decide), portable_guardedRuleset.settled (by decide),
      Artifact.Portable.settled trivial (by decide), Artifact.Portable.settled trivial (by decide),
      by simp⟩
  root := ⟨("Challenge/1/c1.json", visit), by simp [rulesetFiles], rfl⟩

/-- Both rulesets are loaded. -/
theorem ruleset_of_rulesetFiles {l : LoadedArchive}
    (hl : ofEntries (Loading.listing visitHeader rulesetFiles) = .ok l) :
    l.ruleset ⟨"rs1", 1⟩ = .ok ⟨.logical .and []⟩ ∧
      l.ruleset ⟨"rs2", 1⟩ = .ok ⟨.logical .and [.ruleRef ⟨"r1", 1⟩]⟩ := by
  have hloaded := placed_rulesetFiles.artifact?_eq (by decide) hl
  rw [rulesetFiles] at hloaded
  simp only [List.forall_mem_cons] at hloaded
  obtain ⟨hopen, hguarded, -⟩ := hloaded
  exact ⟨payload_eq_ok_iff.mpr ⟨_, hopen, rfl⟩, payload_eq_ok_iff.mpr ⟨_, hguarded, rfl⟩⟩

end LoadedArchive

namespace Evaluator

open LoadedArchive

theorem passes_empty_iff_rulesetFiles :
    ∃ l, ofEntries (Loading.listing visitHeader rulesetFiles) = .ok l ∧
      ((new l).evaluate ⟨"rs1", 1⟩ Evidence.empty.find?).2.result = .ok true ∧
      ((new l).evaluate ⟨"rs2", 1⟩ Evidence.empty.find?).2.result ≠ .ok true := by
  obtain ⟨l, hl⟩ := exists_ofEntries_listing placed_rulesetFiles
  obtain ⟨hopen, hguarded⟩ := ruleset_of_rulesetFiles hl
  refine ⟨l, hl, (passes_empty_iff .new _).1.mpr ⟨_, hopen, nofun, .and nofun⟩,
    (passes_empty_iff .new _).2 _ hguarded (.logical (by simp) ?_)⟩
  simpa using .ruleRef ⟨"r1", 1⟩

/-- The archive with the ruleset that joins no operands loads, and that ruleset passes on empty
evidence. -/
theorem not_forall_occupied :
    (¬ ∀ entries l, ofEntries entries = .ok l → ∀ key ruleset, l.ruleset key = .ok ruleset →
      ruleset.root.Occupied) ∧
    ¬ ∀ entries l, ofEntries entries = .ok l → ∀ key,
      ((new l).evaluate key Evidence.empty.find?).2.result ≠ .ok true := by
  obtain ⟨l, hl⟩ := exists_ofEntries_listing placed_rulesetFiles
  obtain ⟨hopen, -⟩ := ruleset_of_rulesetFiles hl
  constructor
  · intro h
    exact (h _ l hl _ _ hopen).not_vacuous (.and nofun)
  · intro h
    apply h _ l hl ⟨"rs1", 1⟩
    rw [(serves_new l).passes_iff Evidence.find?_empty]
    exact ⟨_, hopen, nofun, .and nofun⟩

end Evaluator
end Verdict
