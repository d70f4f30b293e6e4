import Mathlib
import Verdict.Proofs.Evaluation.Tree

/-!
# What an evaluation looks up

An evaluation goes through a tree from left to right and looks up one field at every leaf that it
reaches. It reaches a leaf unless, at some node above the leaf, an operand further to the left ends
the evaluation of the node. Nothing but the fields it looks up has a say in the result, or in what
is looked up next.
-/

namespace Verdict.Tree

variable {evidence evidence' : EvidenceSource} {operator : Connective} {t : Tree} {ts : List Tree}

/-! ## Operands that stop a node -/

/-- The operand ends the evaluation of its node: it decides the node, or it fails. -/
def Stops (evidence : EvidenceSource) (operator : Connective) (t : Tree) : Prop :=
  settle (t.evaluate evidence).result ≠ .ok !operator.decisive

instance (evidence : EvidenceSource) (operator : Connective) (t : Tree) :
    Decidable (t.Stops evidence operator) :=
  inferInstanceAs (Decidable (_ ≠ _))

theorem evaluateOperands_of_stops (h : t.Stops evidence operator) :
    evaluateOperands evidence operator (t :: ts) =
      ⟨(t.evaluate evidence).asked, settle (t.evaluate evidence).result⟩ := by
  unfold Stops at h
  rw [evaluateOperands]
  cases hresult : settle (t.evaluate evidence).result with
  | error err => rfl
  | ok b =>
    have hdecides : b = operator.decisive := by
      rw [hresult, ne_eq, Except.ok.injEq] at h
      simpa using h
    simp [hdecides]

theorem evaluateOperands_of_not_stops (h : ¬ t.Stops evidence operator) :
    evaluateOperands evidence operator (t :: ts) =
      (evaluateOperands evidence operator ts).after (t.evaluate evidence).asked := by
  have hresult : settle (t.evaluate evidence).result = .ok !operator.decisive := not_not.mp h
  rw [evaluateOperands]
  simp [hresult]

/-! ## Places -/

mutual
/-- The leaves with their places, from left to right. A place is the way down from the root: at each
node the number of operands to pass. -/
def places : Tree → List (List ℕ × Rule)
  | rule _ body => [([], body)]
  | logical _ children => placesFrom 0 children

/-- The places below operands that are numbered from `i`. -/
def placesFrom (i : ℕ) : List Tree → List (List ℕ × Rule)
  | [] => []
  | t :: ts => (places t).map (fun p => (i :: p.1, p.2)) ++ placesFrom (i + 1) ts
end

/-- The evaluation comes to a place: none of the operands that are passed on the way stops its
node. -/
def Reached (evidence : EvidenceSource) : Tree → List ℕ → Prop
  | _, [] => True
  | rule _ _, _ :: _ => False
  | logical operator ts, i :: path =>
    (∀ t ∈ ts.take i, ¬ t.Stops evidence operator) ∧ ∃ t ∈ ts[i]?, Reached evidence t path

instance decidableReached (evidence : EvidenceSource) :
    ∀ (t : Tree) (path : List ℕ), Decidable (t.Reached evidence path)
  | rule _ _, [] => .isTrue trivial
  | logical _ _, [] => .isTrue trivial
  | rule _ _, _ :: _ => .isFalse nofun
  | logical operator ts, i :: path =>
    match h : ts[i]? with
    | none => .isFalse (by simp [Reached, h])
    | some t =>
      have := decidableReached evidence t path
      decidable_of_iff ((∀ t ∈ ts.take i, ¬ t.Stops evidence operator) ∧ t.Reached evidence path)
        (by simp [Reached, h])

mutual
theorem map_snd_places : ∀ t : Tree, t.places.map Prod.snd = t.leaves
  | rule _ _ => rfl
  | logical _ ts => map_snd_placesFrom 0 ts

theorem map_snd_placesFrom (i : ℕ) : ∀ ts : List Tree,
    (placesFrom i ts).map Prod.snd = leavesOfAll ts
  | [] => rfl
  | t :: ts => by
    have hfirst := map_snd_places t
    have hrest := map_snd_placesFrom (i + 1) ts
    simpa [placesFrom, leavesOfAll, hrest, Function.comp_def] using hfirst
end

theorem exists_cons_of_mem_placesFrom {i : ℕ} {p : List ℕ × Rule} (h : p ∈ placesFrom i ts) :
    ∃ j path, p.1 = j :: path ∧ i ≤ j := by
  induction ts generalizing i with
  | nil => cases h
  | cons t ts ih =>
    rw [placesFrom, List.mem_append, List.mem_map] at h
    rcases h with ⟨q, -, rfl⟩ | h
    · exact ⟨i, q.1, rfl, le_rfl⟩
    · obtain ⟨j, path, hp, hij⟩ := ih h
      exact ⟨j, path, hp, by omega⟩

mutual
theorem nodup_places : ∀ t : Tree, (t.places.map Prod.fst).Nodup
  | rule _ _ => List.nodup_singleton _
  | logical _ ts => nodup_placesFrom 0 ts

theorem nodup_placesFrom (i : ℕ) : ∀ ts : List Tree, ((placesFrom i ts).map Prod.fst).Nodup
  | [] => List.nodup_nil
  | t :: ts => by
    have hfirst : (t.places.map fun p => i :: p.1).Nodup := by
      have hinjective : Function.Injective (List.cons i : List ℕ → List ℕ) := List.cons_injective
      simpa [Function.comp_def] using (nodup_places t).map hinjective
    have hrest := nodup_placesFrom (i + 1) ts
    rw [placesFrom, List.map_append, List.map_map, List.nodup_append]
    refine ⟨hfirst, hrest, ?_⟩
    intro path hpath path' hpath' heq
    obtain ⟨p, -, rfl⟩ := List.mem_map.mp hpath
    obtain ⟨p', hp', rfl⟩ := List.mem_map.mp hpath'
    obtain ⟨j, below, hj, hij⟩ := exists_cons_of_mem_placesFrom hp'
    have hhead : i = j := (List.cons.inj (heq.trans hj)).1
    omega
end

/-! ## Lookups -/

section Reached

variable {done : List Tree}

/-- A place below an operand is reached from the node if it is reached from the operand, once the
operands before it are passed. -/
theorem reached_below_iff (hdone : ∀ s ∈ done, ¬ s.Stops evidence operator) (path : List ℕ) :
    (logical operator (done ++ t :: ts)).Reached evidence (done.length :: path) ↔
      t.Reached evidence path := by
  simp [Reached, and_iff_right hdone]

/-- No place beyond an operand that stops its node is reached. -/
theorem not_reached_beyond (hstops : t.Stops evidence operator) {i : ℕ} (hi : done.length < i)
    (path : List ℕ) : ¬ (logical operator (done ++ t :: ts)).Reached evidence (i :: path) := by
  rintro ⟨hpassed, -⟩
  refine hpassed t ?_ hstops
  rw [List.take_append]
  refine List.mem_append_right _ ?_
  rw [show i - done.length = i - done.length - 1 + 1 by omega, List.take_succ_cons]
  exact List.mem_cons_self

end Reached

mutual
/-- The fields that are looked up are those of the leaves that are reached, in their order. -/
theorem asked_evaluate (evidence : EvidenceSource) : ∀ t : Tree, (t.evaluate evidence).asked =
    (t.places.filter fun p => t.Reached evidence p.1).map fun p => p.2.input
  | rule _ _ => rfl
  | logical operator ts => @asked_evaluateOperands evidence operator [] (by simp) ts

/-- Operands are evaluated after others that did not stop the node. -/
theorem asked_evaluateOperands (evidence : EvidenceSource) {operator : Connective}
    {done : List Tree} (hdone : ∀ s ∈ done, ¬ s.Stops evidence operator) : ∀ ts : List Tree,
    (evaluateOperands evidence operator ts).asked =
      ((placesFrom done.length ts).filter fun p =>
        (logical operator (done ++ ts)).Reached evidence p.1).map fun p => p.2.input
  | [] => rfl
  | t :: ts => by
    have hfirst : (((t.places.map fun p => (done.length :: p.1, p.2)).filter fun p =>
        (logical operator (done ++ t :: ts)).Reached evidence p.1).map fun p => p.2.input) =
        (t.evaluate evidence).asked := by
      simp [asked_evaluate evidence t, List.filter_map, Function.comp_def, reached_below_iff hdone]
    rw [placesFrom, List.filter_append, List.map_append, hfirst]
    by_cases hstops : t.Stops evidence operator
    · rw [evaluateOperands_of_stops hstops]
      have hrest : (placesFrom (done.length + 1) ts).filter (fun p =>
          (logical operator (done ++ t :: ts)).Reached evidence p.1) = [] := by
        refine List.filter_eq_nil_iff.mpr fun p hp => ?_
        obtain ⟨j, path, hpath, hj⟩ := exists_cons_of_mem_placesFrom hp
        simpa [hpath] using not_reached_beyond hstops hj path
      simp [hrest]
    · rw [evaluateOperands_of_not_stops hstops]
      have hnext : ∀ s ∈ done ++ [t], ¬ s.Stops evidence operator := by
        simpa [or_imp, forall_and] using ⟨hdone, hstops⟩
      have hrest := asked_evaluateOperands evidence hnext ts
      rw [List.length_append, List.length_singleton, List.append_assoc, List.singleton_append]
        at hrest
      rw [Inquiry.after, hrest]
end

/-! ## Evidence that agrees -/

mutual
theorem evaluate_congr : ∀ {t : Tree},
    (∀ field ∈ (t.evaluate evidence).asked, evidence' field = evidence field) →
    t.evaluate evidence' = t.evaluate evidence
  | rule _ body, h => by
    have hfield : evidence' body.input = evidence body.input := h body.input List.mem_cons_self
    simp only [evaluate, Rule.evaluate, hfield]
  | logical operator ts, h => evaluateOperands_congr h

theorem evaluateOperands_congr {operator : Connective} : ∀ {ts : List Tree},
    (∀ field ∈ (evaluateOperands evidence operator ts).asked, evidence' field = evidence field) →
    evaluateOperands evidence' operator ts = evaluateOperands evidence operator ts
  | [], _ => rfl
  | t :: ts, h => by
    by_cases hstops : t.Stops evidence operator
    · rw [evaluateOperands_of_stops hstops] at h ⊢
      have hfirst : t.evaluate evidence' = t.evaluate evidence := evaluate_congr h
      have hstops' : t.Stops evidence' operator := by rwa [Stops, hfirst]
      rw [evaluateOperands_of_stops hstops', hfirst]
    · rw [evaluateOperands_of_not_stops hstops] at h ⊢
      simp only [Inquiry.after, List.mem_append, or_imp, forall_and] at h
      have hfirst : t.evaluate evidence' = t.evaluate evidence := evaluate_congr h.1
      have hrest : evaluateOperands evidence' operator ts = evaluateOperands evidence operator ts :=
        evaluateOperands_congr h.2
      have hstops' : ¬ t.Stops evidence' operator := by rwa [Stops, hfirst]
      rw [evaluateOperands_of_not_stops hstops', hfirst, hrest]
end

/-- An evaluation looks up the fields of a tree's leaves in their order, and of no other leaves than
those it reaches: beyond an operand that stops its node nothing is looked up. Evidence that agrees
on these fields leads to the same lookups and the same result. -/
theorem evaluate_reads (evidence : EvidenceSource) (t : Tree) :
    (t.evaluate evidence).asked.Sublist (t.leaves.map Rule.input) ∧
    (t.places.map Prod.snd = t.leaves ∧ (t.places.map Prod.fst).Nodup ∧
      (t.evaluate evidence).asked =
        (t.places.filter fun p => t.Reached evidence p.1).map fun p => p.2.input) ∧
    ∀ evidence' : EvidenceSource,
      (∀ field ∈ (t.evaluate evidence).asked, evidence' field = evidence field) →
      t.evaluate evidence' = t.evaluate evidence := by
  refine ⟨?_, ⟨map_snd_places t, nodup_places t, asked_evaluate evidence t⟩,
    fun _ => evaluate_congr⟩
  have hinputs : t.leaves.map Rule.input = t.places.map fun p => p.2.input := by
    rw [← map_snd_places t, List.map_map]
    rfl
  rw [asked_evaluate, hinputs]
  exact List.filter_sublist.map _

/-- Whoever is an adult or a member, with a score above five. An adult need not say whether they are
a member, also when the score turns out to be no number. -/
theorem evaluate_reads_adult :
    let adult : Tree := .rule ⟨"adult", 1⟩ ⟨"age", ">=", .integer 18, "THRESHOLD"⟩
    let member : Tree := .rule ⟨"member", 1⟩ ⟨"member", "==", .boolean true, "EQUALITY"⟩
    let score : Tree := .rule ⟨"score", 1⟩ ⟨"score", ">", .integer 5, "THRESHOLD"⟩
    let t : Tree := .logical .and [.logical .or [adult, member], score]
    let evidence : EvidenceSource := fun field =>
      if field = "age" then some (.integer 20) else if field = "score" then some (.text "high")
      else none
    let evidence' : EvidenceSource := fun field =>
      if field = "member" then some (.boolean false) else evidence field
    (t.places.filter fun p => t.Reached evidence p.1).map Prod.fst = [[0, 0], [1]] ∧
      (t.evaluate evidence).asked = ["age", "score"] ∧
      (∀ field ∈ (t.evaluate evidence).asked, evidence' field = evidence field) ∧
      (t.evaluate evidence').asked = ["age", "score"] ∧
      (t.evaluate evidence').result = .error (.evidenceNotNumeric "score" (.text "high")) := by
  intro adult member score t evidence evidence'
  obtain ⟨-, -, hagree⟩ := evaluate_reads evidence t
  have hasked : (t.evaluate evidence).asked = ["age", "score"] := by decide +kernel
  have hfields : ∀ field ∈ (t.evaluate evidence).asked, evidence' field = evidence field := by
    rw [hasked]
    decide +kernel
  refine ⟨by decide +kernel, hasked, hfields, ?_⟩
  rw [hagree evidence' hfields]
  exact ⟨hasked, by decide +kernel⟩

end Verdict.Tree
