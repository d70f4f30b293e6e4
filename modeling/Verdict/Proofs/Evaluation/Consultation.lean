import Verdict.Proofs.Evaluation.Evaluator

/-!
# What an evaluation looks up

An evaluation begins with a reference, follows what the payload found there refers to, and so on.
It looks at nothing else in an archive, so archives that agree on these references build the same
trees.
-/

namespace Verdict

namespace LoadedArchive

/-- What may be looked up by an evaluation that begins with a reference. -/
inductive LooksUp (l : LoadedArchive) : Reference → Reference → Prop
  | self (r : Reference) : LooksUp l r r
  | through {r d s : Reference} {a : Artifact} : l.artifact? r = some a →
      d ∈ a.payload.references → LooksUp l d s → LooksUp l r s

/-- Another archive has the same under whatever an evaluation from a reference may look up. -/
def AgreesFrom (l l' : LoadedArchive) (r : Reference) : Prop :=
  ∀ s, l.LooksUp r s → l.artifact? s = l'.artifact? s

namespace AgreesFrom

variable {l l' : LoadedArchive} {r d : Reference} {key : VersionedId}

theorem refl (l : LoadedArchive) (r : Reference) : l.AgreesFrom l r := fun _ _ => rfl

theorem below (h : l.AgreesFrom l' r) {a : Artifact} (ha : l.artifact? r = some a)
    (hd : d ∈ a.payload.references) : l.AgreesFrom l' d :=
  fun s hs => h s (.through ha hd hs)

/-- Archives agree from an artifact on that both hold, if they agree from what it refers to. -/
theorem of_references {a : Artifact} (ha : l.artifact? r = some a) (ha' : l'.artifact? r = some a)
    (h : ∀ d ∈ a.payload.references, l.AgreesFrom l' d) : l.AgreesFrom l' r := by
  rintro s (_ | ⟨hb, hd, hs⟩)
  · rw [ha, ha']
  · obtain rfl := Option.some.inj (ha.symm.trans hb)
    exact h _ hd s hs

theorem payload_eq {α : Type} {kind : Kind} {select : Payload → Option α}
    (h : l.AgreesFrom l' (key.withKind kind)) :
    l.payload kind select key = l'.payload kind select key := by
  rw [payload, payload, h _ (.self _)]

theorem of_ruleset (h : l.AgreesFrom l' (key.withKind .ruleset)) {body : Ruleset}
    (hbody : l.ruleset key = .ok body) :
    ∀ k ∈ body.root.leaves, l.AgreesFrom l' (k.withKind .rule) := by
  intro k hk
  obtain ⟨a, ha, hrefers⟩ := refers_of_ruleset hbody
  exact h.below ha (hrefers k hk)

theorem of_task (h : l.AgreesFrom l' (key.withKind .task)) {body : Task}
    (hbody : l.task key = .ok body) : l.AgreesFrom l' (body.ruleset.withKind .ruleset) := by
  obtain ⟨a, ha, hrefers⟩ := refers_of_task hbody
  exact h.below ha hrefers

theorem of_challenge (h : l.AgreesFrom l' (key.withKind .challenge)) {body : Challenge}
    (hbody : l.challenge key = .ok body) :
    ∀ k ∈ body.tasks, l.AgreesFrom l' (k.withKind .task) := by
  intro k hk
  obtain ⟨a, ha, hrefers⟩ := refers_of_challenge hbody
  exact h.below ha (hrefers k hk)

end AgreesFrom
end LoadedArchive

namespace Tree

open LoadedArchive

variable {l l' : LoadedArchive}

mutual
/-- A tree is made of the rules at the leaves and of nothing else. -/
theorem ofExpression_congr : ∀ {e : Expression},
    (∀ k ∈ e.leaves, l.AgreesFrom l' (k.withKind .rule)) → ofExpression l e = ofExpression l' e
  | .ruleRef key, h => by
    have hrule : l.rule key = l'.rule key :=
      (h key (by rw [Expression.leaves]; exact List.mem_singleton_self key)).payload_eq
    rw [ofExpression, ofExpression, hrule]
  | .logical operator es, h => by
    rw [ofExpression, ofExpression, ofExpressions_congr h]

theorem ofExpressions_congr : ∀ {es : List Expression},
    (∀ k ∈ Expression.leavesOfAll es, l.AgreesFrom l' (k.withKind .rule)) →
      ofExpressions l es = ofExpressions l' es
  | [], _ => rfl
  | e :: es, h => by
    rw [Expression.leavesOfAll, List.forall_mem_append] at h
    rw [ofExpressions, ofExpressions, ofExpression_congr h.1, ofExpressions_congr h.2]
end

theorem ofRuleset_congr {key : VersionedId} (h : l.AgreesFrom l' (key.withKind .ruleset)) :
    ofRuleset l key = ofRuleset l' key := by
  have hset : l.ruleset key = l'.ruleset key := h.payload_eq
  rw [ofRuleset, ofRuleset, ← hset]
  cases hbody : l.ruleset key with
  | error missing => rfl
  | ok body => exact ofExpression_congr (h.of_ruleset hbody)

end Tree
end Verdict
