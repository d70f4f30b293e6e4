import Verdict.Archive.Loaded
import Verdict.Proofs.Evaluation.Tree
import Verdict.Proofs.Payload.References

/-!
# Sound archives

In a sound archive everything that a payload refers to is there, and every rule can compare its
literal. The payload that a reference asks for is then always found.
-/

namespace Verdict

namespace Payload

variable {p : Payload}

theorem asRule?_eq_some_iff {body : Rule} : p.asRule? = some body ↔ p = .rule body := by
  cases p <;> simp [asRule?]

theorem asRuleset?_eq_some_iff {body : Ruleset} : p.asRuleset? = some body ↔ p = .ruleset body := by
  cases p <;> simp [asRuleset?]

theorem asTask?_eq_some_iff {body : Task} : p.asTask? = some body ↔ p = .task body := by
  cases p <;> simp [asTask?]

theorem asChallenge?_eq_some_iff {body : Challenge} :
    p.asChallenge? = some body ↔ p = .challenge body := by
  cases p <;> simp [asChallenge?]

end Payload

namespace LoadedArchive

variable {l : LoadedArchive} {key : VersionedId}

theorem payload_eq_ok_iff {α : Type} {kind : Kind} {select : Payload → Option α} {body : α} :
    l.payload kind select key = .ok body ↔
      ∃ a, l.artifact? (key.withKind kind) = some a ∧ select a.payload = some body := by
  unfold payload
  cases l.artifact? (key.withKind kind) with
  | none => simp
  | some a => cases hs : select a.payload <;> simp [hs]

theorem refers_of_ruleset {body : Ruleset} (hbody : l.ruleset key = .ok body) :
    ∃ a, l.artifact? (key.withKind .ruleset) = some a ∧
      ∀ k ∈ body.root.leaves, k.withKind .rule ∈ a.payload.references := by
  obtain ⟨a, ha, hselect⟩ := payload_eq_ok_iff.mp hbody
  refine ⟨a, ha, fun k hk => ?_⟩
  rw [Payload.asRuleset?_eq_some_iff.mp hselect]
  exact List.mem_map.mpr ⟨k, hk, rfl⟩

theorem refers_of_task {body : Task} (hbody : l.task key = .ok body) :
    ∃ a, l.artifact? (key.withKind .task) = some a ∧
      body.ruleset.withKind .ruleset ∈ a.payload.references := by
  obtain ⟨a, ha, hselect⟩ := payload_eq_ok_iff.mp hbody
  refine ⟨a, ha, ?_⟩
  rw [Payload.asTask?_eq_some_iff.mp hselect]
  exact List.mem_singleton_self _

theorem refers_of_challenge {body : Challenge} (hbody : l.challenge key = .ok body) :
    ∃ a, l.artifact? (key.withKind .challenge) = some a ∧
      ∀ k ∈ body.tasks, k.withKind .task ∈ a.payload.references := by
  obtain ⟨a, ha, hselect⟩ := payload_eq_ok_iff.mp hbody
  refine ⟨a, ha, fun k hk => ?_⟩
  rw [Payload.asChallenge?_eq_some_iff.mp hselect]
  exact List.mem_map.mpr ⟨k, hk, rfl⟩

/-- Every artifact stands under its own reference, whatever its payload refers to is there too, and
every rule can be evaluated as far as it is concerned itself. -/
structure Sound (l : LoadedArchive) : Prop where
  reference_eq : ∀ r a, l.artifact? r = some a → a.reference = r
  closed : ∀ r a, l.artifact? r = some a → ∀ r' ∈ a.payload.references, ∃ b, l.artifact? r' = some b
  comparable : ∀ r a body, l.artifact? r = some a → a.payload = .rule body → body.Comparable

namespace Sound

variable (h : l.Sound)

include h

/-- What is there under a kind has a payload of that kind. -/
theorem exists_payload {α : Type} {kind : Kind} {select : Payload → Option α}
    (hselect : ∀ p : Payload, p.kind = kind → ∃ body, select p = some body)
    (hkey : ∃ a, l.artifact? (key.withKind kind) = some a) :
    ∃ body, l.payload kind select key = .ok body := by
  obtain ⟨a, ha⟩ := hkey
  have hkind : a.payload.kind = kind := congrArg Reference.kind (h.reference_eq _ a ha)
  obtain ⟨body, hbody⟩ := hselect a.payload hkind
  exact ⟨body, payload_eq_ok_iff.mpr ⟨a, ha, hbody⟩⟩

theorem rule_of_ruleset {body : Ruleset} (hbody : l.ruleset key = .ok body) :
    ∀ k ∈ body.root.leaves, ∃ r, l.rule k = .ok r := by
  intro k hk
  obtain ⟨a, ha, hrefers⟩ := refers_of_ruleset hbody
  apply h.exists_payload
  · intro p hp
    cases p with
    | rule r => exact ⟨r, rfl⟩
    | _ => cases hp
  · exact h.closed _ a ha _ (hrefers k hk)

theorem ruleset_of_task {body : Task} (hbody : l.task key = .ok body) :
    ∃ r, l.ruleset body.ruleset = .ok r := by
  obtain ⟨a, ha, hrefers⟩ := refers_of_task hbody
  apply h.exists_payload
  · intro p hp
    cases p with
    | ruleset r => exact ⟨r, rfl⟩
    | _ => cases hp
  · exact h.closed _ a ha _ hrefers

theorem task_of_challenge {body : Challenge} (hbody : l.challenge key = .ok body) :
    ∀ k ∈ body.tasks, ∃ t, l.task k = .ok t := by
  intro k hk
  obtain ⟨a, ha, hrefers⟩ := refers_of_challenge hbody
  apply h.exists_payload
  · intro p hp
    cases p with
    | task t => exact ⟨t, rfl⟩
    | _ => cases hp
  · exact h.closed _ a ha _ (hrefers k hk)

theorem rule_comparable {body : Rule} (hbody : l.rule key = .ok body) : body.Comparable := by
  obtain ⟨a, ha, hselect⟩ := payload_eq_ok_iff.mp hbody
  exact h.comparable _ a body ha (Payload.asRule?_eq_some_iff.mp hselect)

end Sound
end LoadedArchive
end Verdict
