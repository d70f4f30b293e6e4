import Mathlib.Data.List.Induction
import Verdict.Proofs.Context

/-!
# Lifecycles of contexts

What a context answers follows from the calls made before: the artifacts given to it before it was
frozen for the first time are registered, the last one under each reference, and from then on every
registration is refused.
-/

namespace Verdict

/-- A call on a context. -/
inductive ContextCall where
  | register (a : Artifact)
  | resolve (r : Reference)
  | contains (r : Reference)
  | freeze

/-- The answer to a call. -/
inductive ContextAnswer where
  | registered (result : Except CompileError Unit)
  | resolved (result : Except CompileError Artifact)
  | contained (present : Bool)
  | frozen

namespace ContextCall

def isFreeze : ContextCall → Bool
  | freeze => true
  | register _ | resolve _ | contains _ => false

/-- The artifact that a call gives to a context. -/
def artifact? : ContextCall → Option Artifact
  | register a => some a
  | resolve _ | contains _ | freeze => none

/-- Whether some call freezes. -/
def freezes (calls : List ContextCall) : Bool := calls.any isFreeze

/-- The artifacts given by the calls before the first that freezes. -/
def given : List ContextCall → List Artifact
  | [] | freeze :: _ => []
  | register a :: calls => a :: given calls
  | resolve _ :: calls | contains _ :: calls => given calls

/-- The last artifact with a reference that is given before a call freezes. -/
def lastGiven? (calls : List ContextCall) (r : Reference) : Option Artifact :=
  ((given calls).filter fun a => a.reference = r).getLast?

theorem freezes_concat (calls : List ContextCall) (c : ContextCall) :
    freezes (calls ++ [c]) = (freezes calls || c.isFreeze) := by
  simp [freezes]

theorem given_concat (calls : List ContextCall) (c : ContextCall) :
    given (calls ++ [c]) =
      if freezes calls then given calls else given calls ++ c.artifact?.toList := by
  induction calls with
  | nil => cases c <;> rfl
  | cons c' cs ih =>
    cases c' with
    | freeze => rfl
    | register a =>
      have hf : freezes (register a :: cs) = freezes cs := rfl
      rw [List.cons_append, given, ih, hf, given]
      split_ifs <;> rfl
    | resolve r => exact ih
    | contains r => exact ih

end ContextCall

namespace Context

open ContextCall

/-- The context after a call, and its answer. -/
def call (c : Context) : ContextCall → Context × ContextAnswer
  | .register a =>
    match c.register a with
    | .ok c' => (c', .registered (.ok ()))
    | .error e => (c, .registered (.error e))
  | .resolve r => (c, .resolved (c.resolve r))
  | .contains r => (c, .contained (c.contains r))
  | .freeze => (c.freeze, .frozen)

/-- The context after calls made one after the other. -/
def run (c : Context) (calls : List ContextCall) : Context :=
  calls.foldl (fun c x => (c.call x).1) c

theorem run_concat (c : Context) (calls : List ContextCall) (x : ContextCall) :
    c.run (calls ++ [x]) = ((c.run calls).call x).1 := by
  rw [run, List.foldl_concat, run]

/-- The phase that calls lead to from a running context. -/
def phaseAfter (calls : List ContextCall) : Phase := if freezes calls then .frozen else .running

/-- Calls leave what they give before the first of them freezes. -/
theorem run_empty (calls : List ContextCall) :
    empty.run calls = ⟨Registry.ofArtifacts (given calls), phaseAfter calls⟩ := by
  induction calls using List.reverseRecOn with
  | nil => rfl
  | append_singleton calls x ih =>
    rw [run_concat, ih, given_concat, phaseAfter, phaseAfter, freezes_concat]
    cases hf : freezes calls with
    | true => cases x <;> simp [call, register, freeze]
    | false =>
      cases x with
      | register a => simp [call, register, artifact?, isFreeze, Registry.ofArtifacts]
      | _ => simp [call, freeze, artifact?, isFreeze]

/-- No call changes a frozen context. -/
theorem call_of_frozen {c : Context} (h : c.phase = .frozen) (x : ContextCall) :
    (c.call x).1 = c := by
  rcases c with ⟨symbols, phase⟩
  cases h
  cases x <;> rfl

theorem run_of_frozen {c : Context} (h : c.phase = .frozen) (calls : List ContextCall) :
    c.run calls = c := by
  induction calls with
  | nil => rfl
  | cons x xs ih =>
    rw [run, List.foldl_cons, call_of_frozen h]
    exact ih

theorem isOk_resolve (c : Context) (r : Reference) : (c.resolve r).isOk = c.contains r := by
  rw [resolve, contains, Table.contains]
  cases c.symbols.find? r <;> rfl

/-- What was given last under a reference is what stands there. -/
theorem find?_run_empty (calls : List ContextCall) (r : Reference) :
    (empty.run calls).symbols.find? r = lastGiven? calls r := by
  rw [run_empty]
  exact Registry.find?_ofArtifacts _ r

/-- Whatever calls were made on a fresh context: it resolves a reference to the artifact registered
last under it before the first freeze, and names the reference if there is none; it contains what
it resolves and counts every reference once. Once frozen it refuses every registration, which
changes no later answer, and stays frozen. -/
theorem answers_exact (calls : List ContextCall) :
    let c := empty.run calls
    (∀ r, (c.call (.resolve r)).2 = .resolved (match lastGiven? calls r with
        | some a => .ok a
        | none => .error (.missingDependency r))) ∧
      (∀ r, (c.call (.contains r)).2 = .contained (c.resolve r).isOk) ∧
      c.size = ((given calls).map Artifact.reference).dedup.length ∧
      (∀ a, (c.call (.register a)).2 = .registered
        (if freezes calls then .error (.contextFrozen a.reference) else .ok ())) ∧
      (freezes calls = true → ∀ a later x,
        (((c.call (.register a)).1.run later).call x).2 = ((c.run later).call x).2) ∧
      (c.phase = .frozen ↔ freezes calls = true) ∧
      (c.phase = .frozen → ∀ later, (c.run later).phase = .frozen) := by
  have hrun := run_empty calls
  have hphase : (empty.run calls).phase = .frozen ↔ freezes calls = true := by
    rw [hrun]
    simp [phaseAfter]
  refine ⟨?_, ?_, ?_, ?_, ?_, hphase, ?_⟩
  · intro r
    have hfound := find?_run_empty calls r
    cases hl : lastGiven? calls r <;> simp only [call, resolve, hfound, hl]
  · intro r
    rw [call, isOk_resolve]
  · rw [hrun]
    exact Registry.size_ofArtifacts _
  · intro a
    rw [hrun, call, register, phaseAfter]
    cases freezes calls <;> rfl
  · intro hf a later x
    rw [call_of_frozen (hphase.mpr hf)]
  · intro hf later
    rw [run_of_frozen hf, hf]

/-- A rule registered twice before the context is frozen, and once more afterwards. -/
def lateRule : List ContextCall :=
  let rule (threshold : Int) : Artifact :=
    ⟨"r1", 1, ⟨"", 0, ""⟩, [], .rule ⟨"count", ">", .integer threshold, "THRESHOLD"⟩⟩
  [.register (rule 3), .register (rule 7), .freeze, .register (rule 9)]

theorem answers_exact_lateRule :
    let c := empty.run lateRule
    let r : Reference := ⟨.rule, "r1", 1⟩
    freezes lateRule = true ∧ c.phase = .frozen ∧ c.size = 1 ∧
      (∃ a, (c.call (.resolve r)).2 = .resolved (.ok a) ∧
        a.payload = .rule ⟨"count", ">", .integer 7, "THRESHOLD"⟩) ∧
      (c.call (.resolve ⟨.rule, "r1", 2⟩)).2 =
        .resolved (.error (.missingDependency ⟨.rule, "r1", 2⟩)) ∧
      ∀ a, (c.call (.register a)).2 = .registered (.error (.contextFrozen a.reference)) ∧
        (c.run [.register a]).phase = .frozen := by
  obtain ⟨hresolve, -, hsize, hregister, -, hphase, hstays⟩ := answers_exact lateRule
  have hfrozen := hphase.mpr rfl
  exact ⟨rfl, hfrozen, hsize, ⟨_, hresolve _, rfl⟩, hresolve _,
    fun a => ⟨hregister a, hstays hfrozen [.register a]⟩⟩

end Context
end Verdict
