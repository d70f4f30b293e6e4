import Verdict.Artifact.Registry
import Verdict.Compilation.Error

/-!
# Compilation contexts

The artifacts of one run under their references. Artifacts are registered while the context is
running; once frozen it only answers questions.
-/

namespace Verdict

/-- The lifecycle of a context. -/
inductive Phase where
  | running
  | frozen
  deriving DecidableEq, Repr, Inhabited

def Phase.name : Phase → String
  | running => "Running"
  | frozen => "Frozen"

structure Context where
  symbols : Registry
  phase : Phase
  deriving Inhabited

namespace Context

/-- A running context in which nothing is registered. -/
def empty : Context := ⟨Table.empty, .running⟩

/-- Registers an artifact, unless the context is frozen. -/
def register (c : Context) (a : Artifact) : Except CompileError Context :=
  match c.phase with
  | .running => .ok { c with symbols := c.symbols.register a }
  | .frozen => .error (.contextFrozen a.reference)

/-- The artifact registered under a reference. -/
def resolve (c : Context) (r : Reference) : Except CompileError Artifact :=
  match c.symbols.find? r with
  | some a => .ok a
  | none => .error (.missingDependency r)

def contains (c : Context) (r : Reference) : Bool := c.symbols.contains r

/-- Stops registration for good. -/
def freeze (c : Context) : Context := { c with phase := .frozen }

def size (c : Context) : Nat := c.symbols.size

end Context
end Verdict
