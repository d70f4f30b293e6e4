import Verdict.Compilation.Context
import Verdict.Diagnostic

/-!
# Dependency closures

What a root reaches through declared dependencies, in breadth-first order. References that lead
nowhere are collected as errors and do not stop the search.
-/

namespace Verdict

/-- A search part way through. -/
structure Search where
  /-- The references still to look at, nearest first. -/
  queue : List Reference
  /-- The references looked at. -/
  visited : List Reference
  /-- The artifacts found, in the order found. -/
  reached : List Artifact
  /-- The references under which nothing is registered, in the order met. -/
  missing : List Reference

namespace Search

/-- A search that is about to look at the root. -/
def start (root : Reference) : Search := ⟨[root], [], [], []⟩

/-- Looks at the first reference in the queue. -/
def step (registered : Registry) (s : Search) : Search :=
  match s.queue with
  | [] => s
  | r :: rest =>
    if r ∈ s.visited then { s with queue := rest }
    else
      let visited := r :: s.visited
      match registered.find? r with
      | none => { s with queue := rest, visited, missing := s.missing ++ [r] }
      | some a =>
        { s with
          queue := rest ++ a.dependencies.filter fun d => d ∉ visited
          visited
          reached := s.reached ++ [a] }

/-- Takes a number of steps. -/
def run (registered : Registry) : Nat → Search → Search
  | 0, s => s
  | n + 1, s => run registered n (s.step registered)

/-- Enough steps to empty the queue: one for the root and one for every declared dependency. -/
def bound (registered : Registry) : Nat :=
  registered.values.foldr (fun a n => a.dependencies.length + n) 1

end Search

/-- What a root reaches, and what it fails to reach. -/
structure Outcome where
  root : Reference
  reached : List Artifact
  errors : List CompileError

namespace Outcome

/-- The closure of a root in a context, which has to be frozen. -/
def ofRoot (c : Context) (root : Reference) : Outcome :=
  match c.phase with
  | .running => ⟨root, [], [.contextNotFrozen "building the dependency closure"]⟩
  | .frozen =>
    let s := (Search.start root).run c.symbols (Search.bound c.symbols)
    ⟨root, s.reached, s.missing.map .missingDependency⟩

def isSuccess (o : Outcome) : Bool := o.errors.isEmpty

/-- The artifact reached under a reference. -/
def find? (o : Outcome) (r : Reference) : Option Artifact :=
  o.reached.find? fun a => a.reference = r

def contains (o : Outcome) (r : Reference) : Bool := (o.find? r).isSome

def diagnostics (o : Outcome) : List Diagnostic :=
  o.errors.map fun e => .ofError e.message

end Outcome
end Verdict
