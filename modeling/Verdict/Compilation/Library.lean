import Verdict.Compilation.Basic
import Verdict.Diagnostic
import Verdict.Source.Library

/-!
# Compiling libraries

The documents of a library are compiled in order and registered. A document that does not compile is
reported as a warning and left out: whether that matters is decided by what the root reaches.
-/

namespace Verdict

/-- What compiling a library leaves behind. -/
structure LibraryResult where
  context : Context
  /-- The kinds of the documents compiled, in order. -/
  compiled : List Kind
  warnings : List Diagnostic

namespace LibraryResult

/-- Nothing compiled yet. -/
def start (c : Context) : LibraryResult := ⟨c, [], []⟩

/-- Compiles one document and registers the artifact. -/
def add (builtAt : UInt64) (r : LibraryResult) (u : SourceUnit) : LibraryResult :=
  match (compile u.kind r.context.symbols builtAt u.content).bind r.context.register with
  | .ok context => { r with context, compiled := r.compiled ++ [u.kind] }
  | .error e => { r with warnings := r.warnings ++ [⟨.warning, some u.origin, e.message⟩] }

/-- The number of artifacts compiled of each kind that occurs. -/
def counts (r : LibraryResult) : List (Kind × Nat) := Library.countKinds r.compiled

end LibraryResult

/-- Compiles every document of a library in a context. -/
def compileLibrary (builtAt : UInt64) (l : Library) (c : Context) : LibraryResult :=
  l.units.foldl (LibraryResult.add builtAt) (.start c)

end Verdict
