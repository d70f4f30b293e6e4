import Verdict.Archive.Emission
import Verdict.Compilation.Library
import Verdict.Validation.Unit

/-!
# Builds

A build takes a library to an archive: validate every document, compile them, close over the root,
and emit. It stops at the first stage that has errors, and its report says how far it came.
-/

namespace Verdict

/-- How far a build has come. -/
inductive BuildState where
  | running
  | failed
  | completed
  deriving DecidableEq, Repr, Inhabited

def BuildState.name : BuildState → String
  | running => "Running"
  | failed => "Failed"
  | completed => "Completed"

/-- The summary of a build. -/
structure Report where
  root : Reference
  state : BuildState
  diagnostics : List Diagnostic
  /-- Documents of each kind. -/
  sources : List (Kind × Nat)
  /-- Artifacts compiled of each kind. -/
  compiled : List (Kind × Nat)
  reachable : Nat
  /-- Where the archive was written. -/
  archive : Option String
  deriving Repr

namespace Report

def isSuccess (r : Report) : Bool := r.state = .completed

def errors (r : Report) : List Diagnostic := r.diagnostics.filter Diagnostic.isError

def compiledTotal (r : Report) : Nat := r.compiled.foldl (fun n e => n + e.2) 0

/-- The report of a build that has not begun. -/
def start (root : Reference) (l : Library) : Report :=
  ⟨root, .running, [], l.counts, [], 0, none⟩

/-- Ends a build with what went wrong. -/
def fail (r : Report) (ds : List Diagnostic) : Report :=
  { r with diagnostics := r.diagnostics ++ ds, state := .failed }

end Report

/-- The output directory if none is asked for. -/
def defaultOutput : String := "target"

/-- What is wrong with an output directory before anything is written to it. -/
def outputFault? (tree : FileTree) (output : String) : Option CompileError :=
  if output = "" then some .emptyOutput
  else match tree.get output with
    | .ok (.file _) => some (.outputIsFile output)
    | _ => none

/-- Builds the archive of a root. The tree is the one after the build. -/
def build (tree : FileTree) (builtAt : UInt64) (l : Library) (root : Reference) (output : String) :
    Report × FileTree :=
  let report := Report.start root l
  match outputFault? tree output with
  | some e => (report.fail [.ofError e.message], tree)
  | none =>
    let found := Validation.ofLibrary l
    if found.any Diagnostic.isError then (report.fail found, tree)
    else
      let result := compileLibrary builtAt l .empty
      let outcome := Outcome.ofRoot result.context.freeze root
      let report := { report with
        diagnostics := found ++ result.warnings
        compiled := result.counts
        reachable := outcome.reached.length }
      if !outcome.isSuccess then (report.fail outcome.diagnostics, tree)
      else
        match emit tree output outcome with
        | (tree, .error e) => (report.fail [.ofError e.message], tree)
        | (tree, .ok path) => ({ report with archive := some path, state := .completed }, tree)

end Verdict
