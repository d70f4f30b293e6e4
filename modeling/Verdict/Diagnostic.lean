/-!
# Diagnostics

What a run has to say about its documents: errors and warnings, each with the place the document
came from if it is known.
-/

namespace Verdict

inductive Severity where
  | error
  | warning
  deriving DecidableEq, Repr, Inhabited

structure Diagnostic where
  severity : Severity
  origin : Option String
  message : String
  deriving DecidableEq, Repr, Inhabited

namespace Diagnostic

def isError (d : Diagnostic) : Bool := d.severity = .error

/-- An error of no particular document. -/
def ofError (message : String) : Diagnostic := ⟨.error, none, message⟩

/-- The line a diagnostic is shown as. -/
def text (d : Diagnostic) : String :=
  let label := match d.severity with
    | .error => "error: "
    | .warning => "warning: "
  let place := match d.origin with
    | some origin => origin ++ ": "
    | none => ""
  label ++ place ++ d.message

/-- Diagnostics one per line. -/
def lines (ds : List Diagnostic) : String := String.join (ds.map fun d => d.text ++ "\n")

end Diagnostic
end Verdict
