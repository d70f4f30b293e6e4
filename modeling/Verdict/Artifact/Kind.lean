/-!
# Kinds of artifacts

The five kinds of documents, in the order in which they are compiled. A kind refers only to kinds
before it.
-/

namespace Verdict

inductive Kind where
  | evidenceType
  | rule
  | ruleset
  | task
  | challenge
  deriving DecidableEq, Repr, Inhabited

namespace Kind

/-- Every kind, in compilation order. -/
def all : List Kind := [evidenceType, rule, ruleset, task, challenge]

/-- The place of a kind in the compilation order. -/
def order : Kind → Nat
  | evidenceType => 0
  | rule => 1
  | ruleset => 2
  | task => 3
  | challenge => 4

/-- The name used in documents, envelopes and archive paths. -/
def name : Kind → String
  | evidenceType => "EvidenceType"
  | rule => "Rule"
  | ruleset => "Ruleset"
  | task => "Task"
  | challenge => "Challenge"

def ofName? (s : String) : Option Kind := all.find? fun k => k.name = s

theorem ofName?_name (k : Kind) : ofName? k.name = some k := by cases k <;> rfl

theorem name_of_ofName? {s : String} {k : Kind} (h : ofName? s = some k) : k.name = s := by
  simpa using List.find?_some h

/-- Every kind with its name. -/
def alternatives : List (String × Kind) := all.map fun k => (k.name, k)

/-- The message for a name that is no kind. -/
def unknownMessage (s : String) : String := s!"unknown artifact kind: {s}"

end Kind
end Verdict
