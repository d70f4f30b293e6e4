import Verdict.Payload.Scalar

/-!
# Rules

A rule compares one field of evidence with a literal. The operator is kept as written: whether it is
one that can be evaluated is decided when the rule is.
-/

namespace Verdict

structure Rule where
  input : String
  operator : String
  value : Scalar
  ruleType : String
  deriving DecidableEq, Repr, Inhabited

namespace Rule

def toJson (r : Rule) : Json :=
  .obj [("input", .str r.input), ("operator", .str r.operator), ("value", r.value.toJson),
    ("ruleType", .str r.ruleType)]

def ofDraft (d : Json.Draft) : Except Json.Flaw Rule := do
  let scalar := Scalar.ofDraft Json.Draft.depthLimit
  let fields ← d.record [.required "input" Json.Draft.text, .required "operator" Json.Draft.text,
    .required "value" scalar, .required "ruleType" Json.Draft.text]
  return ⟨← fields.get "input" Json.Draft.text, ← fields.get "operator" Json.Draft.text,
    ← fields.get "value" scalar, ← fields.get "ruleType" Json.Draft.text⟩

end Rule
end Verdict
