/-!
# Segments

Cutting a text at a separator, and taking a known ending off it.
-/

namespace Verdict.Text

/-- The parts of a text between separators; there is always one more part than separators. -/
def segments (separator : Char) : List Char → List (List Char)
  | [] => [[]]
  | c :: cs =>
    if c = separator then [] :: segments separator cs
    else match segments separator cs with
      | [] => [[c]]
      | s :: ss => (c :: s) :: ss

/-- The part of a text before a known ending. -/
def dropEnding? (ending cs : List Char) : Option (List Char) :=
  if cs.drop (cs.length - ending.length) = ending then
    some (cs.take (cs.length - ending.length))
  else none

theorem dropEnding?_append (ending cs : List Char) :
    dropEnding? ending (cs ++ ending) = some cs := by
  simp [dropEnding?]

theorem eq_append_of_dropEnding? {ending cs start : List Char}
    (h : dropEnding? ending cs = some start) : cs = start ++ ending := by
  unfold dropEnding? at h
  split at h
  case isTrue e =>
    have whole := List.take_append_drop (cs.length - ending.length) cs
    rw [e, Option.some.inj h] at whole
    exact whole.symm
  case isFalse => simp at h

/-- Whether a text ends in a known ending. -/
def hasEnding (ending cs : List Char) : Bool := (dropEnding? ending cs).isSome

end Verdict.Text
