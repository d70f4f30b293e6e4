import Verdict.Text.Quoted
import Verdict.Text.Segments

/-!
# The log

What a tool has to report goes to the log, marked with its level. A message may hold text from
outside, so the characters that a terminal takes for commands are written as escapes; values that
stand behind a message under a name are written as they are. Blanks and line breaks are kept: a
message may have several lines, of which only the first is marked.
-/

namespace Verdict.Log

/-- The ASCII characters that a terminal takes for commands, with their codes: bell, backspace, form
feed, escape and delete. -/
def commandCodes : List (Char × String) :=
  [('\x07', "07"), ('\x08', "08"), ('\x0c', "0c"), ('\x1b', "1b"), ('\x7f', "7f")]

/-- How one character of a message is written. -/
def escapeChar (c : Char) : List Char :=
  match commandCodes.lookup c with
  | some code => '\\' :: 'x' :: code.toList
  | none => if 0x80 ≤ c.toNat ∧ c.toNat ≤ 0x9f then Text.codePointEscape c else [c]

/-- A message without commands to the terminal. -/
def escape (message : String) : String := String.ofList (message.toList.flatMap escapeChar)

/-- The lines of an error in the log. -/
def errorLines (text : String) : List String :=
  (Text.segments '\n' ("ERROR " ++ text).toList).map String.ofList

end Verdict.Log
