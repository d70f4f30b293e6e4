import Verdict.Text.Unprintable
import Verdict.Text.Combining

/-!
# Quoted text

How a text is shown inside a message: between double quotes, with every character that could be
misread written as an escape. A reader of the message can tell where the text starts and ends and
which characters it holds.
-/

namespace Verdict.Text

/-- The control characters: U+0000 to U+001F and U+007F to U+009F. -/
def isControl (c : Char) : Bool :=
  c.toNat < 0x20 || (0x7f ≤ c.toNat && c.toNat ≤ 0x9f)

/-- The code point of a character in lower-case hexadecimal, between braces. -/
def codePointEscape (c : Char) : List Char :=
  '\\' :: 'u' :: '\x7b' :: (Nat.toDigits 16 c.toNat ++ ['\x7d'])

/-- The characters that a backslash and another character stand for, with the latter. -/
def quoteEscapes : List (Char × Char) :=
  [('"', '"'), ('\\', '\\'), ('\x00', '0'), ('\t', 't'), ('\n', 'n'), ('\r', 'r')]

/-- How one character is shown inside quotes. -/
def quoteChar (c : Char) : List Char :=
  match quoteEscapes.lookup c with
  | some letter => ['\\', letter]
  | none => if isCombining c || isUnprintable c then codePointEscape c else [c]

/-- A text between double quotes, as messages show it. -/
def quoted (s : String) : String :=
  String.ofList ('"' :: (s.toList.flatMap quoteChar ++ ['"']))

end Verdict.Text
