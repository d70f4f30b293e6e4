import Verdict.Json.Draft
import Verdict.Text.Digits

/-!
# Reading JSON texts

`Draft.ofText` follows a text as far as it goes. `Json.ofText` is the strict reading: the whole text
is one value without a flaw, at most 127 levels deep, with nothing but blanks around it.
-/

namespace Verdict.Json

/-- The part of a text after a value, or the flaw that ends the text there. -/
abbrev Rest := Except Flaw (List Char)

/-- The blanks of JSON: space, tab and the two line ends. -/
def isBlank (c : Char) : Bool := c = ' ' || c = '\n' || c = '\t' || c = '\r'

def skipBlanks (cs : List Char) : List Char := cs.dropWhile isBlank

namespace Reader

/-! ## Strings -/

/-- The characters with a short escape. -/
def shortEscape? (c : Char) : Option Char :=
  if c = '"' then some '"'
  else if c = '\\' then some '\\'
  else if c = '/' then some '/'
  else if c = 'b' then some '\x08'
  else if c = 'f' then some '\x0c'
  else if c = 'n' then some '\n'
  else if c = 'r' then some '\r'
  else if c = 't' then some '\t'
  else none

def isHighSurrogate (n : Nat) : Bool := 0xd800 ≤ n && n ≤ 0xdbff
def isLowSurrogate (n : Nat) : Bool := 0xdc00 ≤ n && n ≤ 0xdfff

/-- The character written by a surrogate pair. -/
def joinSurrogates (high low : Nat) : Char :=
  Char.ofNat (0x10000 + (high - 0xd800) * 0x400 + (low - 0xdc00))

/-- The flaw of an escape with fewer than four digits: the text is cut if fewer than four bytes are
left in it. -/
def shortQuadFlaw (cs : List Char) : Flaw :=
  if cs.foldl (fun n c => n + c.utf8Size) 0 < 4 then .truncated else .malformed

/-- The low surrogate that a text goes on with, as the second half of a pair. -/
def lowSurrogate : List Char → Except Flaw Nat
  | [] => .error .truncated
  | ['\\'] => .error .truncated
  | '\\' :: 'u' :: a :: b :: c :: d :: _ =>
    match Text.hexQuad? a b c d with
    | none => .error .malformed
    | some n => if isLowSurrogate n then .ok n else .error .malformed
  | '\\' :: 'u' :: short => .error (shortQuadFlaw short)
  | _ => .error .malformed

/-- Characters read so far, last first, or the first flaw met. -/
abbrev SoFar := Except Flaw (List Char)

/-- Marks a flaw unless there is one already. -/
def SoFar.mark (soFar : SoFar) (f : Flaw) : SoFar := soFar.bind fun _ => .error f

def SoFar.push (soFar : SoFar) (c : Char) : SoFar := soFar.map (c :: ·)

/-- A string that breaks off with a flaw. -/
def breakOff (soFar : SoFar) (f : Flaw) : Except Flaw String × Rest :=
  (soFar.bind fun _ => .error f, .error f)

/-- Reads a string after its opening quote: its strict reading and the text after it. `paired` says
that the next escape is the second half of a pair already read. -/
def string (paired : Bool) (soFar : SoFar) : List Char → Except Flaw String × Rest
  | [] => breakOff soFar .truncated
  | c :: rest =>
    if c = '"' then (soFar.map fun cs => String.ofList cs.reverse, .ok rest)
    else if c = '\\' then
      match rest with
      | [] => breakOff soFar .truncated
      | e :: rest =>
        if e = 'u' then
          match rest with
          | h₁ :: h₂ :: h₃ :: h₄ :: rest =>
            match Text.hexQuad? h₁ h₂ h₃ h₄ with
            | none => breakOff soFar .malformed
            | some n =>
              if paired then string false soFar rest
              else if isLowSurrogate n then string false (soFar.mark .malformed) rest
              else if isHighSurrogate n then
                match lowSurrogate rest with
                | .ok m => string true (soFar.push (joinSurrogates n m)) rest
                | .error f => string false (soFar.mark f) rest
              else string false (soFar.push (Char.ofNat n)) rest
          | short => breakOff soFar (shortQuadFlaw short)
        else match shortEscape? e with
          | some c => string false (soFar.push c) rest
          | none => breakOff soFar .malformed
    else if c.toNat < 0x20 then breakOff soFar .malformed
    else string false (soFar.push c) rest

/-- A string token after its opening quote. -/
def stringToken (cs : List Char) : Token String × Rest :=
  let (value, rest) := string false (.ok []) cs
  (⟨value, rest.map fun _ => ()⟩, rest)

/-! ## Numbers -/

/-- A number as written: sign, digits before and after the point, and the exponent. -/
structure Lexeme where
  negative : Bool
  whole : List Char
  fraction : Option (List Char)
  exponent : Option (Bool × List Char)

/-- The exponent written by a sign and digits. -/
def exponentValue (negative : Bool) (ds : List Char) : Int :=
  if negative then -(Text.decimalValue ds : Int) else Text.decimalValue ds

/-- The value of a number. Whole numbers that fit 64 bits are exact, and minus zero is a decimal;
a decimal beyond every finite one is a flaw. -/
def Lexeme.value (l : Lexeme) : Except Flaw Number :=
  let n := Text.decimalValue l.whole
  let asDecimal (digits : Nat) (exponent : Int) : Except Flaw Number :=
    let d := Binary64.ofDecimal l.negative digits exponent
    if d.isFinite then .ok (.decimal d) else .error .malformed
  match l.fraction, l.exponent with
  | none, none =>
    if l.negative then
      if 0 < n ∧ n ≤ Binary64.signBit then .ok (.int (-(n : Int))) else asDecimal n 0
    else if n < UInt64.size then .ok (.int n) else asDecimal n 0
  | fraction, exponent =>
    let places := fraction.getD []
    let shift := match exponent with
      | none => 0
      | some (negative, ds) => exponentValue negative ds
    asDecimal (Text.decimalValue (l.whole ++ places)) (shift - places.length)

/-- A number that breaks off: reading wants more text at its end, skipping does not. -/
def brokenNumber (cs : List Char) : Token Number × Rest :=
  let value : Flaw := if cs.isEmpty then .truncated else .malformed
  (⟨.error value, .error .malformed⟩, .error .malformed)

/-- A number that is complete. -/
def completeNumber (l : Lexeme) (rest : List Char) : Token Number × Rest :=
  (⟨l.value, .ok ()⟩, .ok rest)

/-- Reads the exponent, if one follows. -/
def exponentPart (l : Lexeme) (cs : List Char) : Token Number × Rest :=
  match cs with
  | [] => completeNumber l []
  | c :: rest =>
    if c = 'e' ∨ c = 'E' then
      let (negative, unsigned) := match rest with
        | '-' :: cs => (true, cs)
        | '+' :: cs => (false, cs)
        | cs => (false, cs)
      let ds := unsigned.takeWhile Char.isDigit
      let after := unsigned.dropWhile Char.isDigit
      if ds.isEmpty then brokenNumber after
      else completeNumber { l with exponent := some (negative, ds) } after
    else completeNumber l cs

/-- Reads the fraction, if one follows, and what comes after it. -/
def fractionPart (l : Lexeme) (cs : List Char) : Token Number × Rest :=
  match cs with
  | '.' :: rest =>
    let ds := rest.takeWhile Char.isDigit
    let after := rest.dropWhile Char.isDigit
    if ds.isEmpty then brokenNumber after
    else exponentPart { l with fraction := some ds } after
  | cs => exponentPart l cs

/-- Reads a number without its sign. No further digit may follow a leading zero. -/
def unsignedNumber (negative : Bool) (cs : List Char) : Token Number × Rest :=
  let ds := cs.takeWhile Char.isDigit
  let after := cs.dropWhile Char.isDigit
  match ds with
  | [] => brokenNumber after
  | '0' :: _ :: _ => (⟨.error .malformed, .error .malformed⟩, .error .malformed)
  | ds => fractionPart ⟨negative, ds, none, none⟩ after

/-! ## Values -/

/-- Reads the rest of a word whose first letter has been read. -/
def word (expected : List Char) (value : Draft) (cs : List Char) : Draft × Rest :=
  match expected, cs with
  | [], cs => (value, .ok cs)
  | _ :: _, [] => (.misspelt .truncated, .error .truncated)
  | e :: expected, c :: cs =>
    if c = e then word expected value cs else (.misspelt .malformed, .error .malformed)

mutual
/-- Reads a value and the text after it. The fuel bounds the values read; the length of the text
is always enough. -/
def value (fuel : Nat) (cs : List Char) : Draft × Rest :=
  match fuel with
  | 0 => (.absent .truncated, .error .truncated)
  | fuel + 1 =>
    match skipBlanks cs with
    | [] => (.absent .truncated, .error .truncated)
    | c :: rest =>
      if c = 'n' then word ['u', 'l', 'l'] .null rest
      else if c = 't' then word ['r', 'u', 'e'] (.bool true) rest
      else if c = 'f' then word ['a', 'l', 's', 'e'] (.bool false) rest
      else if c = '"' then
        let (t, after) := stringToken rest
        (.string t, after)
      else if c = '-' then
        let (t, after) := unsignedNumber true rest
        (.number t, after)
      else if c.isDigit then
        let (t, after) := unsignedNumber false (c :: rest)
        (.number t, after)
      else if c = '[' then
        match skipBlanks rest with
        | [] => (.array [] (.error .truncated), .error .truncated)
        | ']' :: after => (.array [] (.ok ()), .ok after)
        | rest =>
          let (items, after) := items fuel rest
          (.array items (after.map fun _ => ()), after)
      else if c = '{' then
        match skipBlanks rest with
        | [] => (.object [] (.error .truncated), .error .truncated)
        | '}' :: after => (.object [] (.ok ()), .ok after)
        | rest =>
          let (members, after) := members fuel rest
          (.object members (after.map fun _ => ()), after)
      else (.absent .malformed, .error .malformed)

/-- Reads one item or more up to the closing bracket. -/
def items (fuel : Nat) (cs : List Char) : List Draft × Rest :=
  match fuel with
  | 0 => ([], .error .truncated)
  | fuel + 1 =>
    let (d, after) := value fuel cs
    match after with
    | .error f => ([d], .error f)
    | .ok rest =>
      match skipBlanks rest with
      | [] => ([d], .error .truncated)
      | c :: rest =>
        if c = ']' then ([d], .ok rest)
        else if c = ',' then
          let (ds, after) := items fuel rest
          (d :: ds, after)
        else ([d], .error .malformed)

/-- Reads one member or more up to the closing brace. -/
def members (fuel : Nat) (cs : List Char) : List (Token String × Draft) × Rest :=
  match fuel with
  | 0 => ([], .error .truncated)
  | fuel + 1 =>
    let (m, after) := member fuel cs
    match after with
    | .error f => ([m], .error f)
    | .ok rest =>
      match skipBlanks rest with
      | [] => ([m], .error .truncated)
      | c :: rest =>
        if c = '}' then ([m], .ok rest)
        else if c = ',' then
          let (ms, after) := members fuel rest
          (m :: ms, after)
        else ([m], .error .malformed)

/-- Reads a key, the colon and the value. -/
def member (fuel : Nat) (cs : List Char) : (Token String × Draft) × Rest :=
  match fuel with
  | 0 => ((⟨.error .truncated, .error .truncated⟩, .absent .truncated), .error .truncated)
  | fuel + 1 =>
    let missing (f : Flaw) : (Token String × Draft) × Rest :=
      ((⟨.error f, .error f⟩, .absent f), .error f)
    match skipBlanks cs with
    | [] => missing .truncated
    | c :: rest =>
      if c = '"' then
        let (key, after) := stringToken rest
        match after with
        | .error f => ((key, .absent f), .error f)
        | .ok rest =>
          match skipBlanks rest with
          | [] => ((key, .absent .truncated), .error .truncated)
          | c :: rest =>
            if c = ':' then
              let (d, after) := value fuel rest
              ((key, d), after)
            else ((key, .absent .malformed), .error .malformed)
      else missing .malformed
end

end Reader

/-- A text as far as it can be followed, and what stands after its value. -/
def Draft.ofText (text : String) : Draft × Rest :=
  let cs := text.toList
  Reader.value (2 * cs.length + 2) cs

/-- Reads a whole text with `reader`: after the value only blanks may follow. -/
def readWith {α : Type} (reader : Draft → Except Flaw α) (text : String) : Except Flaw α := do
  let (draft, after) := Draft.ofText text
  let a ← reader draft
  let rest ← after
  if (skipBlanks rest).isEmpty then return a else throw .malformed

/-- The value a text writes. -/
def ofText (text : String) : Except Flaw Json :=
  readWith (Draft.toJson Draft.depthLimit) text

end Verdict.Json
