import CommandGrammar.Text.Numeral
import CommandGrammar.Yaml.Fault
import CommandGrammar.Yaml.Position
import CommandGrammar.Yaml.Token

/-!
# Quoted scalars of YAML

Single quotes keep everything but a doubled quote as it is; double quotes know escapes. Line ends inside
are folded: blanks around a single line end become one space, and of several line ends all but the first
are kept. A line that separates documents may not occur inside. Escapes may name halves of surrogate pairs, so
the readers give the numbers of the characters.
-/

namespace CommandGrammar.Yaml

/-- What the letters behind a backslash stand for. -/
def escapeChars : List (Char × Char) :=
  [ ('0', '\x00'), ('a', '\x07'), ('b', '\x08'), ('t', '\t'), ('\t', '\t'), ('n', '\n'),
    ('v', '\x0B'), ('f', '\x0C'), ('r', '\r'), ('e', '\x1B'), (' ', ' '), ('"', '"'),
    ('\\', '\\'), ('/', '/'), ('N', '\x85'), ('_', '\xA0'), ('L', '\u2028'), ('P', '\u2029') ]

/-- How many hexadecimal digits follow the letters for characters by number. -/
def escapeWidths : List (Char × Nat) := [('x', 2), ('u', 4), ('U', 8)]

/-- Whether a character is an ASCII hexadecimal digit. -/
def isHexDigit (c : Char) : Bool :=
  c.isDigit || ('a' ≤ c && c ≤ 'f') || ('A' ≤ c && c ≤ 'F')

/-- The number that as many hexadecimal digits spell, and the position behind them. -/
def hexNumber? (width : Nat) (p : Position) : Option (Nat × Position) :=
  let digits := p.rest.take width
  if digits.length = width ∧ digits.all isHexDigit then
    (Text.natOfDigits? 16 digits).map (·, p.forward width)
  else none

/-- The number of a character as it is written; it may be that of half of a surrogate pair. -/
def checkCode (code : Nat) : Except Fault Nat :=
  if code < 0x110000 then .ok code else .error (.codePoint code)

/-- The line ends from here on, with the blanks in front of each dropped. -/
def foldedBreaks : (fuel : Nat) → Position → Except Fault (List Char × Position)
  | 0, _ => .error .malformed
  | fuel + 1, p =>
    if p.atSeparator then .error .malformed
    else
      let p := p.skip fun c => c == ' ' || c == '\t'
      match p.lineBreak? with
      | some (c, p) => do
        let (more, p) ← foldedBreaks fuel p
        return (c :: more, p)
      | none => .ok ([], p)

/-- What an escape stands for, from behind the backslash on. -/
def escaped (fuel : Nat) (p : Position) : Except Fault (List Nat × Position) :=
  match p.peek with
  | none => .error .malformed
  | some c =>
    match escapeChars.lookup c, escapeWidths.lookup c with
    | some d, _ => .ok ([d.toNat], p.next)
    | none, some width =>
      match hexNumber? width p.next with
      | some (code, p) => do return ([← checkCode code], p)
      | none => .error .malformed
    | none, none =>
      match p.lineBreak? with
      | some (_, p) => do
        let (breaks, p) ← foldedBreaks fuel p
        return (breaks.map Char.toNat, p)
      | none => .error .malformed

/-- The characters up to a blank, the end of a line, the closing quote or the end of the text. -/
def quotedWord (double : Bool) : (fuel : Nat) → Position → Except Fault (List Nat × Position)
  | 0, _ => .error .malformed
  | fuel + 1, p =>
    match p.peek with
    | none => .ok ([], p)
    | some c =>
      if isBlankOrBreak c then .ok ([], p)
      else if c = (if double then '"' else '\x27') then
        if !double && p.peek 1 == some '\x27' then do
          let (more, p) ← quotedWord double fuel (p.forward 2)
          return ('\x27'.toNat :: more, p)
        else .ok ([], p)
      else if double && c == '\\' then do
        let (text, p) ← escaped fuel p.next
        let (more, p) ← quotedWord double fuel p
        return (text ++ more, p)
      else do
        let (more, p) ← quotedWord double fuel p.next
        return (c.toNat :: more, p)

/-- What the blanks and line ends from here on stand for. -/
def quotedSpace (fuel : Nat) (p : Position) : Except Fault (List Char × Position) :=
  let (blanks, p) := p.span fun c => c == ' ' || c == '\t'
  match p.lineBreak? with
  | some (c, p) => do
    let (breaks, p) ← foldedBreaks fuel p
    let first := if c ≠ '\n' then [c] else if breaks.isEmpty then [' '] else []
    return (first ++ breaks, p)
  | none => if p.peek.isNone then .error .malformed else .ok (blanks, p)

/-- The words and the space between them up to the closing quote. -/
def quotedText (double : Bool) : (fuel : Nat) → Position → Except Fault (List Nat × Position)
  | 0, _ => .error .malformed
  | fuel + 1, p => do
    let (word, p) ← quotedWord double (fuel + 1) p
    if p.peek = some (if double then '"' else '\x27') then return (word, p.next)
    let (space, p) ← quotedSpace (fuel + 1) p
    let (more, p) ← quotedText double fuel p
    return (word ++ space.map Char.toNat ++ more, p)

/-- The text of the quoted scalar that starts here, and the position behind it. -/
def quotedScalar (double : Bool) (p : Position) : Except Fault (Spelled × Position) := do
  let (codes, p) ← quotedText double (p.rest.length + 1) p.next
  return (.ofCodes codes, p)

end CommandGrammar.Yaml
