/-!
# Positions in a YAML text

A position knows what is left of the text, how many characters were read, and the line and the column
where it stands. A byte order mark takes no column.
-/

namespace CommandGrammar.Yaml

/-- Whether a character ends a line. -/
def isBreak (c : Char) : Bool :=
  c == '\n' || c == '\r' || c == '\x85' || c == '\u2028' || c == '\u2029'

/-- Whether a character is a blank or ends a line. -/
def isBlankOrBreak (c : Char) : Bool := c == ' ' || c == '\t' || isBreak c

/-- The end of the text, or a character with a property. -/
def endOr (p : Char → Bool) : Option Char → Bool
  | none => true
  | some c => p c

/-- A character with a property. -/
def isSomeAnd (p : Char → Bool) : Option Char → Bool
  | none => false
  | some c => p c

/-- The end of the text, a space, or the end of a line. -/
def atSpace : Option Char → Bool := endOr fun c => c == ' ' || isBreak c

/-- The end of the text, a blank, or the end of a line. -/
def atBlank : Option Char → Bool := endOr isBlankOrBreak

/-- A place in a text. -/
structure Position where
  rest : List Char
  index : Nat := 0
  line : Nat := 0
  column : Nat := 0
  deriving Inhabited

namespace Position

/-- The character at a distance. -/
def peek (p : Position) (distance : Nat := 0) : Option Char := p.rest[distance]?

/-- One character further on. -/
def next (p : Position) : Position :=
  match p.rest with
  | [] => p
  | c :: rest =>
    if isBreak c then { rest, index := p.index + 1, line := p.line + 1, column := 0 }
    else { p with
      rest
      index := p.index + 1
      column := if c = '\uFEFF' then p.column else p.column + 1 }

/-- A number of characters further on. -/
def forward : (count : Nat) → Position → Position
  | 0, p => p
  | count + 1, p => forward count p.next

/-- The characters from here on that have a property, and the position behind them. -/
def span (p : Position) (property : Char → Bool) : List Char × Position :=
  let taken := p.rest.takeWhile property
  (taken, p.forward taken.length)

/-- The position behind the characters that have a property. -/
def skip (p : Position) (property : Char → Bool) : Position := (p.span property).2

/-- The position behind the spaces that stand here. -/
def skipSpaces (p : Position) : Position := p.skip (· == ' ')

/-- The position at the end of the line, behind a comment, if one starts here. -/
def skipComment (p : Position) : Position :=
  if p.peek = some '#' then p.skip fun c => !isBreak c else p

/--
The position behind the end of the line, if one stands here, and what it stands for in a text: most
ends of lines are a line feed, the two separators stand for themselves.
-/
def lineBreak? (p : Position) : Option (Char × Position) :=
  match p.rest with
  | '\r' :: '\n' :: _ => some ('\n', p.forward 2)
  | c :: _ =>
    if c = '\u2028' ∨ c = '\u2029' then some (c, p.next)
    else if isBreak c then some ('\n', p.next)
    else none
  | [] => none

/-- Whether a line of three marks that separates documents starts here. -/
def atSeparator (p : Position) : Bool :=
  (p.rest.take 3 == ['-', '-', '-'] || p.rest.take 3 == ['.', '.', '.']) && atBlank (p.peek 3)

/-- Whether a position has a number of columns left of it. -/
def inColumn (p : Position) (column : Int) : Bool := (p.column : Int) == column

end Position

end CommandGrammar.Yaml
