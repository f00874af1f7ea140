/-!
# Cursors

A cursor is a text and a position in it, counted in characters. It only ever moves forward, and it
may stand behind the end of its text, where nothing is left to read. Characters are read at their
positions in the whole text; no copy of what is left is made.
-/

namespace CommandGrammar

/-- A blank separates tokens. -/
def isBlank (c : Char) : Bool := c == ' ' || c == '\t'

/-- A text with a read position. -/
structure Cursor where
  text : String
  position : Nat := 0
  deriving DecidableEq, Repr

namespace Cursor

/-- What is left to read. -/
def rest (c : Cursor) : List Char := c.text.toList.drop c.position

/-- Whether nothing is left to read. -/
def atEnd (c : Cursor) : Bool := c.text.length ≤ c.position

/-- The character at a position, if the text reaches so far. -/
def charAt? (c : Cursor) (i : Nat) : Option Char := c.text.toList[i]?

/-- The part of the text from one position to another, as far as the text reaches. -/
def slice (c : Cursor) (start stop : Nat) : List Char := c.text.toList.extract start stop

/-- The first position from `start` on that passes a test, in front of the end of the text. -/
def seek? (c : Cursor) (start : Nat) (test : Nat → Bool) : Option Nat :=
  (List.range' start (c.text.length - start)).find? test

/-- The position behind those characters from the cursor on that pass a test. -/
def behind (c : Cursor) (test : Char → Bool) : Nat :=
  (c.seek? c.position fun i => !(c.charAt? i).any test).getD (max c.position c.text.length)

/-- The character under the cursor. -/
def current (c : Cursor) : Option Char := c.charAt? c.position

/-- The cursor behind the blanks that it stands on. -/
def skipBlanks (c : Cursor) : Cursor := { c with position := c.behind isBlank }

/-- The wording for a negative count. -/
def backwardsMessage : String := "cursor cannot move backwards"

/-- The cursor `count` characters further on. No count may be negative. -/
def advance? (c : Cursor) (count : Int) : Option Cursor :=
  if count < 0 then none else some { c with position := c.position + count.toNat }

/-- Behind the end nothing is left, and only there. -/
theorem rest_eq_nil_iff {c : Cursor} : c.rest = [] ↔ c.atEnd = true := by
  simp [rest, atEnd, List.drop_eq_nil_iff, ← String.length_toList]

end Cursor

end CommandGrammar
