import CommandGrammar.Cursor
import CommandGrammar.Text.Basic
import CommandGrammar.Text.LetterCase
import CommandGrammar.Token

/-!
# Lexemes

A lexeme is what a token matches at the beginning of the rest of a text, or at a cursor. Whether and
what it matches depends on the rest alone, so `Token.lexeme?` is given nothing else; `Cursor.match?`
reads the whole text at the positions from the cursor on.

* A literal matches as many characters as it has, compared in small letters. Its value is its own
  spelling.
* Words and strings match the longest run without their delimiters, which must not be empty. A run
  that starts with a double quote ends behind the first later double quote that does not directly
  follow a backslash; its value is what stands between the two. Without such a quote there is no
  match.
* The end of a command matches a separator, or the end of the text as if one more character
  stood there.
-/

namespace CommandGrammar

open Text

/-- A separator ends a command. -/
def isSeparator (c : Char) : Bool := c == ',' || c == ';'

/-- What ends an unquoted word. -/
def isWordDelimiter (c : Char) : Bool := isBlank c || isSeparator c || c == ']'

/--
A match: the value that may be captured, the number of characters to move on, and the separator that
ended a command.
-/
structure Lexeme where
  value : Option String
  consumed : Nat
  terminator : Option Char := none
  deriving DecidableEq, Repr

namespace Lexeme

/-- The match of a keyword. -/
def literal? (keyword : String) (rest : List Char) : Option Lexeme :=
  let slice := rest.take keyword.toList.length
  if slice.length = keyword.toList.length ∧ lower slice = lower keyword.toList then
    some { value := some keyword, consumed := keyword.toList.length }
  else none

/-- The match of quoted text, given what follows the opening quote. -/
def quoted? (body : List Char) : Option Lexeme :=
  (upToMark? '"' '"' body).map fun text =>
    { value := some (String.ofList text), consumed := text.length + 2 }

/-- The match of unquoted text. -/
def bare? (isDelimiter : Char → Bool) (rest : List Char) : Option Lexeme :=
  match rest.takeWhile fun c => !isDelimiter c with
  | [] => none
  | text => some { value := some (String.ofList text), consumed := text.length }

/-- The match of free text, quoted or not. -/
def freeText? (isDelimiter : Char → Bool) : List Char → Option Lexeme
  | '"' :: body => quoted? body
  | rest => bare? isDelimiter rest

/-- The match of the end of a command. -/
def commandEnd? : List Char → Option Lexeme
  | [] => some { value := none, consumed := 1 }
  | c :: _ =>
    if isSeparator c then some { value := none, consumed := 1, terminator := some c } else none

/-- Whether the lexeme completes a command: a comma only chains on to the next action. -/
def completesCommand (l : Lexeme) : Bool := l.terminator != some ','

end Lexeme

/-- What a token matches at the beginning of the rest of a text. -/
def Token.lexeme? (token : Token) (rest : List Char) : Option Lexeme :=
  match token.kind with
  | .literal => Lexeme.literal? (token.text.getD "") rest
  | .word => Lexeme.freeText? isWordDelimiter rest
  | .string => Lexeme.freeText? isSeparator rest
  | .commandEnd => Lexeme.commandEnd? rest

/-! ## Matching at a cursor -/

namespace Cursor

/-- The match of a keyword. At the end of the text the slice compared with it is shorter. -/
def literal? (c : Cursor) (keyword : String) : Option Lexeme :=
  let slice := c.slice c.position (c.position + keyword.toList.length)
  if slice.length = keyword.toList.length ∧ lower slice = lower keyword.toList then
    some { value := some keyword, consumed := keyword.toList.length }
  else none

/-- The match of quoted text. The closing quote is told by the character one position in front of it. -/
def quoted? (c : Cursor) : Option Lexeme :=
  (c.seek? (c.position + 1) fun i => c.charAt? i == some '"' && c.charAt? (i - 1) != some '\\').map
    fun close =>
      { value := some (String.ofList (c.slice (c.position + 1) close))
        consumed := close - c.position + 1 }

/-- The match of free text, quoted or not. -/
def freeText? (c : Cursor) (isDelimiter : Char → Bool) : Option Lexeme :=
  if c.current = some '"' then c.quoted?
  else
    let stop := c.behind fun d => !isDelimiter d
    if stop = c.position then none
    else some
      { value := some (String.ofList (c.slice c.position stop))
        consumed := stop - c.position }

/-- The match of the end of a command. -/
def commandEnd? (c : Cursor) : Option Lexeme :=
  if c.atEnd then some { value := none, consumed := 1 }
  else (c.current.filter isSeparator).map fun mark =>
    { value := none, consumed := 1, terminator := some mark }

/-- What a token matches at a cursor. -/
def match? (c : Cursor) (token : Token) : Option Lexeme :=
  match token.kind with
  | .literal => c.literal? (token.text.getD "")
  | .word => c.freeText? isWordDelimiter
  | .string => c.freeText? isSeparator
  | .commandEnd => c.commandEnd?

end Cursor

end CommandGrammar
