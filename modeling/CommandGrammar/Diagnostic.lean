import CommandGrammar.Token

/-!
# Diagnostics

A diagnostic says where a run stopped and what would have been accepted there. It is shown as three
lines: the accepted tokens, the text, and carets under the part of the text that was not read.
-/

namespace CommandGrammar

/-- Where a run stopped, and the names of the tokens that would have been accepted there. -/
structure Diagnostic where
  input : String
  position : Int
  state : StateName
  expected : List String
  deriving DecidableEq, Repr

namespace Diagnostic

/-- The diagnostic for a state whose tokens do not match. -/
def ofTokens (input : String) (position : Int) (state : StateName) (tokens : List Token) :
    Diagnostic :=
  ⟨input, position, state, tokens.map Token.displayName⟩

/-- What was expected. -/
def message (d : Diagnostic) : String :=
  "Expected one of these tokens: " ++ ", ".intercalate d.expected

/-- Blanks under what was read and carets under the rest, in the length of the input. -/
def underline (d : Diagnostic) : String :=
  let read := min d.position.toNat d.input.length
  String.ofList (List.replicate read ' ' ++ List.replicate (d.input.length - read) '^')

/-- What stands in front of the input. -/
def inputLabel : String := "Your command: "

/-- The three lines of a diagnostic. -/
def render (d : Diagnostic) : String :=
  let margin := String.ofList (List.replicate inputLabel.length ' ')
  s!"{d.message}\n{inputLabel}{d.input}\n{margin}{d.underline}"

/-- The underline is as long as the input. -/
theorem length_underline (d : Diagnostic) : d.underline.length = d.input.length := by
  simp only [underline, String.length_ofList, List.length_append, List.length_replicate]
  omega

end Diagnostic

end CommandGrammar
