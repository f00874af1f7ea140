/-!
# Tokens

A token is one rule of a state: what it matches at the cursor, under which identifier the matched
text is held, and where the run goes from there. A transition either moves to a state or invokes an
action and then moves on.
-/

namespace CommandGrammar

/-- The name of a state. -/
abbrev StateName := String

/-- The number under which a table knows an action. -/
abbrev ActionId := Int

/-- What a token matches: a keyword, free text up to a delimiter, or the end of a command. -/
inductive TokenKind where
  | literal
  | word
  | string
  | commandEnd
  deriving DecidableEq, Repr

/-- The word for a kind in messages. -/
def TokenKind.label : TokenKind → String
  | .literal => "literal"
  | .word => "word"
  | .string => "string"
  | .commandEnd => "end"

/--
Where a run goes after a token. An invoked action that names no next state leads back to the
initial state; the state that invoked it is not remembered.
-/
inductive Transition where
  | goto (state : StateName)
  | invoke (action : ActionId) (next : Option StateName)
  deriving DecidableEq, Repr

/-- The action that a transition invokes. -/
def Transition.action? : Transition → Option ActionId
  | .invoke action _ => some action
  | .goto _ => none

/-- One rule of a state. Only literals use their text. -/
structure Token where
  kind : TokenKind
  text : Option String := none
  capture : Option String := none
  transition : Transition
  deriving DecidableEq, Repr

namespace Token

/-- The action that a token invokes. -/
def action? (token : Token) : Option ActionId := token.transition.action?

/-- A keyword. -/
def literal (text : String) (transition : Transition) (capture : Option String := none) : Token :=
  ⟨.literal, some text, capture, transition⟩

/-- Free text up to a blank, a separator or a closing bracket. -/
def word (transition : Transition) (capture : Option String := none) : Token :=
  ⟨.word, none, capture, transition⟩

/-- Free text up to a separator. -/
def string (transition : Transition) (capture : Option String := none) : Token :=
  ⟨.string, none, capture, transition⟩

/-- The end of a command: a separator or the end of the text. -/
def commandEnd (transition : Transition) : Token :=
  ⟨.commandEnd, none, none, transition⟩

/-- How a token is named in messages: a literal by its text, any other by its kind. -/
def displayName (token : Token) : String :=
  match token.kind with
  | .literal => "'" ++ token.text.getD "None" ++ "'"
  | kind => "<" ++ kind.label ++ ">"

end Token

end CommandGrammar
