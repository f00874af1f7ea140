import CommandGrammar.Table

/-!
# Building tables

A builder collects states and actions step by step. States stand in the order in which they are
first opened, and a state may be reopened at any time; actions are numbered in the order in which
they are first called.
-/

namespace CommandGrammar

/-- A table in the making. The number of an action is its place in the list. -/
structure Builder where
  initial : StateName := defaultInitial
  states : OrderedMap StateName (List Token) := .empty
  actions : List String := []

namespace Builder

variable (b : Builder)

/-- Opens a state; a new one has no tokens. -/
def openState (name : StateName) : Builder :=
  if b.states.contains name then b else { b with states := b.states.insert name [] }

/-- Calls an action by name. A new name takes the next number. -/
def call (name : String) (next : Option StateName := none) : Builder × Transition :=
  let actions := if b.actions.contains name then b.actions else b.actions ++ [name]
  ({ b with actions }, .invoke (actions.idxOf name) next)

/-- Puts tokens behind those of a state. -/
def append (state : StateName) (tokens : List Token) : Builder :=
  { b with states := b.states.insert state ((b.states.get? state).getD [] ++ tokens) }

/--
The transition of a token. It may go to a state or perform a call but not both, and without either it
stays in its state.
-/
def transition (state : StateName) (goto : Option StateName) (call : Option Transition) :
    Except TableError Transition :=
  match goto, call with
  | some target, some _ => .error (.gotoAndCall state target)
  | none, some call => .ok call
  | some target, none => .ok (.goto target)
  | none, none => .ok (.goto state)

/-- Adds a literal for each text. -/
def literal (state : StateName) (texts : List String) (capture : Option String)
    (goto : Option StateName) (call : Option Transition) : Except TableError Builder := do
  let transition ← transition state goto call
  return b.append state (texts.map fun text => .literal text transition capture)

/-- Adds a word. -/
def word (state : StateName) (capture : Option String)
    (goto : Option StateName) (call : Option Transition) : Except TableError Builder := do
  let transition ← transition state goto call
  return b.append state [.word transition capture]

/-- Adds a string. -/
def string (state : StateName) (capture : Option String)
    (goto : Option StateName) (call : Option Transition) : Except TableError Builder := do
  let transition ← transition state goto call
  return b.append state [.string transition capture]

/-- Adds the end of a command, which leads to the initial state unless it is told otherwise. -/
def commandEnd (state : StateName) (goto : Option StateName) (call : Option Transition) :
    Except TableError Builder := do
  let goto := if goto.isNone && call.isNone then some b.initial else goto
  let transition ← transition state goto call
  return b.append state [.commandEnd transition]

/-- The table collected so far, not yet validated. -/
def table : Table :=
  { states := b.states
    actions := .ofList (b.actions.zipIdx.map fun (name, i) => ((i : Int), name))
    initial := b.initial }

/-- The table collected so far, if it is valid. -/
def build : Except TableError Table := b.table.validate

end Builder

end CommandGrammar
