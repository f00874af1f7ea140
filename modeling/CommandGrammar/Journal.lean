import CommandGrammar.Level
import CommandGrammar.Lexeme
import CommandGrammar.Text.Basic
import CommandGrammar.Text.Quoted

/-!
# Journals

Everything that happens in a run is written down as an event, in order: each token that is tried
and accepted, each capture that is read or dropped, each action that is invoked, each boundary. A
journal is the list of these events, and at the same time what is logged: every event has a level
and a message.

A dispatcher writes down what its handlers do as `CallEvent`s, so nothing that it says can be
taken for a token accepted, an action invoked or a boundary. `accepted`, `invocations` and
`boundaries` read the history of a run off its journal.
-/

namespace CommandGrammar

open Text

/-- What a dispatcher writes down of one invocation. -/
inductive CallEvent where
  /-- A capture was looked up. -/
  | captureRead (identifier : String)
  /-- A handler is about to be called. -/
  | started (name : String) (arguments : List (String × Option String))
  /-- A handler failed. -/
  | failed (name : String)
  /-- A handler came to its end, whether it failed or not. -/
  | ended (name : String)
  deriving DecidableEq, Repr

/-- One thing that happened. -/
inductive Event where
  /-- A run started on a text. -/
  | started (text : String)
  /-- A token of the current state was compared with the rest of the text. -/
  | tried (state : StateName) (token : Token)
  /-- A token was accepted at a position. -/
  | matched (position : Nat) (state : StateName) (token : Token) (lexeme : Lexeme)
  /-- A number of captures was dropped. -/
  | cleared (count : Nat)
  /-- An action is about to be performed, with the captures then held. -/
  | invoked (action : ActionId) (name : String) (captures : List (String × String))
  /-- A command is complete and the boundary hook is about to be called. -/
  | boundary (position : Nat)
  /-- The whole text was read. -/
  | finished (actions : List String)
  /-- No token of the state matched. -/
  | unmatched (position : Nat) (state : StateName)
  /-- The dispatcher wrote something down. -/
  | call (event : CallEvent)
  /-- A table is about to be read from a file. -/
  | tableRequested (path : String)
  deriving DecidableEq, Repr

/-- Events in the order in which they happened. -/
abbrev Journal := List Event

instance : Coe (List CallEvent) Journal := ⟨List.map Event.call⟩

namespace CallEvent

/-- The level at which a dispatcher's event is logged. -/
def level : CallEvent → Level
  | .started .. | .ended .. => .info
  | .failed .. => .error
  | .captureRead .. => .debug

/-- Arguments of a handler call, each value in brief. -/
def argumentList (arguments : List (String × Option String)) : String :=
  ", ".intercalate (arguments.map fun a => a.1 ++ "=" ++ brief (quoted? a.2))

/--
The message of a dispatcher's event. The time that a call took is not part of this library, so a
question mark stands in its place.
-/
def message : CallEvent → String
  | .captureRead identifier => s!"captures.get identifier={identifier}"
  | .started name arguments =>
    s!"action.call.start name={name} \x7b {argumentList arguments} \x7d"
  | .failed name => s!"action.call.error name={name}"
  | .ended name => s!"action.call.end name={name} duration=?ms"

end CallEvent

namespace Event

/-- The level at which an event is logged. -/
def level : Event → Level
  | .unmatched .. => .info
  | .call event => event.level
  | _ => .debug

/-- The message of an event. -/
def message : Event → String
  | .started text => s!"parser.start input={quoted text}"
  | .tried state token => s!"parser.token.try state={state} token={token.displayName}"
  | .matched _ state token lexeme =>
    s!"parser.token.matched state={state} token={token.displayName} value={quoted? lexeme.value}"
  | .cleared count => s!"captures.clear count={count}"
  | .invoked _ name captures => s!"parser.invoke action={name} captures={pairs captures}"
  | .boundary position => s!"parser.context.reset position={position}"
  | .finished actions => s!"parser.done actions={listed actions}"
  | .unmatched position state => s!"parser.unmatched position={position} state={state}"
  | .call event => event.message
  | .tableRequested path => s!"cli.grammar.load path={path}"

end Event

namespace Journal

/-- The entries that reach a sink with the given threshold. -/
def atLeast (j : Journal) (threshold : Level) : Journal := j.filter (·.level.reaches threshold)

/-- The accepted tokens with their positions, states and matches. -/
def accepted (j : Journal) : List (Nat × StateName × Token × Lexeme) :=
  j.filterMap fun
    | .matched position state token lexeme => some (position, state, token, lexeme)
    | _ => none

/-- The invoked actions with the captures then held. -/
def invocations (j : Journal) : List (ActionId × List (String × String)) :=
  j.filterMap fun
    | .invoked action _ captures => some (action, captures)
    | _ => none

/-- For each boundary, the number of actions invoked before it, counted on from `count`. -/
def boundariesFrom (count : Nat) : Journal → List Nat
  | [] => []
  | .invoked .. :: rest => boundariesFrom (count + 1) rest
  | .boundary _ :: rest => count :: boundariesFrom count rest
  | _ :: rest => boundariesFrom count rest

/-- For each boundary, the number of actions invoked before it. -/
def boundaries (j : Journal) : List Nat := boundariesFrom 0 j

@[simp] theorem accepted_append (a b : Journal) :
    accepted (a ++ b) = accepted a ++ accepted b := List.filterMap_append

@[simp] theorem invocations_append (a b : Journal) :
    invocations (a ++ b) = invocations a ++ invocations b := List.filterMap_append

end Journal

end CommandGrammar
