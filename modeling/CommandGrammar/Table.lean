import CommandGrammar.OrderedMap
import CommandGrammar.Token

/-!
# Tables

A table gives every state its tokens, in the order in which they are tried, and every action id its
name. Several ids may share a name; the name then stands for the last of them.

`Table.defect?` looks for the first fault that could make a run leave the table, and
`Table.validate` accepts a table without one.
-/

namespace CommandGrammar

/-- The state in which a run starts unless the table says otherwise. -/
def defaultInitial : StateName := "INITIAL"

/-- The states with their tokens, the actions with their names, and the initial state. -/
structure Table where
  states : OrderedMap StateName (List Token)
  actions : OrderedMap ActionId String
  initial : StateName := defaultInitial

/-- What is wrong with a table, with a look-up in it, or with a step that would build it. -/
inductive TableError where
  | unknownState (state : StateName)
  | unknownActionId (action : ActionId)
  | unknownAction (name : String)
  | initialWithoutTokens (state : StateName)
  | stateWithoutTokens (state : StateName)
  | literalWithoutText (state : StateName)
  | endWithCapture (state : StateName) (capture : String)
  | loopingCapture (state : StateName) (token : Token) (capture : String)
  | callToUnknownId (state : StateName) (token : Token) (action : ActionId)
  | leadsToUnknownState (state : StateName) (token : Token) (target : StateName)
  | gotoAndCall (state : StateName) (target : StateName)
  deriving DecidableEq, Repr

/-- The wording of a table error. -/
def TableError.message : TableError → String
  | .unknownState state => s!"unknown state: {state}"
  | .unknownActionId action => s!"unknown action id: {action}"
  | .unknownAction name => s!"unknown action: {name}"
  | .initialWithoutTokens state => s!"initial state {state} has no token list"
  | .stateWithoutTokens state => s!"state {state} has no tokens"
  | .literalWithoutText state => s!"state {state}: literal token without text"
  | .endWithCapture state capture => s!"state {state}: end token cannot capture '{capture}'"
  | .loopingCapture state token capture =>
    s!"state {state}: token {token.displayName} captures '{capture}' and loops back to its own state"
  | .callToUnknownId state token action =>
    s!"state {state}: token {token.displayName} calls unknown action id {action}"
  | .leadsToUnknownState state token target =>
    s!"state {state}: token {token.displayName} leads to unknown state {target}"
  | .gotoAndCall state target =>
    s!"state {state}: token cannot both goto {target} and call an action"

namespace Table

/-! ## Look-ups -/

/-- The tokens of a state, in the order in which they are tried. -/
def tokens (t : Table) (state : StateName) : Except TableError (List Token) :=
  match t.states.get? state with
  | some tokens => .ok tokens
  | none => .error (.unknownState state)

/-- The name of an action id. -/
def actionName (t : Table) (action : ActionId) : Except TableError String :=
  match t.actions.get? action with
  | some name => .ok name
  | none => .error (.unknownActionId action)

/-- The last action id with a name. -/
def actionId (t : Table) (name : String) : Except TableError ActionId :=
  match t.actions.entries.reverse.find? (·.2 == name) with
  | some entry => .ok entry.1
  | none => .error (.unknownAction name)

/-- The state that follows an invoked action. -/
def nextStateAfter (t : Table) (next : Option StateName) : StateName := next.getD t.initial

/-- The state to which a transition leads. -/
def target (t : Table) : Transition → StateName
  | .goto state => state
  | .invoke _ next => t.nextStateAfter next

/-! ## Validation -/

/-- A literal has a text. -/
def textDefect? (state : StateName) (token : Token) : Option TableError :=
  if token.kind = .literal ∧ token.text.getD "" = "" then some (.literalWithoutText state) else none

/-- The end of a command holds nothing, and no token holds a text and stays in its state. -/
def captureDefect? (state : StateName) (token : Token) : Option TableError :=
  match token.kind, token.capture, token.transition with
  | .commandEnd, some capture, _ => some (.endWithCapture state capture)
  | _, some capture, .goto target =>
    if target = state then some (.loopingCapture state token capture) else none
  | _, _, _ => none

/-- An invoked action has a name. -/
def actionDefect? (t : Table) (state : StateName) (token : Token) : Option TableError :=
  match token.transition with
  | .invoke action _ =>
    if t.actions.contains action then none else some (.callToUnknownId state token action)
  | .goto _ => none

/-- A token leads to a state of the table. -/
def targetDefect? (t : Table) (state : StateName) (token : Token) : Option TableError :=
  if t.states.contains (t.target token.transition) then none
  else some (.leadsToUnknownState state token (t.target token.transition))

/-- The first fault of a token in a state. -/
def tokenDefect? (t : Table) (state : StateName) (token : Token) : Option TableError :=
  textDefect? state token <|> captureDefect? state token
    <|> t.actionDefect? state token <|> t.targetDefect? state token

/-- The first fault of a state. -/
def stateDefect? (t : Table) (state : StateName) (tokens : List Token) : Option TableError :=
  if tokens.isEmpty then some (.stateWithoutTokens state)
  else tokens.findSome? (t.tokenDefect? state)

/-- The first fault of a table: the initial state, then the states in order. -/
def defect? (t : Table) : Option TableError :=
  if t.states.contains t.initial then
    t.states.entries.findSome? fun entry => t.stateDefect? entry.1 entry.2
  else some (.initialWithoutTokens t.initial)

/-- The table itself when it has no fault. -/
def validate (t : Table) : Except TableError Table :=
  match t.defect? with
  | some error => .error error
  | none => .ok t

theorem validate_eq_ok_iff {t t' : Table} : t.validate = .ok t' ↔ t.defect? = none ∧ t' = t := by
  unfold validate
  cases t.defect? <;> simp [eq_comm]

/-! ## Comparison -/

/--
Whether two tables are the same: the order of states and of actions does not count, that of tokens
does.
-/
def same (a b : Table) : Bool :=
  a.states.sameEntries b.states && a.actions.sameEntries b.actions && a.initial == b.initial

end Table

end CommandGrammar
