import CommandGrammar.Captures
import CommandGrammar.Diagnostic
import CommandGrammar.Journal
import CommandGrammar.Table

/-!
# Runs

A run reads a text from left to right. In each step it skips blanks, tries the tokens of its state
in order, takes the first one that matches, and follows its transition; there is no way back and no
search for a longer match. The end of the text is tried as well, and a token that matches there
completes the run.

Actions are performed by a dispatcher and completed commands are reported to a boundary hook. Both
work on an environment that the run hands from one call to the next, and both may fail, which ends
the run.

A step is put together from parts that each turn a configuration into a `Progress`: the
configuration reached, what happened on the way, and whether the run has ended. `Progress.andThen`
chains parts, and chains steps to runs. What lies before the position never matters, so a
configuration holds only the rest of the text.
-/

namespace CommandGrammar

/-! ## Callbacks -/

/-- What a dispatcher leaves behind: its environment, what it wrote down, and its answer. -/
structure Reply (σ ρ ε : Type) where
  environment : σ
  journal : List CallEvent
  answer : Except ε (Option ρ)

/--
Who performs the actions and who hears of completed commands. A dispatcher sees the captures held and
may answer with a result; without a hook nobody is told of boundaries.
-/
structure Callbacks (σ ρ ε : Type) where
  dispatch : ActionId → Captures → σ → Reply σ ρ ε
  onBoundary : Option (σ → σ × Except ε Unit)

/-- Why a run was given up. -/
inductive Fault (ε : Type) where
  | inputTooLong (length : Nat) (limit : Int)
  | table (error : TableError)
  | capture (error : CaptureError)
  | callback (error : ε)
  | noProgress
  deriving DecidableEq, Repr

/-- The wording for a text over the limit. -/
def Fault.inputTooLongMessage (length : Nat) (limit : Int) : String :=
  s!"command is {length} characters long, limit is {limit}"

/-- The wording of a fault. -/
def Fault.message {ε : Type} (callbackMessage : ε → String) : Fault ε → String
  | .inputTooLong length limit => inputTooLongMessage length limit
  | .table error => error.message
  | .capture error => error.message
  | .callback error => callbackMessage error
  | .noProgress => "a token took up no text"

/-- How a run ended: the whole text was read, no token matched, or it was given up. -/
inductive Ending (ε : Type) where
  | complete
  | unmatched (expected : List String)
  | abandoned (fault : Fault ε)
  deriving DecidableEq, Repr

/-! ## Configurations and progress -/

/-- Where a run stands. -/
structure Config (σ : Type) where
  position : Nat
  rest : List Char
  state : StateName
  captures : Captures
  environment : σ

/-- The configuration behind the blanks at its position. -/
def Config.skipBlanks {σ : Type} (c : Config σ) : Config σ :=
  { c with
    position := c.position + (c.rest.takeWhile isBlank).length
    rest := c.rest.dropWhile isBlank }

/-- What a stretch of a run did, where it led, and whether the run ended with it. -/
structure Progress (σ ρ ε : Type) where
  config : Config σ
  ending : Option (Ending ε) := none
  journal : Journal := []
  actions : List String := []
  results : List ρ := []

namespace Progress

variable {σ ρ ε : Type}

/-- The run ends here. -/
def stop (config : Config σ) (ending : Ending ε) : Progress σ ρ ε := { config, ending := some ending }

/-- The run goes on, with events written down. -/
def note (config : Config σ) (events : Journal) : Progress σ ρ ε := { config, journal := events }

/-- One stretch and, unless the run ended with it, another one behind it. -/
def andThen (p : Progress σ ρ ε) (next : Config σ → Progress σ ρ ε) : Progress σ ρ ε :=
  match p.ending with
  | some _ => p
  | none =>
    let q := next p.config
    { q with
      journal := p.journal ++ q.journal
      actions := p.actions ++ q.actions
      results := p.results ++ q.results }

@[simp] theorem andThen_stop (config : Config σ) (ending : Ending ε)
    (next : Config σ → Progress σ ρ ε) : (stop config ending).andThen next = stop config ending :=
  rfl

/-- **Stretches may be grouped at will.** -/
theorem andThen_assoc (p : Progress σ ρ ε) (f g : Config σ → Progress σ ρ ε) :
    (p.andThen f).andThen g = p.andThen fun c => (f c).andThen g := by
  unfold andThen
  cases hp : p.ending with
  | some e => simp [hp]
  | none => cases hf : (f p.config).ending <;> simp [hf]

end Progress

/-! ## Choosing a token -/

/-- The first token that matches, with what it matches. -/
def choose? (tokens : List Token) (rest : List Char) : Option (Token × Lexeme) :=
  tokens.findSome? fun token => (token.lexeme? rest).map (token, ·)

/-- The tokens that are tried: those in front of the first one that matches, and that one. -/
def triedTokens (tokens : List Token) (rest : List Char) : List Token :=
  tokens.takeWhile (fun token => (token.lexeme? rest).isNone)
    ++ (tokens.find? fun token => (token.lexeme? rest).isSome).toList

/-! ## The parts of a step -/

/-- A table and the callbacks of a run on it. -/
structure Machine (σ ρ ε : Type) where
  table : Table
  callbacks : Callbacks σ ρ ε

namespace Machine

variable {σ ρ ε : Type} (m : Machine σ ρ ε)

/-- The captures are dropped; where there were none, nothing happened. -/
def dropCaptures (c : Config σ) : Progress σ ρ ε :=
  .note { c with captures := c.captures.clear }
    (if c.captures.size = 0 then [] else [.cleared c.captures.size])

/-- The value of a token is held under its identifier. -/
def hold (token : Token) (lexeme : Lexeme) (c : Config σ) : Progress σ ρ ε :=
  match token.capture, lexeme.value with
  | some identifier, some value =>
    match c.captures.push identifier value with
    | .ok captures => .note { c with captures } []
    | .error e => .stop c (.abandoned (.capture e))
  | _, _ => .note c []

/--
An action is performed. It sees the captures, which are dropped behind it even when it fails, and its
result is kept if it has one.
-/
def invoke (action : ActionId) (next : Option StateName) (c : Config σ) : Progress σ ρ ε :=
  match m.table.actionName action with
  | .error e => .stop c (.abandoned (.table e))
  | .ok name =>
    let reply := m.callbacks.dispatch action c.captures c.environment
    Progress.note { c with environment := reply.environment }
        (.invoked action name c.captures.toList :: (reply.journal : Journal))
      |>.andThen dropCaptures
      |>.andThen fun c =>
        match reply.answer with
        | .error e => .stop c (.abandoned (.callback e))
        | .ok result =>
          { config := { c with state := m.table.nextStateAfter next }
            actions := [name]
            results := result.toList }

/-- A transition is followed. Going to the initial state drops the captures. -/
def follow (transition : Transition) (c : Config σ) : Progress σ ρ ε :=
  match transition with
  | .goto state =>
    let c := { c with state }
    if state = m.table.initial then dropCaptures c else .note c []
  | .invoke action next => m.invoke action next c

/-- The hook hears of a completed command. -/
def signal (token : Token) (lexeme : Lexeme) (c : Config σ) : Progress σ ρ ε :=
  match m.callbacks.onBoundary with
  | some hook =>
    if token.kind = .commandEnd ∧ lexeme.completesCommand then
      let (environment, answer) := hook c.environment
      let c' := { c with environment }
      Progress.note c' [.boundary c.position] |>.andThen fun c =>
        match answer with
        | .ok () => .note c []
        | .error e => .stop c (.abandoned (.callback e))
    else .note c []
  | none => .note c []

/--
The position moves behind the lexeme. The end of the text counts as one character, and behind it the
run is complete.
-/
def advance (lexeme : Lexeme) (c : Config σ) : Progress σ ρ ε :=
  let c' := { c with
    position := c.position + lexeme.consumed
    rest := c.rest.drop lexeme.consumed }
  if lexeme.consumed ≤ c.rest.length then .note c' [] else .stop c' .complete

/-- A token is accepted. -/
def accept (token : Token) (lexeme : Lexeme) (c : Config σ) : Progress σ ρ ε :=
  Progress.note c [.matched c.position c.state token lexeme]
    |>.andThen (hold token lexeme)
    |>.andThen (m.follow token.transition)
    |>.andThen (m.signal token lexeme)
    |>.andThen (advance lexeme)

/-- One step of a run. -/
def step (start : Config σ) : Progress σ ρ ε :=
  let c := start.skipBlanks
  match m.table.tokens c.state with
  | .error e => .stop c (.abandoned (.table e))
  | .ok tokens =>
    Progress.note c ((triedTokens tokens c.rest).map (Event.tried c.state)) |>.andThen fun c =>
      match choose? tokens c.rest with
      | some (token, lexeme) => m.accept token lexeme c
      | none => .stop c (.unmatched (tokens.map Token.displayName))

/-- At most `budget` steps. -/
def run : (budget : Nat) → Config σ → Progress σ ρ ε
  | 0, c => .stop c (.abandoned .noProgress)
  | budget + 1, c => (m.step c).andThen fun c => run budget c

end Machine

/-! ## Whole texts -/

/-- What a run on a whole text produced. It is in order when there is no diagnostic. -/
structure Outcome (ρ : Type) where
  actions : List String
  results : List ρ
  diagnostic : Option Diagnostic
  deriving DecidableEq, Repr

/-- Whether the whole text was accepted. -/
def Outcome.ok {ρ : Type} (o : Outcome ρ) : Bool := o.diagnostic.isNone

/-- The outcome of an accepted text, or the diagnostic. -/
def Outcome.accepted {ρ : Type} (o : Outcome ρ) : Except Diagnostic (Outcome ρ) :=
  match o.diagnostic with
  | some d => .error d
  | none => .ok o

/-- All that a run on a text leaves behind, whether it was given up or not. -/
structure Report (σ ρ ε : Type) where
  verdict : Except (Fault ε) (Outcome ρ)
  environment : σ
  held : List (String × String)
  journal : Journal

/-- A machine with the limits under which it runs. -/
structure Parser (σ ρ ε : Type) extends Machine σ ρ ε where
  captureCapacity : Int := Captures.defaultCapacity
  maxInputLength : Option Int := none

namespace Parser

variable {σ ρ ε : Type} (p : Parser σ ρ ε)

/-- The configuration in which a run on a text starts. -/
def start (text : String) (captures : Captures) (environment : σ) : Config σ :=
  { position := 0, rest := text.toList, state := p.table.initial, captures, environment }

/--
The steps that a run may take. A token of a valid table takes up at least one character, and the end of
the text counts as one more.
-/
def budget (text : String) : Nat := text.length + 1

/-- The progress of a whole run. -/
def progress (text : String) (captures : Captures) (environment : σ) : Progress σ ρ ε :=
  p.run (budget text) (p.start text captures environment)

/-- What a run comes to, once it has ended. -/
def conclude (text : String) (q : Progress σ ρ ε) : Report σ ρ ε :=
  let report (verdict : Except (Fault ε) (Outcome ρ)) (last : Journal) : Report σ ρ ε :=
    { verdict
      environment := q.config.environment
      held := q.config.captures.toList
      journal := .started text :: q.journal ++ last }
  match q.ending with
  | some .complete => report (.ok ⟨q.actions, q.results, none⟩) [.finished q.actions]
  | some (.unmatched expected) =>
    report (.ok ⟨q.actions, q.results, some ⟨text, q.config.position, q.config.state, expected⟩⟩)
      [.unmatched q.config.position q.config.state]
  | some (.abandoned fault) => report (.error fault) []
  | none => report (.error .noProgress) []

/-- Whether a text is longer than the parser takes. -/
def exceeds (text : String) : Option Int :=
  p.maxInputLength.filter fun limit => limit < text.length

/-- Runs the parser on a text. The length is checked before anything else, then the capacity. -/
def parse (text : String) (environment : σ) : Report σ ρ ε :=
  match p.exceeds text with
  | some limit =>
    ⟨.error (.inputTooLong text.length limit), environment, [], []⟩
  | none =>
    match Captures.empty? p.captureCapacity with
    | .error e => ⟨.error (.capture e), environment, [], [.started text]⟩
    | .ok captures => conclude text (p.progress text captures environment)

end Parser

end CommandGrammar
