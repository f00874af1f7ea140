import CommandGrammar.FilePath

/-!
# Arguments of the command line

The first argument names a command; only a request for help may stand in front of it. Behind it options
and operands may be mixed. An option has a long name behind two dashes, and one of them a short name behind
a single dash. A value follows its option, or a long name and an equals sign, or a short name directly. Two
dashes alone end the options. Of an option given twice the last one counts.

Options are read first, then help is given if it was asked for, and only then are the operands counted.
-/

namespace CommandGrammar.CommandLine

/-- What the program is asked to do. -/
inductive Request where
  /-- Runs a text and shows the actions. -/
  | parse (text : String) (grammar : Option FilePath) (json : Bool)
  /-- Shows the states of a table. -/
  | states (grammar : Option FilePath)
  deriving DecidableEq, Repr

/-- Why arguments are no request. -/
inductive UsageError where
  | missingCommand
  | unknownCommand (name : String)
  | unknownOption (option : String)
  | missingValue (option : String)
  | unwantedValue (option : String)
  | missingOperand
  | extraOperand (operand : String)
  deriving DecidableEq, Repr

/-- The wording of a usage error. -/
def UsageError.message : UsageError → String
  | .missingCommand => "no command is given"
  | .unknownCommand name => s!"there is no command {name}"
  | .unknownOption option => s!"there is no option {option}"
  | .missingValue option => s!"option {option} needs a value"
  | .unwantedValue option => s!"option {option} takes no value"
  | .missingOperand => "the text is missing"
  | .extraOperand operand => s!"unexpected argument {operand}"

/-- How to use the program. -/
def usage : String :=
  "usage: parse TEXT [-g|--grammar PATH] [--json]\n       states [-g|--grammar PATH]"

/-- The commands. -/
inductive Command where
  | parse
  | states
  deriving DecidableEq, Repr

/-- The command with a name. -/
def Command.ofName? : String → Option Command
  | "parse" => some .parse
  | "states" => some .states
  | _ => none

/-! ## Options -/

/-- The options. -/
inductive Switch where
  | grammar
  | json
  | help
  deriving DecidableEq, Repr

namespace Switch

/-- The option of a command with a long name. -/
def ofLongName? (command : Command) : String → Option Switch
  | "--grammar" => some .grammar
  | "--json" => if command = .parse then some .json else none
  | "--help" => some .help
  | _ => none

/-- Whether an option is given with a value. -/
def takesValue (s : Switch) : Bool := s == .grammar

end Switch

/-- The options and operands given so far. -/
structure Given where
  grammar : Option String := none
  json : Bool := false
  help : Bool := false
  operands : List String := []
  deriving DecidableEq, Repr

namespace Given

/-- With one more option; options that need no value ignore it. -/
def switch (g : Given) (value : String) : Switch → Given
  | .grammar => { g with grammar := some value }
  | .json => { g with json := true }
  | .help => { g with help := true }

/-- With more operands. -/
def addOperands (g : Given) (operands : List String) : Given :=
  { g with operands := g.operands ++ operands }

end Given

/-- An option as it stands in an argument, with the value in the same argument if there is one. -/
structure Occurrence where
  switch : Switch
  value : Option String
  deriving DecidableEq, Repr

/-- The option in an argument that starts with a dash. -/
def readOption (command : Command) (argument : String) : Except UsageError Occurrence :=
  match argument.toList with
  | '-' :: '-' :: _ =>
    let cs := argument.toList
    let name := String.ofList (cs.takeWhile (· != '='))
    let value := (cs.dropWhile (· != '=')).tail?.map String.ofList
    match Switch.ofLongName? command name with
    | none => .error (.unknownOption name)
    | some s =>
      if value.isSome && !s.takesValue then .error (.unwantedValue name) else .ok ⟨s, value⟩
  | '-' :: 'g' :: [] => .ok ⟨.grammar, none⟩
  | '-' :: 'g' :: value => .ok ⟨.grammar, some (String.ofList value)⟩
  | cs => .error (.unknownOption (String.ofList (cs.take 2)))

/-- Whether an argument stands for an option. A dash alone does not. -/
def isOption (argument : String) : Bool :=
  match argument.toList with
  | '-' :: _ :: _ => true
  | _ => false

/-- The options and operands of a command. -/
def collect (command : Command) (g : Given) : List String → Except UsageError Given
  | [] => .ok g
  | argument :: rest =>
    if argument = "--" then .ok (g.addOperands rest)
    else if isOption argument then
      match readOption command argument with
      | .error e => .error e
      | .ok ⟨s, some value⟩ => collect command (g.switch value s) rest
      | .ok ⟨s, none⟩ =>
        if s.takesValue then
          match rest with
          | [] => .error (.missingValue argument)
          | value :: rest => collect command (g.switch value s) rest
        else collect command (g.switch "" s) rest
    else collect command (g.addOperands [argument]) rest

/-! ## Requests -/

/-- The path of the table that a request names. -/
def Request.grammar : Request → Option FilePath
  | .parse _ grammar _ => grammar
  | .states grammar => grammar

/-- The request that a command with options and operands makes, if it is not for help. -/
def Given.request? (g : Given) (command : Command) : Except UsageError (Option Request) :=
  let grammar := g.grammar.map FilePath.ofString
  if g.help then .ok none
  else match command, g.operands with
    | .parse, [text] => .ok (some (.parse text grammar g.json))
    | .parse, [] => .error .missingOperand
    | .parse, _ :: extra :: _ => .error (.extraOperand extra)
    | .states, [] => .ok (some (.states grammar))
    | .states, extra :: _ => .error (.extraOperand extra)

namespace Request

/-- The request of a command and what follows it, if it is not for help. -/
def ofCommand? : List String → Except UsageError (Option Request)
  | [] => .error .missingCommand
  | name :: rest =>
    match Command.ofName? name with
    | none => .error (.unknownCommand name)
    | some command => do (← collect command {} rest).request? command

/-- The request behind the options in front of the command; `help` tells whether help was asked for. -/
def behindHelp? (help : Bool) (arguments : List String) : Except UsageError (Option Request) :=
  match arguments with
  | [] => if help then .ok none else .error .missingCommand
  | argument :: rest =>
    if argument = "--help" then behindHelp? true rest
    else if argument ≠ "--" ∧ isOption argument then .error (.unknownOption argument)
    else if help then .ok none
    else ofCommand? (if argument = "--" then rest else arguments)

/-- The request that arguments make, if it is not for help. -/
def ofArguments? (arguments : List String) : Except UsageError (Option Request) :=
  behindHelp? false arguments

end Request

end CommandGrammar.CommandLine
