import CommandGrammar.CommandLine.Arguments
import CommandGrammar.GrammarFile
import CommandGrammar.Settings
import CommandGrammar.Text.Columns
import CommandGrammar.Text.Quoted
import CommandGrammar.Trace
import CommandGrammar.Window.Grammar

/-!
# The program

The program takes its arguments and what it finds around it, and comes to an end with an exit code, an
output and complaints (`launch`). It reads the settings first, then the table, and then does what it was
asked to. Something foreseen that goes wrong on the way is an error with exit code 2; anything else that
does is a failure of the program, with exit code 1. A text that is not accepted has exit code 1 as well.

Files are read in any monad, so the program runs in the world as well as on a list of files. What a reader of
YAML makes of a text is left to it, and so is what a terminal makes of the lines and messages written to it.
-/

namespace CommandGrammar.CommandLine

variable {m : Type → Type} [Monad m]

/-- How a terminal shows a line of output, and a message, in which it lays out the tabs. -/
structure Terminal where
  line : String → String := id
  message : String → String := Text.expandTabs

/--
What the program finds: variables, a file of further ones, a way to get at files, a reader of YAML, and a
terminal.
-/
structure Surroundings (m : Type → Type) where
  environment : List (String × String) := []
  envFile : Option String := none
  contentOf : FilePath → m (Except FileFault (List UInt8))
  yaml : Yaml.Reader := Yaml.read
  terminal : Terminal := {}

/-- What went wrong. -/
inductive Failure where
  | settings (error : SettingsError)
  | load (path : FilePath) (error : LoadError)
  | run (fault : Fault TableError)
  deriving DecidableEq, Repr

namespace Failure

/-- Whether a failure is reported as an error. -/
def foreseen : Failure → Bool
  | .settings (.rejected _) => true
  | .settings (.unknownLevel _) => false
  | .load _ error => error.foreseen
  | .run _ => true

/-- The first line of the wording of a failure. -/
def message : Failure → String
  | .settings (.rejected defects) =>
    "invalid CMDLANG_* settings: " ++ Settings.rejectedMessage defects
  | .settings error => error.message
  | .load path error => error.message path
  | .run fault => fault.message TableError.message

/-- What is complained of. -/
def complaint (f : Failure) (terminal : Terminal) : String :=
  if f.foreseen then terminal.message ("Error: " ++ f.message)
  else "The program failed: " ++ f.message

/-- The exit code. -/
def exitCode (f : Failure) : Nat := if f.foreseen then 2 else 1

end Failure

/-- How the program comes to an end. -/
structure Exit where
  code : Nat
  output : String := ""
  complaints : List String := []
  failure : Option Failure := none
  deriving DecidableEq, Repr

/-! ## Answers -/

/-- What is shown, and whether all is well. -/
structure Answer where
  output : String
  ok : Bool := true
  deriving DecidableEq, Repr

/-- Lines of text, each with its end. -/
def lines (l : List String) : String := String.join (l.map (· ++ "\n"))

/-- A call as an object. -/
def callObject (c : Call) : String :=
  Text.Json.object
    [ ("action", Text.Json.string c.action),
      ("args", Text.Json.object (c.arguments.map fun a => (a.1, Text.Json.string a.2))) ]

/-- Lines as a terminal shows them. -/
def Terminal.lines (terminal : Terminal) (l : List String) : String := CommandLine.lines (l.map terminal.line)

/--
What is shown of a run that came to an outcome: the calls, those recorded on a line each or the results as one
list, and the diagnostic.
-/
def Answer.ofRun (terminal : Terminal) (json : Bool) (trace : Trace) (o : Outcome Call) : Answer where
  output :=
    terminal.lines (if json then [Text.Json.array (o.results.map callObject)] else trace.lines)
    ++ (o.diagnostic.elim "" fun d => lines [terminal.message d.render])
  ok := o.ok

/-- What is shown of a state: its name and its tokens, in the order in which they are tried. -/
def stateLine (table : Table) (state : StateName × List Token) : String :=
  state.1 ++ (if state.1 = table.initial then " (initial)" else "") ++ ": "
    ++ ", ".intercalate (state.2.map Token.displayName)

/-- The parser with the limits of some settings. -/
def parserFor (settings : Settings) (table : Table) : Parser Trace Call TableError :=
  { Parser.tracing table with
    captureCapacity := settings.captureCapacity
    maxInputLength := some settings.maxInputLength }

/-- The table at a path, or the built-in one. -/
def tableAt (s : Surroundings m) : Option FilePath → m (Journal × Except Failure Table)
  | none => return ([], .ok Window.grammar)
  | some path => do
    let table := (GrammarFile.load s.yaml (← s.contentOf path)).mapError (.load path)
    return ([.tableRequested path.text], table)

/-- Answers a request on a table. -/
def respond (terminal : Terminal) (settings : Settings) (table : Table) :
    Request → Journal × Except Failure Answer
  | .parse text _ json =>
    let report := (parserFor settings table).parse text {}
    (report.journal, (report.verdict.map (Answer.ofRun terminal json report.environment)).mapError .run)
  | .states _ => ([], .ok ⟨terminal.lines (table.states.entries.map (stateLine table)), true⟩)

/-- Reads the table and answers the request on it. -/
def perform (s : Surroundings m) (settings : Settings) (request : Request) :
    m (Journal × Except Failure Answer) := do
  match ← tableAt s (request.grammar <|> settings.grammarPath) with
  | (journal, .error e) => return (journal, .error e)
  | (journal, .ok table) =>
    let (rest, answer) := respond s.terminal settings table request
    return (journal ++ rest, answer)

/-! ## Ends -/

/-- What is complained of before anything else: statements of the file of variables that were skipped. -/
def notices (sources : Settings.Sources) : List String :=
  (sources.statements.filter (· == .unreadable)).map fun _ => "skipped an unreadable statement in .env"

/-- The log entries that reach one of the sinks. -/
def logged (sinks : Sinks) (journal : Journal) : List String :=
  sinks.installed.flatMap fun sink =>
    (journal.atLeast sink.level).map fun e => s!"{e.level.name} | {e.message}"

/-- The end with an answer or a failure, behind earlier complaints. -/
def Exit.ofResult (terminal : Terminal) (complaints : List String) : Except Failure Answer → Exit
  | .ok answer => { code := if answer.ok then 0 else 1, output := answer.output, complaints }
  | .error f =>
    { code := f.exitCode, complaints := complaints ++ [f.complaint terminal], failure := some f }

/-- Carries out a request. -/
def carryOut (s : Surroundings m) (request : Request) : m Exit := do
  let sources : Settings.Sources := { environment := s.environment, envFile := s.envFile }
  match Settings.configure sources {} with
  | (_, .error e) => return .ofResult s.terminal (notices sources) (.error (.settings e))
  | (sinks, .ok settings) =>
    let (journal, answer) ← perform s settings request
    return .ofResult s.terminal (notices sources ++ logged sinks journal) answer

/-- Runs the program. -/
def launch (arguments : List String) (s : Surroundings m) : m Exit :=
  match Request.ofArguments? arguments with
  | .error e => return { code := 2, complaints := [usage, e.message] }
  | .ok none => return { code := 0, output := lines [usage] }
  | .ok (some request) => carryOut s request

end CommandGrammar.CommandLine
