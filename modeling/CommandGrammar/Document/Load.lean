import CommandGrammar.Builder
import CommandGrammar.Document.Check

/-!
# Tables from documents

The states of a checked document are built one after another, and the tokens of each in order. A
literal with several keywords adds a token for each. A token without a target stays in its state,
except for the end of a command, which leads back to the initial state.
-/

namespace CommandGrammar.Document

/-- Why a document is no table. -/
inductive DocumentError where
  | rejected (defects : List (Defect DefectKind))
  | table (error : TableError)
  deriving DecidableEq, Repr

/-- The first line of the wording of a document error. -/
def DocumentError.message : DocumentError → String
  | .rejected defects =>
    "invalid grammar document: " ++ defectCount defects.length ObjectKind.grammar.name
  | .table error => error.message

/-- Adds the tokens of an entry to a state. -/
def Entry.addTo (e : Entry) (b : Builder) (state : StateName) : Except TableError Builder :=
  let (b, call) : Builder × Option Transition :=
    match e.call with
    | some name => (b.call name e.next).map id some
    | none => (b, none)
  match e.literal with
  | some texts => b.literal state texts e.capture e.goto call
  | none =>
    if e.word then b.word state e.capture e.goto call
    else if e.string then b.string state e.capture e.goto call
    else b.commandEnd state e.goto call

namespace Outline

/-- Adds a state with its tokens. -/
def addState (b : Builder) (state : StateName × List Entry) : Except TableError Builder :=
  state.2.foldlM (fun b e => e.addTo b state.1) (b.openState state.1)

/-- The builder that holds all states of a document. -/
def builder (o : Outline) : Except TableError Builder :=
  o.states.entries.foldlM addState { initial := o.initial }

/-- The table of a checked document. -/
def table (o : Outline) : Except TableError Table := o.builder >>= Builder.build

end Outline

/-- The table that a value describes. -/
def toTable (v : Value) : Except DocumentError Table :=
  match Outline.check v with
  | .rejected defects => .error (.rejected defects)
  | .ok outline => outline.table.mapError .table

end CommandGrammar.Document
