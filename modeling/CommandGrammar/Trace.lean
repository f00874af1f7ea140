import CommandGrammar.Run
import CommandGrammar.Text.Quoted

/-!
# Traces

A trace records the actions of a run instead of performing them: each invocation as a `Call` with the
captures it saw, and the number of commands completed. The result of an action is its call.

A call is written on one line. Its arguments are sorted by name and its values quoted, so the line
shows the captures whatever the order in which they were made.
-/

namespace CommandGrammar

open Text

/-- An invoked action with the captures it saw. -/
structure Call where
  action : String
  arguments : List (String × String)
  deriving DecidableEq, Repr

/-- The call on one line. -/
def Call.line (c : Call) : String :=
  let sorted := c.arguments.mergeSort fun a b => a.1 ≤ b.1
  "call " ++ c.action ++ "("
    ++ ", ".intercalate (sorted.map fun a => a.1 ++ "=" ++ quoted a.2) ++ ")"

/-- The calls recorded and the number of commands completed. -/
structure Trace where
  calls : List Call := []
  boundaries : Nat := 0
  deriving DecidableEq, Repr

namespace Trace

/-- Records an invocation. -/
def record (table : Table) (action : ActionId) (captures : Captures) (trace : Trace) :
    Reply Trace Call TableError :=
  match table.actionName action with
  | .error e => ⟨trace, [], .error e⟩
  | .ok name =>
    let call : Call := ⟨name, captures.toList⟩
    ⟨{ trace with calls := trace.calls ++ [call] }, [], .ok (some call)⟩

/-- Counts a completed command. -/
def markBoundary (trace : Trace) : Trace × Except TableError Unit :=
  ({ trace with boundaries := trace.boundaries + 1 }, .ok ())

/-- The callbacks that record a run. -/
def callbacks (table : Table) : Callbacks Trace Call TableError :=
  ⟨record table, some markBoundary⟩

/-- The recorded calls, a line each. -/
def lines (trace : Trace) : List String := trace.calls.map Call.line

end Trace

/-- The parser that records on a table. -/
def Parser.tracing (table : Table) : Parser Trace Call TableError :=
  { table, callbacks := Trace.callbacks table }

end CommandGrammar
