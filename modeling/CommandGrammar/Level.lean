/-!
# Levels of importance

Log entries have a level, and a sink takes the entries at or above its own. Levels are known by
name and ordered by number.
-/

namespace CommandGrammar

/-- How important a log entry is. -/
inductive Level where
  | trace
  | debug
  | info
  | success
  | warning
  | error
  | critical
  deriving DecidableEq, Repr

namespace Level

/-- All levels, from the least to the most important. -/
def all : List Level := [.trace, .debug, .info, .success, .warning, .error, .critical]

/-- The number by which levels are compared. -/
def number : Level → Nat
  | .trace => 5
  | .debug => 10
  | .info => 20
  | .success => 25
  | .warning => 30
  | .error => 40
  | .critical => 50

/-- The name of a level, in capitals. -/
def name : Level → String
  | .trace => "TRACE"
  | .debug => "DEBUG"
  | .info => "INFO"
  | .success => "SUCCESS"
  | .warning => "WARNING"
  | .error => "ERROR"
  | .critical => "CRITICAL"

/-- The level with a name. -/
def ofName? (name : String) : Option Level := all.find? (·.name == name)

/-- Whether an entry of this level reaches a sink with the given threshold. -/
def reaches (entry threshold : Level) : Bool := threshold.number ≤ entry.number

/-- A name belongs to one level only. -/
theorem ofName?_name (l : Level) : ofName? l.name = some l := by
  cases l <;> decide

theorem ofName?_eq_some_iff {name : String} {l : Level} : ofName? name = some l ↔ l.name = name := by
  constructor
  · intro h
    exact beq_iff_eq.mp (List.find?_some (p := fun l : Level => l.name == name) h)
  · intro h
    rw [← h, ofName?_name]

end Level

end CommandGrammar
