import CommandGrammar.Run

/-!
# Registries

A registry performs the actions of a table with the handlers registered for them. A handler declares
parameters, and is called with the capture of each parameter, or with nothing for a parameter that
was not captured.

Registering an action anew replaces its handler; an action that the table does not know cannot be
registered, and an invoked action without a handler ends the run.
-/

namespace CommandGrammar

/-- The arguments of a handler call, a parameter each. -/
abbrev Arguments := List (String × Option String)

/-- What performs an action: it works on an environment and may answer with a result, or fail. -/
abbrev Handler (σ ρ ε : Type) := Arguments → σ → σ × Except ε (Option ρ)

/-- A registered action. -/
structure Descriptor (σ ρ ε : Type) where
  name : String
  handler : Handler σ ρ ε
  parameters : List String := []
  description : String := ""

/--
The arguments for a call. A parameter declared twice is looked up twice and stands once, at its first
place.
-/
def Descriptor.arguments {σ ρ ε : Type} (d : Descriptor σ ρ ε) (captures : Captures) : Arguments :=
  d.parameters.eraseDups.map fun parameter => (parameter, captures.get? parameter)

/-- The look-ups that `arguments` makes. -/
def Descriptor.lookups {σ ρ ε : Type} (d : Descriptor σ ρ ε) : List CallEvent :=
  d.parameters.map CallEvent.captureRead

/-- Why an invocation failed. -/
inductive InvokeError (ε : Type) where
  | table (error : TableError)
  | unhandled (name : String)
  | handler (error : ε)
  deriving DecidableEq, Repr

/-- The wording for an action without a handler. -/
def InvokeError.unhandledMessage (name : String) : String :=
  s!"no handler registered for action: {name}"

/-- A table with handlers for its actions. -/
structure Registry (σ ρ ε : Type) where
  table : Table
  registered : OrderedMap String (Descriptor σ ρ ε) := .empty

namespace Registry

variable {σ ρ ε : Type} (r : Registry σ ρ ε)

/-- The registry with a handler for an action of its table. -/
def register (d : Descriptor σ ρ ε) : Except TableError (Registry σ ρ ε) := do
  let _ ← r.table.actionId d.name
  return { r with registered := r.registered.insert d.name d }

/-- Whether an action has a handler. -/
def has (name : String) : Bool := r.registered.contains name

/-- The registration of an action. -/
def get? (name : String) : Option (Descriptor σ ρ ε) := r.registered.get? name

/-- All registrations, sorted by name. -/
def descriptors : List (Descriptor σ ρ ε) :=
  r.registered.values.mergeSort fun a b => a.name ≤ b.name

/-- The actions of the table without a handler, sorted; a name stands as often as the table has it. -/
def missing : List String :=
  (r.table.actions.values.filter fun name => !r.has name).mergeSort fun a b => a ≤ b

/-- Calls the handler of an action. -/
def call (name : String) (d : Descriptor σ ρ ε) (captures : Captures) (environment : σ) :
    Reply σ ρ (InvokeError ε) :=
  let arguments := d.arguments captures
  let opening := d.lookups ++ [.started name arguments]
  match d.handler arguments environment with
  | (environment, .ok result) => ⟨environment, opening ++ [.ended name], .ok result⟩
  | (environment, .error e) =>
    ⟨environment, opening ++ [.failed name, .ended name], .error (.handler e)⟩

/-- Performs an action. -/
def invoke (action : ActionId) (captures : Captures) (environment : σ) :
    Reply σ ρ (InvokeError ε) :=
  match r.table.actionName action with
  | .error e => ⟨environment, [], .error (.table e)⟩
  | .ok name =>
    match r.get? name with
    | none => ⟨environment, [], .error (.unhandled name)⟩
    | some d => call name d captures environment

/-- The parser that performs the actions of a text. -/
def parser : Parser σ ρ (InvokeError ε) :=
  { table := r.table, callbacks := ⟨r.invoke, none⟩ }

end Registry

end CommandGrammar
