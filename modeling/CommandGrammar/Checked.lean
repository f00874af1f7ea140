/-!
# Checked values

A check turns some data into a value or finds everything that is wrong with it, as a list of defects. A
defect has a kind and the path to its place. Parts are checked independently of each other, so `<*>`
collects the defects of both sides (`defects_ap`); only `andThen` makes a check depend on another.
-/

namespace CommandGrammar

/-- One step on the way to a place in a document. -/
inductive PathStep where
  | name (text : String)
  | index (number : Int)
  deriving DecidableEq, Repr

/-- A finding, with the path to its place. -/
structure Defect (κ : Type) where
  kind : κ
  path : List PathStep := []
  deriving DecidableEq, Repr

/-- A value, or everything that is wrong with it. -/
inductive Checked (κ α : Type) where
  | ok (value : α)
  | rejected (defects : List (Defect κ))
  deriving DecidableEq, Repr

namespace Checked

variable {κ α β : Type}

/-- A single defect at this place. -/
def defect (kind : κ) : Checked κ α := .rejected [⟨kind, []⟩]

/-- The defects found. -/
def defects : Checked κ α → List (Defect κ)
  | .ok _ => []
  | .rejected ds => ds

/-- The value, if nothing is wrong with it. -/
def value? : Checked κ α → Option α
  | .ok a => some a
  | .rejected _ => none

/-- A checked value in another form. -/
def map (f : α → β) : Checked κ α → Checked κ β
  | .ok a => .ok (f a)
  | .rejected ds => .rejected ds

/-- Both parts are checked, whatever is wrong with the first. -/
def ap : Checked κ (α → β) → Checked κ α → Checked κ β
  | .ok f, .ok a => .ok (f a)
  | .ok _, .rejected ds => .rejected ds
  | .rejected ds, a => .rejected (ds ++ a.defects)

instance : Applicative (Checked κ) where
  pure := .ok
  map := map
  seq f a := ap f (a ())

/-- A further check, made only when nothing is wrong so far. -/
def andThen (c : Checked κ α) (f : α → Checked κ β) : Checked κ β :=
  match c with
  | .ok a => f a
  | .rejected ds => .rejected ds

/-- A check of a part, seen from the whole. -/
def under (step : PathStep) : Checked κ α → Checked κ α
  | .ok a => .ok a
  | .rejected ds => .rejected (ds.map fun d => { d with path := step :: d.path })

/-- All parts are checked, whatever is wrong with the others. -/
def all : List (Checked κ α) → Checked κ (List α)
  | [] => .ok []
  | c :: rest => (c.map List.cons).ap (all rest)

@[simp] theorem defects_map (f : α → β) (c : Checked κ α) : (c.map f).defects = c.defects := by
  cases c <;> rfl

/-- **Checking parts together finds the defects of each, in order.** -/
@[simp] theorem defects_ap (f : Checked κ (α → β)) (a : Checked κ α) :
    (f.ap a).defects = f.defects ++ a.defects := by
  cases f <;> cases a <;> simp [ap, defects]

/-- The defects of a list of parts are those of each part, in order. -/
theorem defects_all (cs : List (Checked κ α)) : (all cs).defects = cs.flatMap defects := by
  induction cs with
  | nil => rfl
  | cons c rest ih => simp [all, ih]

end Checked

/-- The number of defects of something, in words. -/
def defectCount (count : Nat) (subject : String) : String :=
  s!"{count} validation error" ++ (if count = 1 then "" else "s") ++ s!" for {subject}"

end CommandGrammar
