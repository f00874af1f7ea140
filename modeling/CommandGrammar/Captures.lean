import CommandGrammar.OrderedMap
import CommandGrammar.Text.Quoted

/-!
# Captures

The captures of a command are texts held under identifiers, in the order in which they were put
in. There is room for a fixed number of them, and no identifier is held twice; a request for
either is an error and leaves the captures as they were.
-/

namespace CommandGrammar

/-- Why captures cannot be made or extended. -/
inductive CaptureError where
  | noRoom
  | overflow (identifier : String) (capacity : Nat)
  | duplicate (identifier : String)
  deriving DecidableEq, Repr

/-- The wording of a capture error. -/
def CaptureError.message : CaptureError → String
  | .noRoom => "capture stack capacity must be positive"
  | .overflow identifier capacity =>
    s!"capture stack full ({capacity} entries) while pushing '{identifier}'"
  | .duplicate identifier => s!"identifier '{identifier}' captured twice in one command"

/-- Texts held under identifiers, at most `capacity` of them. -/
structure Captures where
  capacity : Nat
  held : OrderedMap String String
  capacity_pos : 0 < capacity
  size_le : held.size ≤ capacity

namespace Captures

/-- The capacity where none is given. -/
def defaultCapacity : Nat := 10

@[ext] theorem ext {a b : Captures} (hc : a.capacity = b.capacity) (hh : a.held = b.held) :
    a = b := by
  cases a; cases b; simp_all

/-- No captures, with room for `capacity` of them, which must be positive. -/
def empty? (capacity : Int) : Except CaptureError Captures :=
  if h : 1 ≤ capacity then
    .ok ⟨capacity.toNat, .empty, by omega, by simp [OrderedMap.empty, OrderedMap.size]⟩
  else .error .noRoom

/-- Identifiers and texts, in the order in which they were put in. -/
def toList (c : Captures) : List (String × String) := c.held.entries

/-- The number of captures. -/
def size (c : Captures) : Nat := c.held.size

/-- The text held under an identifier. -/
def get? (c : Captures) (identifier : String) : Option String := c.held.get? identifier

/-- Whether an identifier is held. -/
def contains (c : Captures) (identifier : String) : Bool := c.held.contains identifier

/-- No captures, with the same room. -/
def clear (c : Captures) : Captures :=
  { c with held := .empty, size_le := by simp [OrderedMap.empty, OrderedMap.size] }

/-- The captures with one more behind them. -/
def push (c : Captures) (identifier value : String) : Except CaptureError Captures :=
  if hd : c.contains identifier = true then .error (.duplicate identifier)
  else if hs : c.capacity ≤ c.size then .error (.overflow identifier c.capacity)
  else .ok { c with
    held := c.held.insert identifier value
    size_le := by
      have hm : identifier ∉ c.held.keys := by
        simpa [contains, OrderedMap.contains] using hd
      have he := c.held.entries_insert_of_not_mem hm value
      simp only [size, OrderedMap.size] at hs ⊢
      rw [he, List.length_append]
      simp only [List.length_cons, List.length_nil]
      omega }

/-- The captures with their capacity on one line. -/
def display (c : Captures) : String :=
  s!"CaptureStack({Text.pairs c.toList}, capacity={c.capacity})"

@[simp] theorem toList_clear (c : Captures) : c.clear.toList = [] := rfl

/-- **A capture is put last.** -/
theorem toList_push {c c' : Captures} {identifier value : String}
    (h : c.push identifier value = .ok c') : c'.toList = c.toList ++ [(identifier, value)] := by
  unfold push at h
  split at h
  · simp at h
  · next hd =>
    split at h
    · simp at h
    · have hm : identifier ∉ c.held.keys := by simpa [contains, OrderedMap.contains] using hd
      obtain rfl := Except.ok.inj h
      exact OrderedMap.entries_insert_of_not_mem hm value

end Captures

end CommandGrammar
