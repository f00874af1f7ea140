import CommandGrammar.Decimal.Shortest
import CommandGrammar.Text.Quoted

/-!
# Values of documents

A document is a value made of scalars, sequences, mappings and sets. The keys of mappings and the
members of sets are scalars. Mappings keep the order of their entries. As keys, numbers are compared by
what they are worth: `1`, `1.0` and `true` are one and the same.
-/

namespace CommandGrammar.Document

open Decimal

/-- A day, or a time of day on one: local, or with an offset from universal time in minutes. -/
inductive Moment where
  /-- A day of the calendar, by its number. -/
  | day (number : Int)
  /-- Microseconds since the calendar began, as shown on a local clock. -/
  | localTime (clock : Int)
  /-- Microseconds since the calendar began, in universal time. -/
  | universalTime (clock : Int)
  deriving DecidableEq, Repr

/-- The least positive number that needs more than the 64 bits of a signed word. -/
def wordLimit : Nat := 0x8000000000000000

/-- A value without parts. A point in time also keeps its spelling. -/
inductive Scalar where
  | null
  | bool (b : Bool)
  | int (i : Int)
  | float (x : Binary64)
  | text (s : String)
  | bytes (content : List UInt8)
  | time (moment : Moment) (spelling : String)
  deriving DecidableEq, Repr

namespace Scalar

/-- The scalar by which keys are compared. -/
def keyForm : Scalar → Scalar
  | .bool b => .int (if b then 1 else 0)
  | .float x =>
    match x.toInt? with
    | some i => .int i
    | none => .float x
  | .time moment _ => .time moment ""
  | s => s

/-- Whether two scalars are equal, as keys are compared. Not-a-number is not even equal to itself. -/
def sameKey (a b : Scalar) : Bool :=
  a.keyForm == b.keyForm && a.keyForm != .float .nan

/-- One byte between quotes of the given kind. -/
def quotedByte (mark : Char) (b : UInt8) : List Char :=
  let c := Char.ofNat b.toNat
  if c = mark ∨ c = '\\' then ['\\', c]
  else if c = '\n' then ['\\', 'n']
  else if c = '\r' then ['\\', 'r']
  else if c = '\t' then ['\\', 't']
  else if 0x20 ≤ b.toNat ∧ b.toNat < 0x7F then [c]
  else '\\' :: 'x' :: Text.hexDigits 2 b.toNat

/-- Bytes between quotes. -/
def quotedBytes (content : List UInt8) : String :=
  let mark := Text.quoteMark (content.map fun b => Char.ofNat b.toNat)
  "b" ++ String.ofList (mark :: content.flatMap (quotedByte mark) ++ [mark])

/-- The spelling of a scalar where it names a place in a document: that of the runtime, for all but texts. -/
def spelling : Scalar → String
  | .null => "None"
  | .bool b => if b then "True" else "False"
  | .int i => toString i
  | .float x => x.spelling
  | .text s => s
  | .bytes content => quotedBytes content
  | .time _ spelling => spelling

end Scalar

/-- A document or a part of one. -/
inductive Value where
  | scalar (s : Scalar)
  | seq (items : List Value)
  | map (entries : List (Scalar × Value))
  | set (members : List Scalar)
  deriving Inhabited

namespace Value

/-- A text. -/
def text (s : String) : Value := .scalar (.text s)

/-- A truth value. -/
def bool (b : Bool) : Value := .scalar (.bool b)

/-- The absent value. -/
def null : Value := .scalar .null

/-- The value of a text key in the entries of a mapping. -/
def field? (entries : List (Scalar × Value)) (name : String) : Option Value :=
  entries.lookup (.text name)

end Value

end CommandGrammar.Document
