import CommandGrammar.Text.Bytes
import CommandGrammar.Text.LetterCase
import CommandGrammar.Text.Numeral
import CommandGrammar.Yaml.Timestamp

/-!
# YAML scalars

What the text of a scalar stands for when its type is known: an integer or a floating-point number, possibly
of parts separated by colons, a truth value, a point in time, or bytes.
-/

namespace CommandGrammar.Yaml

open Document

/-! ## Numbers -/

/-- Parts of a number separated by colons, the last one worth one and each other sixty times the next. -/
def sexagesimal {α : Type} (add : α → α → α) (scale : α → Nat → α) (zero : α)
    (parts : List α) : α :=
  (parts.reverse.foldl (fun (sum, base) part => (add sum (scale part base), base * 60))
    (zero, 1)).1

/-- The parts of a text between colons. -/
def colonParts (cs : List Char) : List (List Char) := cs.splitOn ':'

/-- A sign, if one stands in front, and the rest; a number needs a character at least. -/
def signed (cs : List Char) : Except Fault (Bool × List Char) :=
  if cs.isEmpty then .error .emptyNumber else .ok (Text.splitSign cs)

/-- The integer that digits of a base spell. Of decimal digits there may not be too many. -/
def readInt (base : Nat) (cs : List Char) : Except Fault Int :=
  if base = 10 ∧ Text.maxDecimals < Text.decimalCount cs then .error (.integer base (String.ofList cs))
  else
    match Text.intOfChars? base cs with
    | some i => .ok i
    | none => .error (.integer base (String.ofList cs))

/-- The integer that a scalar spells. -/
def intOf (text : String) : Except Fault Int := do
  let (negative, cs) ← signed (text.toList.filter (· != '_'))
  let i ←
    match cs with
    | ['0'] => pure 0
    | '0' :: 'b' :: digits => readInt 2 digits
    | '0' :: 'x' :: digits => readInt 16 digits
    | '0' :: _ => readInt 8 cs
    | [] => throw .emptyNumber
    | cs =>
      if cs.contains ':' then do
        let parts ← (colonParts cs).mapM (readInt 10)
        pure (sexagesimal (· + ·) (· * ·) (0 : Int) parts)
      else readInt 10 cs
  return if negative then -i else i

/-- The floating-point number that a text spells. -/
def readFloat (cs : List Char) : Except Fault Decimal.Binary64 :=
  match Text.floatOfChars? cs with
  | some x => .ok x
  | none => .error (.float (String.ofList cs))

/-- How many parts a floating-point number may have: a further one would be scaled beyond all of them. -/
def maxFloatParts : Nat := 174

/-- A scalar without underscores, in small letters. -/
def floatChars (text : String) : List Char := Text.lower (text.toList.filter (· != '_'))

/-- Whether a scalar is the word for not-a-number. -/
def isNanWord (text : String) : Bool := (Text.splitSign (floatChars text)).2 == ['.', 'n', 'a', 'n']

/-- The floating-point number that a scalar spells. -/
def floatOf (text : String) : Except Fault Decimal.Binary64 := do
  let (negative, cs) ← signed (floatChars text)
  let x ←
    if cs = ['.', 'i', 'n', 'f'] then pure (.infinite false)
    else if cs = ['.', 'n', 'a', 'n'] then pure .nan
    else if cs.contains ':' then do
      let parts ← (colonParts cs).mapM readFloat
      if maxFloatParts < parts.length then throw (.float (String.ofList cs))
      pure (sexagesimal .add .scale (.finite false 0 Decimal.Binary64.minExponent) parts)
    else readFloat cs
  return if negative then x.neg else x

/-! ## Other types -/

/-- The truth value of a word in small letters. -/
def truthWords : List (String × Bool) :=
  [("yes", true), ("no", false), ("true", true), ("false", false), ("on", true), ("off", false)]

/-- The truth value that a scalar spells. -/
def boolOf (text : String) : Except Fault Bool :=
  let word := String.ofList (Text.lower text.toList)
  match truthWords.lookup word with
  | some b => .ok b
  | none => .error (.truthValue word)

/-- The point in time that a scalar spells; a line feed at the end does not count. -/
def timeOf (text : String) : Except Fault Scalar :=
  let cs := text.toList
  let cs := if cs.getLast? = some '\n' then cs.dropLast else cs
  match Timestamp.read? cs with
  | some t => t.settle.mapError .time
  | none => .error .noTime

/-- The bytes that a scalar spells. -/
def bytesOf (text : String) : Except Fault (List UInt8) :=
  if text.toList.all (·.toNat < 0x80) then
    match Text.Base64.decode? text.toList with
    | some bytes => .ok bytes
    | none => .error .malformed
  else .error .malformed

end CommandGrammar.Yaml
