import CommandGrammar.Decimal.Binary64
import CommandGrammar.Text.Basic

/-!
# Numbers in texts

Integers in a base and decimal numbers, each with an optional sign. White space around a number does not
count. The decimal digits of every script are taken for what they are worth.
-/

namespace CommandGrammar.Text

open Decimal

/-- The characters that stand for zero; the other nine digits of a script follow its zero. -/
def zeroDigits : List Nat := [
  0x30, 0x660, 0x6F0, 0x7C0, 0x966, 0x9E6, 0xA66, 0xAE6, 0xB66, 0xBE6, 0xC66, 0xCE6, 0xD66,
  0xDE6, 0xE50, 0xED0, 0xF20, 0x1040, 0x1090, 0x17E0, 0x1810, 0x1946, 0x19D0, 0x1A80, 0x1A90,
  0x1B50, 0x1BB0, 0x1C40, 0x1C50, 0xA620, 0xA8D0, 0xA900, 0xA9D0, 0xA9F0, 0xAA50, 0xABF0, 0xFF10,
  0x104A0, 0x10D30, 0x11066, 0x110F0, 0x11136, 0x111D0, 0x112F0, 0x11450, 0x114D0, 0x11650,
  0x116C0, 0x11730, 0x118E0, 0x11950, 0x11C50, 0x11D50, 0x11DA0, 0x16A60, 0x16AC0, 0x16B50,
  0x1D7CE, 0x1D7D8, 0x1D7E2, 0x1D7EC, 0x1D7F6, 0x1E140, 0x1E2F0, 0x1E950, 0x1FBF0]

/-- The value of a decimal digit, or of a letter that stands for a digit beyond nine. -/
def digitValue? (c : Char) : Option Nat :=
  let code := c.toNat
  if code < 0x80 then
    if c.isDigit then some (code - 0x30)
    else if c.isAlpha then some (c.toLower.toNat - 0x61 + 10)
    else none
  else (zeroDigits.find? fun least => least ≤ code ∧ code < least + 10).map (code - ·)

/-- The number that at least one digit of a base, and nothing else, spells. -/
def natOfDigits? (base : Nat) (cs : List Char) : Option Nat :=
  if cs.isEmpty then none
  else cs.foldlM (fun n c => (digitValue? c).bind fun d =>
    if d < base then some (n * base + d) else none) 0

/-- A sign in front of a text, and the rest of the text. -/
def splitSign : List Char → Bool × List Char
  | '-' :: rest => (true, rest)
  | '+' :: rest => (false, rest)
  | cs => (false, cs)

/-- The letter by which digits of a base may be introduced, after a zero. -/
def baseMark? : Nat → Option Char
  | 2 => some 'b'
  | 8 => some 'o'
  | 16 => some 'x'
  | _ => none

/-- The digits behind the mark of a base, if it stands there. -/
def dropBaseMark (base : Nat) (cs : List Char) : List Char :=
  match cs with
  | '0' :: c :: rest => if baseMark? base = some c.toLower then rest else cs
  | cs => cs

/-- How many decimal digits an integer may have to be read at all. -/
def maxDecimals : Nat := 4300

/-- The number of decimal digits in front, behind white space and a sign. -/
def decimalCount (cs : List Char) : Nat :=
  ((splitSign (trim cs)).2.takeWhile fun c => (digitValue? c).any (· < 10)).length

/-- The integer that a text spells in a base. -/
def intOfChars? (base : Nat) (cs : List Char) : Option Int :=
  let (negative, digits) := splitSign (trim cs)
  (natOfDigits? base (dropBaseMark base digits)).map fun n => if negative then -n else n

/-- The words for infinity. -/
def infinityWords : List String := ["inf", "infinity"]

/-- Digits with an optional point among them, as a number and the power of ten to apply. -/
def mantissa? (cs : List Char) : Option (Nat × Int) :=
  let isDigit (c : Char) : Bool := c.isDigit || (0x80 ≤ c.toNat && (digitValue? c).isSome)
  let whole := cs.takeWhile isDigit
  match cs.dropWhile isDigit with
  | [] => (natOfDigits? 10 whole).map (·, 0)
  | '.' :: fraction =>
    (natOfDigits? 10 (whole ++ fraction)).map (·, -(fraction.length : Int))
  | _ => none

/-- The decimal number that a text spells, rounded to double precision. -/
def floatOfChars? (cs : List Char) : Option Binary64 :=
  let (negative, body) := splitSign (trim cs)
  let word := String.ofList (body.map Char.toLower)
  if infinityWords.contains word then some (.infinite negative)
  else if word = "nan" then some .nan
  else
    let isMark (c : Char) : Bool := c == 'e' || c == 'E'
    let (m, e) := (body.takeWhile (!isMark ·), body.dropWhile (!isMark ·))
    let power? : Option Int :=
      match e with
      | [] => some 0
      | _ :: digits =>
        let (down, digits) := splitSign digits
        (natOfDigits? 10 digits).map fun n => if down then -n else n
    match mantissa? m, power? with
    | some (digits, places), some power => some (.ofDecimal negative digits (power + places))
    | _, _ => none

end CommandGrammar.Text
