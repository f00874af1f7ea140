import CommandGrammar.Document.Value
import CommandGrammar.Settings.Defect
import CommandGrammar.Text.Basic

/-!
# Integers in settings

A setting that is an integer may be given as a number without a fraction, as a truth value, or as a text.
A text may have white space around it, a sign, zeros in front, single underscores between its digits, and a
fraction made of zeros only. Only the ten ASCII digits count.
-/

namespace CommandGrammar.Settings

open Document

/-! ## Texts -/

/-- White space that may stand around an integer. The ASCII separators of files do not count. -/
def isMargin (c : Char) : Bool := Text.isWhiteSpace c && !(0x1C ≤ c.toNat && c.toNat ≤ 0x1F)

/-- A text without its margins. -/
def dropMargins (cs : List Char) : List Char :=
  ((cs.dropWhile isMargin).reverse.dropWhile isMargin).reverse

/-- A text without the plus sign in front, behind which no minus sign may stand. -/
def dropPlus? : List Char → Option (List Char)
  | '+' :: '-' :: _ => none
  | '+' :: rest => some rest
  | cs => some cs

/--
A text without the zeros in front, and the underscores among them. One zero is kept where no other digit
follows. A text with a minus sign is left as it is.
-/
def dropZeros? (cs : List Char) : Option (List Char) :=
  match cs with
  | '0' :: rest =>
    let isFiller (c : Char) : Bool := c == '0' || c == '_'
    match rest.dropWhile isFiller with
    | [] => some (cs.drop rest.length)
    | '.' :: fraction => some (((cs.takeWhile isFiller).getLast?.getD '0') :: '.' :: fraction)
    | c :: digits => if c.isDigit then some (c :: digits) else none
  | c :: _ => if c.isDigit ∨ c = '-' then some cs else none
  | [] => none

/-- A text without a fraction made of at least one zero and nothing else. -/
def dropFraction (cs : List Char) : List Char :=
  match cs.dropWhile (· != '.') with
  | '.' :: c :: zeros => if (c :: zeros).all (· == '0') then cs.takeWhile (· != '.') else cs
  | _ => cs

/-- A text without underscores, if each stands alone and between other characters. -/
def dropUnderscores (cs : List Char) : List Char :=
  if (cs.splitOn '_').all (!·.isEmpty) then cs.filter (· != '_') else cs

/-- The number of characters from which on an integer is not even read. -/
def maxDigits : Nat := 4300

/-- The number that digits spell, without zeros in front. -/
def natOfDigits? (cs : List Char) : Option Nat :=
  if cs.all Char.isDigit ∧ cs ≠ [] ∧ (cs.head? ≠ some '0' ∨ cs.length = 1) then
    some (cs.foldl (fun n c => n * 10 + (c.toNat - 0x30)) 0)
  else none

/-- The integer that a plain text spells. -/
def intOfPlain? : List Char → Option Int
  | '-' :: digits => (natOfDigits? digits).map fun n => -n
  | digits => (natOfDigits? digits).map fun n => n

/-- The integer that a text spells. -/
def integerOfText (text : String) : Checked Int :=
  match dropPlus? (dropMargins text.toList) >>= dropZeros? with
  | none => .defect .unreadableInteger
  | some cs =>
    let plain := dropUnderscores (dropFraction cs)
    if maxDigits < plain.length then .defect .oversizedInteger
    else match intOfPlain? plain with
      | some i => .ok i
      | none => .defect .unreadableInteger

/-! ## Values -/

/-- An integer. A floating-point number must lie within 64 bits. -/
def checkInteger : Value → Checked Int
  | .scalar (.int i) => .ok i
  | .scalar (.bool b) => .ok (if b then 1 else 0)
  | .scalar (.text s) => integerOfText s
  | .scalar (.float (.finite negative digits exponent)) =>
    match (Decimal.Binary64.finite negative digits exponent).toInt? with
    | none => .defect .fractional
    | some i => if i.natAbs < wordLimit then .ok i else .defect .oversizedInteger
  | .scalar (.float _) => .defect .notFinite
  | _ => .defect .notInteger

/-- An integer of at least some size. -/
def checkAtLeast (least : Int) (v : Value) : Checked { i : Int // least ≤ i } :=
  (checkInteger v).andThen fun i =>
    if h : least ≤ i then .ok ⟨i, h⟩ else .defect (.below least)

/-- An integer above a bound. -/
def checkAbove (bound : Int) (v : Value) : Checked { i : Int // bound < i } :=
  (checkInteger v).andThen fun i =>
    if h : bound < i then .ok ⟨i, h⟩ else .defect (.notAbove bound)

end CommandGrammar.Settings
