import CommandGrammar.Yaml.Token

/-!
# Tags of plain scalars

A plain scalar without a tag is of the type that its spelling belongs to: a truth value, a number, a point
in time, nothing, or one of the two special keys. Any other spelling is a text. Each spelling is described
by a reader that consumes characters; a spelling belongs to a type if the reader consumes all of it.
-/

namespace CommandGrammar.Yaml

/-- The words for truth values. -/
def boolSpellings : List String :=
  ["yes", "Yes", "YES", "no", "No", "NO", "true", "True", "TRUE", "false", "False", "FALSE",
    "on", "On", "ON", "off", "Off", "OFF"]

/-- The words for nothing. -/
def nullSpellings : List String := ["~", "null", "Null", "NULL", ""]

/-- The rest behind an optional sign. -/
def dropSign : List Char → List Char
  | '-' :: rest => rest
  | '+' :: rest => rest
  | cs => cs

/-- A digit or an underscore. -/
def isDigitLike (c : Char) : Bool := c.isDigit || c == '_'

/-- At least one character, and all with a property. -/
def allOf (p : Char → Bool) (cs : List Char) : Bool := !cs.isEmpty && cs.all p

/--
Groups of one or two digits, each behind a colon, of which the first of two is at most five; at least one
group, and then the rest.
-/
def sexagesimalRest : List Char → Option (List Char)
  | ':' :: a :: b :: rest =>
    if a.isDigit ∧ b.isDigit then
      if a ≤ '5' then some ((sexagesimalRest rest).getD rest) else none
    else if a.isDigit then some ((sexagesimalRest (b :: rest)).getD (b :: rest)) else none
  | [':', a] => if a.isDigit then some [] else none
  | _ => none

/-- An exponent with a sign, or nothing. -/
def isExponentOrEmpty : List Char → Bool
  | [] => true
  | e :: sign :: digits =>
    (e == 'e' || e == 'E') && (sign == '+' || sign == '-') && allOf Char.isDigit digits
  | _ => false

/-- Whether a text without its sign spells an integer. -/
def isUnsignedInt (cs : List Char) : Bool :=
  match cs with
  | '0' :: 'b' :: digits => allOf (fun c => c == '0' || c == '1' || c == '_') digits
  | '0' :: 'x' :: digits =>
    allOf (fun c => isDigitLike c || ('a' ≤ c && c ≤ 'f') || ('A' ≤ c && c ≤ 'F')) digits
  | '0' :: digits => digits.all fun c => ('0' ≤ c && c ≤ '7') || c == '_'
  | c :: rest =>
    c.isDigit &&
      (match rest.dropWhile isDigitLike with
        | [] => true
        | groups => sexagesimalRest groups == some [])
  | [] => false

/-- Whether a text spells an integer. -/
def isInt (cs : List Char) : Bool := isUnsignedInt (dropSign cs)

/-- Whether a text without its sign, that starts with a digit, spells a number with a point. -/
def isPointNumber (cs : List Char) : Bool :=
  match cs.dropWhile isDigitLike with
  | '.' :: rest => isExponentOrEmpty (rest.dropWhile isDigitLike)
  | groups =>
    match sexagesimalRest groups with
    | some ('.' :: rest) => rest.all isDigitLike
    | _ => false

/-- Whether a text spells a number with a point. -/
def isFloat (cs : List Char) : Bool :=
  match dropSign cs with
  | '.' :: c :: rest =>
    if c.isDigit then cs.head? == some '.' && isExponentOrEmpty (rest.dropWhile isDigitLike)
    else
      let word := String.ofList (c :: rest)
      ["inf", "Inf", "INF"].contains word
        || (cs.head? == some '.' && ["nan", "NaN", "NAN"].contains word)
  | c :: rest => c.isDigit && isPointNumber (c :: rest)
  | [] => false

/-- The rest behind as many digits as `least` to `most`. -/
def dropDigits? (least most : Nat) (cs : List Char) : Option (List Char × List Char) :=
  let digits := (cs.take most).takeWhile Char.isDigit
  if least ≤ digits.length then some (digits, cs.drop digits.length) else none

/-- The rest behind a character. -/
def expect? (c : Char) : List Char → Option (List Char)
  | d :: rest => if d = c then some rest else none
  | [] => none

/-- A blank of a line. -/
def isLineBlank (c : Char) : Bool := c == ' ' || c == '\t'

/-- The text without a line feed at its end, unless it is nothing else. -/
def dropFinalFeed (cs : List Char) : List Char :=
  if cs.getLast? = some '\n' ∧ 1 < cs.length then cs.dropLast else cs

/-- The type that the spelling of a plain scalar belongs to; `isTime` says whether it is a point in time. -/
def implicitTag (isTime : List Char → Bool) (text : String) : Tag :=
  let cs := dropFinalFeed text.toList
  let word := String.ofList cs
  if nullSpellings.contains word then .null
  else if boolSpellings.contains word then .bool
  else if isInt cs then .int
  else if isFloat cs then .float
  else if isTime cs then .timestamp
  else if word = "<<" then .merge
  else if word = "=" then .value
  else .str

end CommandGrammar.Yaml
