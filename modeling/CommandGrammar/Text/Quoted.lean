import CommandGrammar.Text.Printable

/-!
# Quoted texts

A text is shown between single quotes, or between double quotes when it holds a single quote and
no double one. The quote in use and the backslash are escaped, line feed, carriage return and tab
have short escapes, and every other character that is not printable is written by its number, in
the shortest of the three widths two, four and eight. `listed` and `pairs` show collections of
quoted texts. JSON has a spelling of its own.
-/

namespace CommandGrammar.Text

/-! ## Numbers in a fixed width -/

/-- The hexadecimal digit with this value. -/
def hexDigit (value : Nat) : Char :=
  if value < 10 then Char.ofNat (0x30 + value) else Char.ofNat (0x57 + value)

/-- The last `width` hexadecimal digits of a number. -/
def hexDigits : (width : Nat) → Nat → List Char
  | 0, _ => []
  | width + 1, value => hexDigits width (value / 16) ++ [hexDigit (value % 16)]

@[simp] theorem length_hexDigits (width value : Nat) : (hexDigits width value).length = width := by
  induction width generalizing value with
  | zero => rfl
  | succ n ih => simp [hexDigits, ih]

/-- The escape of a character by its number. -/
def numberEscape (c : Char) : List Char :=
  if c.toNat < 0x100 then '\\' :: 'x' :: hexDigits 2 c.toNat
  else if c.toNat < 0x10000 then '\\' :: 'u' :: hexDigits 4 c.toNat
  else '\\' :: 'U' :: hexDigits 8 c.toNat

/-! ## Quoting -/

/-- The quote that encloses a text. -/
def quoteMark (cs : List Char) : Char :=
  if cs.contains '\x27' && !cs.contains '"' then '"' else '\x27'

/-- One character between quotes of the given kind. -/
def quotedChar (mark c : Char) : List Char :=
  if c = mark ∨ c = '\\' then ['\\', c]
  else if c = '\n' then ['\\', 'n']
  else if c = '\r' then ['\\', 'r']
  else if c = '\t' then ['\\', 't']
  else if isPrintable c then [c]
  else numberEscape c

/-- The characters of a quoted text. -/
def quotedChars (cs : List Char) : List Char :=
  quoteMark cs :: cs.flatMap (quotedChar (quoteMark cs)) ++ [quoteMark cs]

/-- A text between quotes. -/
def quoted (text : String) : String := String.ofList (quotedChars text.toList)

/-- A text between quotes, or the word for an absent one. -/
def quoted? : Option String → String
  | some text => quoted text
  | none => "None"

/-! ## Collections -/

/-- A list of quoted texts. -/
def listed (texts : List String) : String :=
  "[" ++ ", ".intercalate (texts.map quoted) ++ "]"

/-- A mapping between quoted texts. -/
def pairs (entries : List (String × String)) : String :=
  "\x7b" ++ ", ".intercalate (entries.map fun e => quoted e.1 ++ ": " ++ quoted e.2) ++ "\x7d"

/-! ## JSON

Texts and objects as JSON spells them, on one line and with a blank behind each comma and colon. Only what JSON
does not allow in a text is escaped.
-/

namespace Json

/-- One character of a text. -/
def escaped (c : Char) : List Char :=
  if c = '"' ∨ c = '\\' then ['\\', c]
  else if c = '\n' then ['\\', 'n']
  else if c = '\r' then ['\\', 'r']
  else if c = '\t' then ['\\', 't']
  else if c = '\x08' then ['\\', 'b']
  else if c = '\x0c' then ['\\', 'f']
  else if c.toNat < 0x20 then '\\' :: 'u' :: hexDigits 4 c.toNat
  else [c]

/-- A text. -/
def string (text : String) : String :=
  String.ofList ('"' :: text.toList.flatMap escaped ++ ['"'])

/-- A list of values. -/
def array (values : List String) : String := "[" ++ ", ".intercalate values ++ "]"

/-- An object with named values. -/
def object (fields : List (String × String)) : String :=
  "\x7b" ++ ", ".intercalate (fields.map fun f => string f.1 ++ ": " ++ f.2) ++ "\x7d"

end Json

end CommandGrammar.Text
