/-!
# Characters and parts of texts

The character properties of this library are tables of ranges of code points. White space is the white space
of Unicode together with the four ASCII separators of files, groups, records and units.

Texts are cut at line ends, of which the three conventions are made one, at marks, and at a width.
-/

namespace CommandGrammar.Text

/-! ## Sets of characters -/

/-- Whether one of the ranges holds the code point. -/
def inRanges (ranges : List (Nat × Nat)) (code : Nat) : Bool :=
  ranges.any fun r => decide (r.1 ≤ code) && decide (code ≤ r.2)

/-! ## White space -/

/-- The ranges that hold white space. -/
def whiteSpaceRanges : List (Nat × Nat) := [
  (0x9, 0xD), (0x1C, 0x20), (0x85, 0x85), (0xA0, 0xA0), (0x1680, 0x1680), (0x2000, 0x200A),
  (0x2028, 0x2029), (0x202F, 0x202F), (0x205F, 0x205F), (0x3000, 0x3000)]

/-- Whether a character is white space. -/
def isWhiteSpace (c : Char) : Bool := inRanges whiteSpaceRanges c.toNat

/-- A text without the white space at its end. -/
def trimEnd (cs : List Char) : List Char := (cs.reverse.dropWhile isWhiteSpace).reverse

/-- A text without the white space at both ends. -/
def trim (cs : List Char) : List Char := trimEnd (cs.dropWhile isWhiteSpace)

/-! ## Line ends -/

/-- The text with each line ended by a line feed; a carriage return, alone or in front of one, becomes one. -/
def unifyLineEnds : List Char → List Char
  | [] => []
  | '\r' :: '\n' :: rest => '\n' :: unifyLineEnds rest
  | c :: rest => (if c = '\r' then '\n' else c) :: unifyLineEnds rest

/-! ## Text up to a mark -/

/--
The text in front of the first mark that does not directly follow a backslash; `before` is the character
in front of the given ones.
-/
def upToMark? (mark before : Char) : List Char → Option (List Char)
  | [] => none
  | c :: rest =>
    if c = mark ∧ before ≠ '\\' then some [] else (upToMark? mark c rest).map (c :: ·)

/-! ## Shortened texts -/

/--
A text of at most `width` characters as it is; else its beginning followed by the placeholder. Where
the placeholder leaves no room for a single character, it stands alone.
-/
def shorten (text : String) (width : Int) (placeholder : String) : String :=
  let room := width - placeholder.length
  if (text.length : Int) ≤ width then text
  else if room ≤ 0 then placeholder
  else String.ofList (text.toList.take room.toNat) ++ placeholder

/-- What stands for the part cut off, unless another placeholder is asked for. -/
def ellipsis : String := "..."

/-- The form in which values appear in log messages: thirty characters. -/
def brief (text : String) : String := shorten text 30 ellipsis

end CommandGrammar.Text
