import CommandGrammar.Checked

/-!
# Defects of settings

The kinds of defects that the check of settings finds, each with a code and a wording.
-/

namespace CommandGrammar.Settings

/-- What is wrong with a setting. -/
inductive DefectKind where
  | notInteger
  | unreadableInteger
  | oversizedInteger
  | fractional
  | notFinite
  | below (least : Int)
  | notAbove (bound : Int)
  | notPath
  | notText
  deriving DecidableEq, Repr

namespace DefectKind

/-- The code of a kind. -/
def code : DefectKind → String
  | .notInteger => "int_type"
  | .unreadableInteger => "int_parsing"
  | .oversizedInteger => "int_parsing_size"
  | .fractional => "int_from_float"
  | .notFinite => "finite_number"
  | .below _ => "greater_than_equal"
  | .notAbove _ => "greater_than"
  | .notPath => "path_type"
  | .notText => "string_type"

/-- The wording of a kind. -/
def message : DefectKind → String
  | .notInteger => "Input should be a valid integer"
  | .unreadableInteger => "Input should be a valid integer, unable to parse string as an integer"
  | .oversizedInteger => "Unable to parse input string as an integer, exceeded maximum size"
  | .fractional => "Input should be a valid integer, got a number with a fractional part"
  | .notFinite => "Input should be a finite number"
  | .below least => s!"Input should be greater than or equal to {least}"
  | .notAbove bound => s!"Input should be greater than {bound}"
  | .notPath => "Input is not a valid path for <class 'pathlib.Path'>"
  | .notText => "Input should be a valid string"

end DefectKind

/-- A setting, or everything that is wrong with it. -/
abbrev Checked := CommandGrammar.Checked DefectKind

end CommandGrammar.Settings
