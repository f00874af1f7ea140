import CommandGrammar.Checked

/-!
# Defects of documents

The kinds of defects that the check of a document finds, each with a code and a wording.
-/

namespace CommandGrammar.Document

/-- What is wrong with a token entry whose fields are all well-formed. -/
inductive ShapeError where
  | notOneKind
  | gotoAndCall
  | nextWithoutCall
  | endWithCapture
  deriving DecidableEq, Repr

/-- The wording of a shape error. -/
def ShapeError.message : ShapeError → String
  | .notOneKind => "token must be exactly one of literal, word, string or end"
  | .gotoAndCall => "token cannot have both goto and call"
  | .nextWithoutCall => "'then' is only valid together with 'call'"
  | .endWithCapture => "end token cannot capture"

/-- The two kinds of objects that a document is made of. -/
inductive ObjectKind where
  | grammar
  | token
  deriving DecidableEq, Repr

/-- The name of a kind of object. -/
def ObjectKind.name : ObjectKind → String
  | .grammar => "GrammarDocument"
  | .token => "TokenDocument"

/-- What is wrong in one place of a document. -/
inductive DefectKind where
  | notObject (kind : ObjectKind)
  | missing
  | notMapping
  | notList
  | notText
  | undecodable
  | notBool
  | unreadableBool
  | unknownField
  | keyNotText
  | shape (error : ShapeError)
  deriving DecidableEq, Repr

namespace DefectKind

/-- The code of a kind. -/
def code : DefectKind → String
  | .notObject _ => "model_type"
  | .missing => "missing"
  | .notMapping => "dict_type"
  | .notList => "list_type"
  | .notText => "string_type"
  | .undecodable => "string_unicode"
  | .notBool => "bool_type"
  | .unreadableBool => "bool_parsing"
  | .unknownField => "extra_forbidden"
  | .keyNotText => "invalid_key"
  | .shape _ => "value_error"

/-- The wording of a kind. -/
def message : DefectKind → String
  | .notObject kind => s!"Input should be a valid dictionary or instance of {kind.name}"
  | .missing => "Field required"
  | .notMapping => "Input should be a valid dictionary"
  | .notList => "Input should be a valid list"
  | .notText => "Input should be a valid string"
  | .undecodable => "Input should be a valid string, unable to parse raw data as a unicode string"
  | .notBool => "Input should be a valid boolean"
  | .unreadableBool => "Input should be a valid boolean, unable to interpret input"
  | .unknownField => "Extra inputs are not permitted"
  | .keyNotText => "Keys should be strings"
  | .shape error => "Value error, " ++ error.message

end DefectKind

/-- A part of a document, or everything that is wrong with it. -/
abbrev Checked := CommandGrammar.Checked DefectKind

end CommandGrammar.Document
