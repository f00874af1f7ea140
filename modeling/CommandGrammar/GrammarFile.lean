import CommandGrammar.Document.Load
import CommandGrammar.FilePath
import CommandGrammar.Text.Basic
import CommandGrammar.Yaml.Meaning

/-!
# Tables from files

A file holds a document in YAML, encoded in UTF-8. `load` reads the table that it describes, with any reader of
YAML. Most of what can go wrong is foreseen and reported with the path of the file. Bytes that encode no text,
and texts on which the reader fails instead of refusing them, are not: such a file is a failure of the program
(`LoadError.foreseen`).
-/

namespace CommandGrammar

/-- Why a file gives no table. -/
inductive LoadError where
  | unreadable (fault : FileFault)
  | undecodable
  | yaml (fault : Yaml.Fault)
  | notMapping
  | document (error : Document.DocumentError)
  deriving DecidableEq, Repr

namespace LoadError

/-- Whether an error is reported as one of the file. -/
def foreseen : LoadError → Bool
  | .undecodable => false
  | .yaml fault => fault == .malformed
  | _ => true

/-- The first line of the wording of an error at a path. -/
def message (path : FilePath) : LoadError → String
  | .unreadable fault => s!"cannot read grammar {path.text}: {fault.message path}"
  | .undecodable => "not encoded in UTF-8"
  | .yaml .malformed => s!"cannot read grammar {path.text}"
  | .yaml fault => fault.message
  | .notMapping => s!"grammar {path.text} must be a mapping"
  | .document error => error.message

end LoadError

namespace GrammarFile

/-- The value in a file with the given bytes. -/
def read (yaml : Yaml.Reader) (content : List UInt8) : Except LoadError Document.Value :=
  match Text.decodeUtf8? content with
  | none => .error .undecodable
  | some cs => (yaml (Text.unifyLineEnds cs)).mapError .yaml

/-- The table that a value describes, if it is a mapping at all. -/
def toTable (value : Document.Value) : Except LoadError Table :=
  match value with
  | .map _ => (Document.toTable value).mapError .document
  | _ => .error .notMapping

/-- The table in a file, from its bytes or the reason why there are none. -/
def load (yaml : Yaml.Reader) (content : Except FileFault (List UInt8)) : Except LoadError Table := do
  toTable (← read yaml (← content.mapError .unreadable))

end GrammarFile

end CommandGrammar
