/-!
# YAML tokens and tags

The tokens of a YAML text. Indentation has become explicit: block collections are opened and closed by
tokens of their own. In a token a tag is still split into its handle and the rest; `Tag.ofText` says
which type the whole of it names.
-/

namespace CommandGrammar.Yaml

/-! ## Tags -/

/-- The types that tags name, and tags that name none. -/
inductive Tag where
  | null
  | bool
  | int
  | float
  | str
  | binary
  | timestamp
  | seq
  | map
  | set
  | omap
  | pairs
  | merge
  | value
  | unknown (text : String)
  deriving DecidableEq, Repr

namespace Tag

/-- The short names of the types. -/
def names : List (String × Tag) :=
  [ ("null", .null), ("bool", .bool), ("int", .int), ("float", .float), ("str", .str),
    ("binary", .binary), ("timestamp", .timestamp), ("seq", .seq), ("map", .map), ("set", .set),
    ("omap", .omap), ("pairs", .pairs), ("merge", .merge), ("value", .value) ]

/-- What the short names stand behind. -/
def namespacePart : String := "tag:yaml.org,2002:"

/-- The tag with a full name. -/
def ofText (text : String) : Tag :=
  match names.find? fun n => namespacePart ++ n.1 == text with
  | some n => n.2
  | none => .unknown text

end Tag

/-- A tag as it is written: a handle that stands for some text, or none, and the rest. -/
structure WrittenTag where
  handle : Option String
  suffix : String
  deriving DecidableEq, Repr

/-! ## Texts of scalars -/

/--
What a scalar spells. Half of a surrogate pair is no character, but it may be written by its number; with such
halves among them only the numbers of the characters are known.
-/
inductive Spelled where
  | text (s : String)
  | broken (codes : List Nat)
  deriving DecidableEq, Repr

namespace Spelled

/-- What the characters with some numbers spell. -/
def ofCodes (codes : List Nat) : Spelled :=
  if codes.all fun code => code.isValidChar then .text (String.ofList (codes.map Char.ofNat)) else .broken codes

/-- The text, with the replacement character for each half, which stands in no number and in no point in time. -/
def shown : Spelled → String
  | .text s => s
  | .broken codes => String.ofList (codes.map fun code => if code.isValidChar then Char.ofNat code else '\uFFFD')

end Spelled

/-! ## Tokens -/

/-- A directive that matters: the version, by its major number, or a handle for tags. -/
inductive Directive where
  | version (major : Nat)
  | tag (handle : String) (replacement : String)
  | other
  deriving DecidableEq, Repr

/-- A token of a YAML text. -/
inductive Token where
  | directive (d : Directive)
  | documentStart
  | documentEnd
  | blockSequenceStart
  | blockMappingStart
  | blockEnd
  | flowSequenceStart
  | flowSequenceEnd
  | flowMappingStart
  | flowMappingEnd
  | blockEntry
  | flowEntry
  | key
  | value
  | alias (name : String)
  | anchor (name : String)
  | tag (t : WrittenTag)
  | scalar (text : Spelled) (plain : Bool)
  | streamEnd
  deriving DecidableEq, Repr

end CommandGrammar.Yaml
