import CommandGrammar.Document.Defect
import CommandGrammar.Document.Value
import CommandGrammar.OrderedMap
import CommandGrammar.Table
import CommandGrammar.Text.Bytes

/-!
# Checked documents

A document of a table has an initial state and, for each state, a list of token entries. An entry is
an object with up to eight fields. `Outline.check` turns a value into such a document or lists all its
defects, in the order in which they stand: of an object first the defects of its fields, in the order
of the fields, then the keys that are no fields, and last, when nothing else is wrong with an entry,
its shape.

Texts may also be given as bytes that encode them. Truth values may be given as numbers equal to zero
or one, and as one of a few words.
-/

namespace CommandGrammar.Document

/-! ## Fields -/

/-- A text. -/
def checkText : Value → Checked String
  | .scalar (.text s) => .ok s
  | .scalar (.bytes content) =>
    match Text.ofUtf8? content with
    | some s => .ok s
    | none => .defect .undecodable
  | _ => .defect .notText

/-- A text, or nothing. -/
def checkText? : Value → Checked (Option String)
  | .scalar .null => .ok none
  | v => (checkText v).map some

/-- The words for the two truth values, in small letters. -/
def boolWords : List (String × Bool) :=
  [ ("0", false), ("off", false), ("f", false), ("false", false), ("n", false), ("no", false),
    ("1", true), ("on", true), ("t", true), ("true", true), ("y", true), ("yes", true) ]

/-- The truth value that a word stands for, in any ASCII case. -/
def boolOfWord? (s : String) : Option Bool :=
  boolWords.lookup (String.ofList (s.toList.map Char.toLower))

/-- The truth value that an integer stands for. -/
def boolOfInt? (i : Int) : Option Bool :=
  if i = 0 then some false else if i = 1 then some true else none

/-- A truth value. Integers that need more than 64 bits are not even looked at. -/
def checkBool : Value → Checked Bool
  | .scalar (.bool b) => .ok b
  | .scalar (.int i) =>
    if -(wordLimit : Int) ≤ i ∧ i < wordLimit then ofOption (boolOfInt? i) else .defect .notBool
  | .scalar (.float x) =>
    match x.toInt? with
    | some i => if i.natAbs < wordLimit then ofOption (boolOfInt? i) else .defect .notBool
    | none => .defect .notBool
  | .scalar (.text s) => ofOption (boolOfWord? s)
  | .scalar (.bytes content) => ofOption ((Text.ofUtf8? content).bind boolOfWord?)
  | _ => .defect .notBool
where
  /-- The truth value, or that it cannot be read. -/
  ofOption : Option Bool → Checked Bool
    | some b => .ok b
    | none => .defect .unreadableBool

/-- The items of a list; a set will do as well. -/
def checkItems : Value → Checked (List Value)
  | .seq items => .ok items
  | .set members => .ok (members.map .scalar)
  | _ => .defect .notList

/-- Each item of a list is checked by itself. -/
def checkEach {α : Type} (check : Value → Checked α) (items : List Value) : Checked (List α) :=
  .all (items.zipIdx.map fun (v, i) => (check v).under (.index i))

/--
The keywords of a literal: one text, a list of texts, or nothing. A value that is neither has the
defects of both readings.
-/
def checkKeywords (v : Value) : Checked (Option (List String)) :=
  match v with
  | .scalar .null => .ok none
  | v =>
    match checkText v, (checkItems v).andThen (checkEach checkText) with
    | .ok s, _ => .ok (some [s])
    | .rejected _, .ok texts => .ok (some texts)
    | asText, asList =>
      .rejected ((asText.under (.name "str")).defects ++ (asList.under (.name "list[str]")).defects)

/-! ## Objects -/

/-- A field of an object: the check of its value, or what it is when absent. -/
def checkField {α : Type} (entries : List (Scalar × Value)) (name : String)
    (absent : Checked α) (check : Value → Checked α) : Checked α :=
  ((Value.field? entries name).elim absent check).under (.name name)

/-- The place of a key in a path: integers of up to 64 bits stand for themselves. -/
def pathStep (key : Scalar) : PathStep :=
  match key with
  | .int i => if -(wordLimit : Int) ≤ i ∧ i < wordLimit then .index i else .name key.spelling
  | .bool b => .index (if b then 1 else 0)
  | key => .name key.spelling

/-- Keys that are no texts, and texts that name no field. -/
def checkKeys (entries : List (Scalar × Value)) (fields : List String) : Checked Unit :=
  (Checked.all (entries.map fun e =>
    (match e.1 with
      | .text name => if fields.contains name then .ok () else .defect .unknownField
      | _ => .defect .keyNotText : Checked Unit).under (pathStep e.1))).map fun _ => ()

/-- A token entry. -/
structure Entry where
  literal : Option (List String) := none
  word : Bool := false
  string : Bool := false
  commandEnd : Bool := false
  capture : Option String := none
  goto : Option String := none
  call : Option String := none
  next : Option String := none
  deriving DecidableEq, Repr

namespace Entry

/-- The fields of an entry, in the order in which they are checked. -/
def fieldNames : List String :=
  ["literal", "word", "string", "end", "capture", "goto", "call", "then"]

/-- How many of the four kinds an entry claims to be. -/
def kindCount (e : Entry) : Nat :=
  e.literal.isSome.toNat + e.word.toNat + e.string.toNat + e.commandEnd.toNat

/-- The first fault in the shape of an entry. -/
def shapeError? (e : Entry) : Option ShapeError :=
  if e.kindCount ≠ 1 then some .notOneKind
  else if e.goto.isSome ∧ e.call.isSome then some .gotoAndCall
  else if e.next.isSome ∧ e.call.isNone then some .nextWithoutCall
  else if e.commandEnd ∧ e.capture.isSome then some .endWithCapture
  else none

/-- An entry whose shape is in order. -/
def checkShape (e : Entry) : Checked Entry :=
  match e.shapeError? with
  | some error => .defect (.shape error)
  | none => .ok e

/-- The fields of an entry. -/
def checkFields (entries : List (Scalar × Value)) : Checked Entry :=
  Entry.mk
    <$> checkField entries "literal" (.ok none) checkKeywords
    <*> checkField entries "word" (.ok false) checkBool
    <*> checkField entries "string" (.ok false) checkBool
    <*> checkField entries "end" (.ok false) checkBool
    <*> checkField entries "capture" (.ok none) checkText?
    <*> checkField entries "goto" (.ok none) checkText?
    <*> checkField entries "call" (.ok none) checkText?
    <*> checkField entries "then" (.ok none) checkText?
    <* checkKeys entries fieldNames

/-- A token entry from a value. -/
def check : Value → Checked Entry
  | .map entries => (checkFields entries).andThen checkShape
  | _ => .defect (.notObject .token)

end Entry

/-- A whole document: the initial state and the states with their token entries. -/
structure Outline where
  initial : StateName := defaultInitial
  states : OrderedMap StateName (List Entry)

namespace Outline

/-- The fields of a document, in the order in which they are checked. -/
def fieldNames : List String := ["initial", "states"]

/-- The token entries of a state. -/
def checkTokens (v : Value) : Checked (List Entry) :=
  (checkItems v).andThen (checkEach Entry.check)

/-- One state: its name and its token entries. -/
def checkState (e : Scalar × Value) : Checked (StateName × List Entry) :=
  (Prod.mk <$> (checkText (.scalar e.1)).under (.name "[key]") <*> checkTokens e.2).under
    (pathStep e.1)

/-- The states. A name given twice, once as bytes, keeps its first place and its last tokens. -/
def checkStates : Value → Checked (OrderedMap StateName (List Entry))
  | .map entries => (Checked.all (entries.map checkState)).map .ofList
  | _ => .defect .notMapping

/-- A document from a value. -/
def check : Value → Checked Outline
  | .map entries =>
    Outline.mk
      <$> checkField entries "initial" (.ok defaultInitial) checkText
      <*> checkField entries "states" (.defect .missing) checkStates
      <* checkKeys entries fieldNames
  | _ => .defect (.notObject .grammar)

end Outline

/--
How deep the check of a document looks: at the document, its states, the tokens of a state, the fields of a
token, its keywords, and at a keyword.
-/
def levels : Nat := 6

end CommandGrammar.Document
