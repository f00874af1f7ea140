import CommandGrammar.Yaml.Token.Block
import CommandGrammar.Yaml.Token.Plain
import CommandGrammar.Yaml.Token.Property
import CommandGrammar.Yaml.Token.Quoted

/-!
# The tokens of a YAML text

Most tokens are recognised by their first character. Two things are not seen where they begin. A simple
key is noticed at the colon behind it, so the place of every token that could start one is remembered,
and the tokens for the key are put in there. The end of a block collection is noticed at the first token
with less indentation.

A simple key has to end on its line and within 1024 characters. Where a block mapping needs a key, a
token that could be one must turn out to be one.
-/

namespace CommandGrammar.Yaml

/-- A token that may turn out to start a simple key. -/
structure KeyCandidate where
  level : Nat
  place : Nat
  required : Bool
  start : Position

/-- What is known of a text up to a position. The tokens found stand in reverse order. -/
structure Scan where
  position : Position
  found : List Token := []
  count : Nat := 0
  level : Nat := 0
  indent : Int := -1
  outer : List Int := []
  keyAllowed : Bool := true
  candidates : List KeyCandidate := []
  finished : Bool := false

namespace Scan

/-- The scan with one more token. -/
def emit (s : Scan) (t : Token) : Scan := { s with found := t :: s.found, count := s.count + 1 }

/-- The scan with a token put in at an earlier place. -/
def emitAt (s : Scan) (place : Nat) (t : Token) : Scan :=
  let behind := s.count - place
  { s with
    found := s.found.take behind ++ t :: s.found.drop behind
    count := s.count + 1 }

/-- The scan at another position. -/
def moveTo (s : Scan) (p : Position) : Scan := { s with position := p }

/-- The scan one character further on, with a token for that character. -/
def single (s : Scan) (t : Token) : Scan := (s.moveTo s.position.next).emit t

/-! ## Indentation -/

/-- Whether the scan is outside all brackets. -/
def inBlock (s : Scan) : Bool := s.level == 0

/-- Closes the block collections that are indented deeper than a column. -/
def unwindTo (column : Int) : (fuel : Nat) → Scan → Scan
  | 0, s => s
  | fuel + 1, s =>
    if s.inBlock && column < s.indent then
      unwindTo column fuel
        ({ s with indent := s.outer.headD (-1), outer := s.outer.tail }.emit .blockEnd)
    else s

/-- Closes the block collections that are indented deeper than a column. -/
def unwind (s : Scan) (column : Int) : Scan := unwindTo column (s.outer.length + 1) s

/-- Starts a block collection at a column if it is deeper than the one around it. -/
def deepen (s : Scan) (column : Nat) (place : Nat) (t : Token) : Scan :=
  if s.indent < column then
    { s with indent := column, outer := s.indent :: s.outer }.emitAt place t
  else s

/-! ## Simple keys -/

/-- A candidate that had to become a key and did not makes the text malformed. -/
def dropCandidates (s : Scan) (dropped : KeyCandidate → Bool) : Except Fault Scan :=
  if s.candidates.any fun k => dropped k && k.required then .error .malformed
  else .ok { s with candidates := s.candidates.filter fun k => !dropped k }

/-- No token so far can become a simple key of the current level. -/
def noCandidate (s : Scan) : Except Fault Scan := s.dropCandidates (·.level == s.level)

/-- Tokens on earlier lines, or too far away, can no longer become simple keys. -/
def dropStale (s : Scan) : Except Fault Scan :=
  s.dropCandidates fun k =>
    k.start.line != s.position.line || decide (1024 < s.position.index - k.start.index)

/-- The next token may become a simple key, where one is allowed. -/
def addCandidate (s : Scan) : Except Fault Scan :=
  if s.keyAllowed then do
    let s' ← s.noCandidate
    let key : KeyCandidate :=
      { level := s.level
        place := s.count
        required := s.inBlock && s.position.inColumn s.indent
        start := s.position }
    return { s' with candidates := s'.candidates ++ [key] }
  else .ok s

/-! ## Tokens -/

/-- A token that may start a simple key and after which none may start. -/
def scalarLike (s : Scan) (read : Position → Except Fault (Token × Position)) :
    Except Fault Scan := do
  let s ← s.addCandidate
  let (t, p) ← read s.position
  return ({ s with keyAllowed := false }.moveTo p).emit t

/-- A mark at the start of a line that ends all block collections. -/
def documentMark (s : Scan) (t : Token) : Except Fault Scan := do
  let s ← (s.unwind (-1)).noCandidate
  return ({ s with keyAllowed := false }.moveTo (s.position.forward 3)).emit t

/-- A directive. -/
def directiveLine (s : Scan) : Except Fault Scan := do
  let s ← (s.unwind (-1)).noCandidate
  let (d, p) ← directive s.position
  return ({ s with keyAllowed := false }.moveTo p).emit (.directive d)

/-- An opening bracket. -/
def openFlow (s : Scan) (t : Token) : Except Fault Scan := do
  let s ← s.addCandidate
  return { s with level := s.level + 1, keyAllowed := true }.single t

/-- A closing bracket. -/
def closeFlow (s : Scan) (t : Token) : Except Fault Scan := do
  let s ← s.noCandidate
  if s.level = 0 then throw .malformed
  return { s with level := s.level - 1, keyAllowed := false }.single t

/-- A comma between brackets. -/
def flowSeparator (s : Scan) : Except Fault Scan := do
  let s ← s.noCandidate
  return { s with keyAllowed := true }.single .flowEntry

/-- A hyphen in front of an item. -/
def blockItem (s : Scan) : Except Fault Scan := do
  if s.inBlock && !s.keyAllowed then throw .malformed
  let s := if s.inBlock then s.deepen s.position.column s.count .blockSequenceStart else s
  let s ← s.noCandidate
  return { s with keyAllowed := true }.single .blockEntry

/-- A question mark in front of a key. -/
def explicitKey (s : Scan) : Except Fault Scan := do
  if s.inBlock && !s.keyAllowed then throw .malformed
  let s := if s.inBlock then s.deepen s.position.column s.count .blockMappingStart else s
  let s ← s.noCandidate
  return { s with keyAllowed := s.inBlock }.single .key

/-- A colon behind a key. -/
def keyValue (s : Scan) : Except Fault Scan :=
  match s.candidates.find? (·.level == s.level) with
  | some k =>
    let s := { s with candidates := s.candidates.filter (·.level != s.level) }.emitAt k.place .key
    let s := if s.inBlock then s.deepen k.start.column k.place .blockMappingStart else s
    .ok ({ s with keyAllowed := false }.single .value)
  | none => do
    if s.inBlock && !s.keyAllowed then throw .malformed
    let s := if s.inBlock then s.deepen s.position.column s.count .blockMappingStart else s
    let s ← { s with keyAllowed := s.inBlock }.noCandidate
    return s.single .value

/-- A block scalar, behind which a simple key may start. -/
def blockText (s : Scan) (folded : Bool) : Except Fault Scan := do
  let s ← s.noCandidate
  let (text, p) ← blockScalar folded s.indent s.position
  return ({ s with keyAllowed := true }.moveTo p).emit (.scalar (.text text) false)

/-- A plain scalar. A simple key may start behind it if it ended at the end of its line. -/
def plain (s : Scan) : Except Fault Scan := do
  let s ← s.addCandidate
  let (text, p, onNewLine) :=
    plainText ⟨!s.inBlock, s.indent⟩ (s.position.rest.length + 1) s.position
  return ({ s with keyAllowed := onNewLine }.moveTo p).emit (.scalar (.text (String.ofList text)) true)

/-- The end of the text. -/
def endOfText (s : Scan) : Except Fault Scan := do
  let s ← (s.unwind (-1)).noCandidate
  return { s with keyAllowed := false, candidates := [], finished := true }.emit .streamEnd

/-- Whether a plain scalar starts with a character. -/
def startsPlain (s : Scan) (c : Char) : Bool :=
  !(isBlankOrBreak c
      || ['-', '?', ':', ',', '[', ']', '\x7b', '\x7d', '#', '&', '*', '!', '|', '>', '\x27', '"',
          '%', '@', '\x60'].contains c)
    || (!atBlank (s.position.peek 1)
        && (c == '-' || (s.inBlock && (c == '?' || c == ':'))))

/-- The position behind spaces, comments and ends of lines, and whether a line ended. -/
def skipIdle : (fuel : Nat) → Position → Position × Bool
  | 0, p => (p, false)
  | fuel + 1, p =>
    let p := p.skipSpaces.skipComment
    match p.lineBreak? with
    | some (_, p) => ((skipIdle fuel p).1, true)
    | none => (p, false)

/-- The scan in front of the next token. -/
def toNextToken (s : Scan) : Except Fault Scan := do
  let p :=
    if s.position.index = 0 ∧ s.position.peek = some '\uFEFF' then s.position.next else s.position
  let (p, lineEnded) := skipIdle (p.rest.length + 1) p
  let s ← { s with
    position := p
    keyAllowed := s.keyAllowed || (lineEnded && s.inBlock) }.dropStale
  return s.unwind s.position.column

/-- The scan behind the next token. -/
def nextToken (s : Scan) : Except Fault Scan := do
  let s ← s.toNextToken
  let p := s.position
  match p.peek with
  | none => s.endOfText
  | some c =>
    let spaced := atBlank (p.peek 1)
    if c = '%' ∧ p.column = 0 then s.directiveLine
    else if c = '-' ∧ p.column = 0 ∧ p.atSeparator then s.documentMark .documentStart
    else if c = '.' ∧ p.column = 0 ∧ p.atSeparator then s.documentMark .documentEnd
    else if c = '[' then s.openFlow .flowSequenceStart
    else if c = '\x7b' then s.openFlow .flowMappingStart
    else if c = ']' then s.closeFlow .flowSequenceEnd
    else if c = '\x7d' then s.closeFlow .flowMappingEnd
    else if c = ',' then s.flowSeparator
    else if c = '-' ∧ spaced then s.blockItem
    else if c = '?' ∧ (spaced || !s.inBlock) then s.explicitKey
    else if c = ':' ∧ (spaced || !s.inBlock) then s.keyValue
    else if c = '*' then
      s.scalarLike fun p => do let (n, p) ← anchorName p; return (.alias n, p)
    else if c = '&' then
      s.scalarLike fun p => do let (n, p) ← anchorName p; return (.anchor n, p)
    else if c = '!' then
      s.scalarLike fun p => do let (t, p) ← writtenTag p; return (.tag t, p)
    else if c = '|' ∧ s.inBlock then s.blockText false
    else if c = '>' ∧ s.inBlock then s.blockText true
    else if c = '\x27' then
      s.scalarLike fun p => do let (t, p) ← quotedScalar false p; return (.scalar t false, p)
    else if c = '"' then
      s.scalarLike fun p => do let (t, p) ← quotedScalar true p; return (.scalar t false, p)
    else if s.startsPlain c then s.plain
    else throw .malformed

/-- The tokens of the rest of a text, and what is wrong behind them. -/
def complete : (fuel : Nat) → Scan → List Token × Option Fault
  | 0, s => (s.found.reverse, some .malformed)
  | fuel + 1, s =>
    if s.finished then (s.found.reverse, none)
    else
      match s.nextToken with
      | .ok s => complete fuel s
      | .error e => (s.found.reverse, some e)

end Scan

/-- The tokens of a text, up to the first fault, and that fault. -/
def tokens (text : List Char) : List Token × Option Fault :=
  Scan.complete (text.length + 2) { position := { rest := text } }

end CommandGrammar.Yaml
