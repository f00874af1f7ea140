import CommandGrammar.Text.Bytes
import CommandGrammar.Yaml.Fault
import CommandGrammar.Yaml.Position
import CommandGrammar.Yaml.Token
import CommandGrammar.Yaml.Token.Quoted

/-!
# Names, tags and directives of YAML

Anchors and aliases are named by ASCII letters, digits, hyphens and underscores. A tag is a handle and
what stands behind it, in which bytes may be written by number.
-/

namespace CommandGrammar.Yaml

/-- Whether a character may stand in a name. -/
def isNameChar (c : Char) : Bool := c.isAlphanum || c == '-' || c == '_'

/-- A name of at least one character. -/
def name (p : Position) : Except Fault (String × Position) :=
  match p.span isNameChar with
  | ([], _) => .error .malformed
  | (cs, p) => .ok (String.ofList cs, p)

/-- The name of the anchor or alias whose mark stands here. -/
def anchorName (p : Position) : Except Fault (String × Position) := do
  let (text, p) ← name p.next
  if endOr (fun c => isBlankOrBreak c || ['?', ':', ',', ']', '\x7d', '%', '@', '\x60'].contains c)
      p.peek then
    return (text, p)
  else throw .malformed

/-! ## Tags -/

/-- Whether a character may stand in what follows the handle of a tag. -/
def isTagChar (c : Char) : Bool :=
  c.isAlphanum
    || ['-', ';', '/', '?', ':', '@', '&', '=', '+', '$', ',', '_', '.', '!', '~', '*', '\x27',
        '(', ')', '[', ']'].contains c

/-- The bytes written by number from here on. -/
def numberedBytes : (fuel : Nat) → Position → Except Fault (List UInt8 × Position)
  | 0, p => .ok ([], p)
  | fuel + 1, p =>
    if p.peek = some '%' then
      match hexNumber? 2 p.next with
      | some (code, p) => do
        let (more, p) ← numberedBytes fuel p
        return (UInt8.ofNat code :: more, p)
      | none => .error .malformed
    else .ok ([], p)

/-- What follows the handle of a tag. -/
def tagChars : (fuel : Nat) → Position → Except Fault (List Char × Position)
  | 0, p => .ok ([], p)
  | fuel + 1, p =>
    match p.peek with
    | some '%' => do
      let (bytes, p) ← numberedBytes (fuel + 1) p
      match Text.decodeUtf8? bytes with
      | none => throw .malformed
      | some cs =>
        let (more, p) ← tagChars fuel p
        return (cs ++ more, p)
    | some c =>
      if isTagChar c then do
        let (more, p) ← tagChars fuel p.next
        return (c :: more, p)
      else .ok ([], p)
    | none => .ok ([], p)

/-- What follows the handle of a tag, which may not be empty. -/
def tagSuffix (p : Position) : Except Fault (String × Position) := do
  if isSomeAnd (fun c => isTagChar c || c == '%') p.peek then
    let (cs, p) ← tagChars p.rest.length p
    return (String.ofList cs, p)
  else throw .malformed

/-- The handle of a tag: an exclamation mark, or a name between two of them. -/
def tagHandle (p : Position) : Except Fault (String × Position) :=
  if p.peek = some '!' then
    if p.peek 1 = some ' ' then .ok ("!", p.next)
    else
      let (cs, q) := p.next.span isNameChar
      if q.peek = some '!' then .ok ("!" ++ String.ofList cs ++ "!", q.next) else .error .malformed
  else .error .malformed

/-- The tag that starts here. -/
def writtenTag (p : Position) : Except Fault (WrittenTag × Position) := do
  let (tag, p) ←
    if p.peek 1 = some '<' then do
      let (suffix, p) ← tagSuffix (p.forward 2)
      if p.peek = some '>' then pure (WrittenTag.mk none suffix, p.next) else throw .malformed
    else if atBlank (p.peek 1) then pure (WrittenTag.mk none "!", p.next)
    else do
      let word := p.rest.tail.takeWhile fun c => c != ' ' && !isBreak c
      let (handle, p) ← if word.contains '!' then tagHandle p else pure ("!", p.next)
      let (suffix, p) ← tagSuffix p
      pure (WrittenTag.mk (some handle) suffix, p)
  if atSpace p.peek then return (tag, p) else throw .malformed

/-! ## Directives -/

/-- A number in decimal digits, of which there may not be too many. -/
def decimal (p : Position) : Except Fault (Nat × Position) :=
  let (digits, p) := p.span Char.isDigit
  if Text.maxDecimals < digits.length then .error (.integer 10 (String.ofList digits))
  else
    match Text.natOfDigits? 10 digits with
    | some n => .ok (n, p)
    | none => .error .malformed

/-- The version of a version directive: two numbers with a point between them. -/
def version (p : Position) : Except Fault (Directive × Position) := do
  let (major, p) ← decimal p.skipSpaces
  if p.peek ≠ some '.' then throw .malformed
  let (_, p) ← decimal p.next
  if atSpace p.peek then return (.version major, p) else throw .malformed

/-- The handle of a tag directive and what it stands for. -/
def handleDefinition (p : Position) : Except Fault (Directive × Position) := do
  let (handle, p) ← tagHandle p.skipSpaces
  if p.peek ≠ some ' ' then throw .malformed
  let (replacement, p) ← tagSuffix p.skipSpaces
  if atSpace p.peek then return (.tag handle replacement, p) else throw .malformed

/-- The directive that starts here, and the position behind its line. -/
def directive (p : Position) : Except Fault (Directive × Position) := do
  let (kind, p) ← name p.next
  if !atSpace p.peek then throw .malformed
  let (d, p) ←
    if kind = "YAML" then version p
    else if kind = "TAG" then handleDefinition p
    else pure (Directive.other, p.skip fun c => !isBreak c)
  let p := p.skipSpaces.skipComment
  match p.lineBreak? with
  | some (_, p) => return (d, p)
  | none => if p.peek.isNone then return (d, p) else throw .malformed

end CommandGrammar.Yaml
