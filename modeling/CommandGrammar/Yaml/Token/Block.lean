import CommandGrammar.Yaml.Fault
import CommandGrammar.Yaml.Position

/-!
# Block scalars of YAML

A block scalar has a header, which may fix the indentation and says what becomes of the line ends behind
the last line, and then lines with at least that indentation. A literal keeps its line ends; in a folded
scalar a single line end between two lines that do not start with a blank becomes a space.
-/

namespace CommandGrammar.Yaml

/-- What becomes of the line ends behind the last line: one is kept, all, or none. -/
inductive Chomping where
  | clip
  | keep
  | strip
  deriving DecidableEq

/-- The chomping that a sign asks for. -/
def Chomping.ofSign? : Option Char → Option Chomping
  | some '+' => some .keep
  | some '-' => some .strip
  | _ => none

/-- An indentation indicator: a digit, which may not be zero. -/
def indentDigit? (p : Position) : Except Fault (Option Nat × Position) :=
  match p.peek with
  | some c =>
    if c = '0' then .error .malformed
    else if c.isDigit then .ok (some (c.toNat - 0x30), p.next)
    else .ok (none, p)
  | none => .ok (none, p)

/-- The indicators behind the mark of a block scalar, in either order. -/
def blockIndicators (p : Position) : Except Fault (Chomping × Option Nat × Position) := do
  let (chomping, increment, p) ←
    match Chomping.ofSign? p.peek with
    | some chomping => do
      let (increment, p) ← indentDigit? p.next
      pure (chomping, increment, p)
    | none => do
      let (increment, p) ← indentDigit? p
      match increment, Chomping.ofSign? p.peek with
      | some _, some chomping => pure (chomping, increment, p.next)
      | _, _ => pure (.clip, increment, p)
  if atSpace p.peek then return (chomping, increment, p) else throw .malformed

/-- The position behind the rest of a line that holds only spaces and a comment. -/
def emptyLineRest (p : Position) : Except Fault Position :=
  let p := p.skipSpaces.skipComment
  match p.lineBreak? with
  | some (_, p) => .ok p
  | none => if p.peek.isNone then .ok p else .error .malformed

/-- The empty lines from here on, and the widest indentation among them and in front of the next line. -/
def detectIndent : (fuel : Nat) → Position → List Char × Nat × Position
  | 0, p => ([], 0, p)
  | fuel + 1, p =>
    match p.lineBreak? with
    | some (c, p) =>
      let (more, width, p) := detectIndent fuel p
      (c :: more, width, p)
    | none =>
      if p.peek = some ' ' then
        let (more, width, q) := detectIndent fuel p.next
        (more, max p.next.column width, q)
      else ([], 0, p)

/-- The position behind the spaces in front of a column. -/
def skipIndent (indent : Nat) : (fuel : Nat) → Position → Position
  | 0, p => p
  | fuel + 1, p =>
    if p.column < indent ∧ p.peek = some ' ' then skipIndent indent fuel p.next else p

/-- The empty lines from here on, with the indentation of the next line skipped. -/
def blockBreaks (indent : Nat) : (fuel : Nat) → Position → List Char × Position
  | 0, p => ([], p)
  | fuel + 1, p =>
    let p := skipIndent indent indent p
    match p.lineBreak? with
    | some (c, p) =>
      let (more, p) := blockBreaks indent fuel p
      (c :: more, p)
    | none => ([], p)

/-- The lines of a block scalar; `breaks` are the empty lines in front of the first one. -/
def blockLines (folded : Bool) (chomping : Chomping) (indent : Nat) :
    (fuel : Nat) → (breaks : List Char) → Position → List Char × Position
  | 0, _, p => ([], p)
  | fuel + 1, breaks, p =>
    if p.column = indent ∧ p.peek.isSome then
      let startsBlank := isSomeAnd (fun c => c == ' ' || c == '\t') p.peek
      let (line, p) := p.span fun c => !isBreak c
      let (ending, p) := match p.lineBreak? with
        | some (c, p) => ([c], p)
        | none => ([], p)
      let (after, p) := blockBreaks indent (p.rest.length + 1) p
      if p.column = indent ∧ p.peek.isSome then
        let nextBlank := isSomeAnd (fun c => c == ' ' || c == '\t') p.peek
        let joint :=
          if folded && ending == ['\n'] && !startsBlank && !nextBlank then
            if after.isEmpty then [' '] else []
          else ending
        let (more, p) := blockLines folded chomping indent fuel after p
        (breaks ++ line ++ joint ++ more, p)
      else
        let tail := (if chomping = .strip then [] else ending)
          ++ (if chomping = .keep then after else [])
        (breaks ++ line ++ tail, p)
    else (if chomping = .keep then breaks else [], p)

/-- The text of the block scalar whose mark stands here, inside the given indentation. -/
def blockScalar (folded : Bool) (outer : Int) (p : Position) :
    Except Fault (String × Position) := do
  let (chomping, increment, p) ← blockIndicators p.next
  let p ← emptyLineRest p
  let least := max 1 (outer + 1).toNat
  let fuel := p.rest.length + 1
  let (breaks, indent, p) :=
    match increment with
    | some n =>
      let indent := least + n - 1
      let (breaks, p) := blockBreaks indent fuel p
      (breaks, indent, p)
    | none =>
      let (breaks, width, p) := detectIndent fuel p
      (breaks, max least width, p)
  let (text, p) := blockLines folded chomping indent fuel breaks p
  return (String.ofList text, p)

end CommandGrammar.Yaml
