import CommandGrammar.Yaml.Position

/-!
# Plain scalars of YAML

A plain scalar ends at a colon with space behind it, at a comment, at less indentation, and inside
brackets also at the characters that have a meaning there. Line ends inside are folded.
-/

namespace CommandGrammar.Yaml

/-- What surrounds a plain scalar: whether it stands inside brackets, and the indentation around it. -/
structure PlainContext where
  inFlow : Bool
  indent : Int

/-- Whether a plain scalar is cut off at a position. -/
def plainStops (context : PlainContext) (p : Position) : Bool :=
  match p.peek with
  | none => true
  | some c =>
    isBlankOrBreak c
      || (c == ':' && (atBlank (p.peek 1)
        || (context.inFlow && isSomeAnd ([',', '[', ']', '\x7b', '\x7d'].contains ·) (p.peek 1))))
      || (context.inFlow && [',', '?', '[', ']', '\x7b', '\x7d'].contains c)

/-- The characters up to the place where a plain scalar is cut off. -/
def plainWord (context : PlainContext) : (fuel : Nat) → Position → List Char × Position
  | 0, p => ([], p)
  | fuel + 1, p =>
    if plainStops context p then ([], p)
    else
      let (more, q) := plainWord context fuel p.next
      (p.rest.take 1 ++ more, q)

/-- The line ends from here on, with spaces between them dropped; none at a line that separates documents. -/
def plainBreaks : (fuel : Nat) → Position → Option (List Char) × Position
  | 0, p => (none, p)
  | fuel + 1, p =>
    if p.peek = some ' ' then plainBreaks fuel p.next
    else
      match p.lineBreak? with
      | none => (some [], p)
      | some (c, p) =>
        if p.atSeparator then (none, p)
        else
          let (more, p) := plainBreaks fuel p
          (more.map (c :: ·), p)

/--
What the spaces and line ends from here on stand for between two words, the position behind them, and
whether a line ended. Nothing is said when no word can follow.
-/
def plainSpace (fuel : Nat) (p : Position) : List Char × Position × Bool :=
  let (spaces, p) := p.span (· == ' ')
  match p.lineBreak? with
  | none => (spaces, p, false)
  | some (c, p) =>
    if p.atSeparator then ([], p, true)
    else
      match plainBreaks fuel p with
      | (none, p) => ([], p, true)
      | (some breaks, p) =>
        let first := if c ≠ '\n' then [c] else if breaks.isEmpty then [' '] else []
        (first ++ breaks, p, true)

/-- The words of a plain scalar, joined, the position behind it, and whether it ended on a new line. -/
def plainText (context : PlainContext) : (fuel : Nat) → Position → List Char × Position × Bool
  | 0, p => ([], p, false)
  | fuel + 1, p =>
    if p.peek = some '#' then ([], p, false)
    else
      let (word, p) := plainWord context p.rest.length p
      if word.isEmpty then ([], p, false)
      else
        let (space, q, onNewLine) := plainSpace (fuel + 1) p
        if space.isEmpty || q.peek == some '#'
            || (!context.inFlow && (q.column : Int) < context.indent + 1) then
          (word, q, onNewLine)
        else
          let (more, q, onNewLine') := plainText context fuel q
          if more.isEmpty then (word, q, onNewLine) else (word ++ space ++ more, q, onNewLine')

end CommandGrammar.Yaml
