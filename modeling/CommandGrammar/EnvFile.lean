import CommandGrammar.OrderedMap
import CommandGrammar.Text.Basic

/-!
# Files of environment variables

A file of environment variables is a list of statements. A statement is a comment, a name, or a name with
a value behind an equals sign, and ends with its line. Names and values may stand between quotes, and then
run over several lines. What cannot be read is skipped up to the end of its line.

In a value `${name}` stands for the value of a variable, and `${name:-default}` for a default where it has
none. Variables of the file come before those of the environment.
-/

namespace CommandGrammar.EnvFile

open Text

/-! ## Statements -/

/-- A name that is given a value, or stands alone. -/
structure Binding where
  name : String
  value : Option String
  deriving DecidableEq, Repr

/-- One statement of a file. -/
inductive Statement where
  | comment
  | binding (b : Binding)
  | unreadable
  deriving DecidableEq, Repr

/-- A part of a statement and what follows it, or the place from which on nothing could be read. -/
abbrev Reading (α : Type) := Except (List Char) (α × List Char)

/-- White space within a line. -/
def isInlineBlank (c : Char) : Bool := isWhiteSpace c && c != '\n'

/-- The text behind the blanks at its beginning. -/
def skipBlanks (cs : List Char) : List Char := cs.dropWhile isInlineBlank

/-- The text behind the word `export` and the blanks that must follow it. -/
def skipExport (cs : List Char) : List Char :=
  match cs with
  | 'e' :: 'x' :: 'p' :: 'o' :: 'r' :: 't' :: c :: rest =>
    if isInlineBlank c then skipBlanks rest else cs
  | cs => cs

/-- What an unquoted name is made of. -/
def isNameChar (c : Char) : Bool := c != '=' && c != '#' && !isWhiteSpace c

/-- A name, which is not empty; there is none in front of a comment. -/
def readName (cs : List Char) : Reading (Option String) :=
  let named (name rest : List Char) : Reading (Option String) :=
    if name.isEmpty then .error cs else .ok (some (String.ofList name), rest)
  match cs with
  | '#' :: _ => .ok (none, cs)
  | '\x27' :: quoted =>
    match quoted.dropWhile (· != '\x27') with
    | _ :: rest => named (quoted.takeWhile (· != '\x27')) rest
    | [] => .error cs
  | cs => named (cs.takeWhile isNameChar) (cs.dropWhile isNameChar)

/-- The characters that a backslash escapes between single quotes. -/
def singleEscapes : List (Char × Char) := [('\\', '\\'), ('\x27', '\x27')]

/-- The characters that a backslash escapes between double quotes. -/
def doubleEscapes : List (Char × Char) :=
  [ ('\\', '\\'), ('\x27', '\x27'), ('"', '"'), ('a', '\x07'), ('b', '\x08'), ('f', '\x0c'),
    ('n', '\n'), ('r', '\r'), ('t', '\t'), ('v', '\x0b') ]

/-- The text with its escapes replaced; `pending` tells whether a backslash stands in front. -/
def unescape (escapes : List (Char × Char)) (pending : Bool) : List Char → List Char
  | [] => if pending then ['\\'] else []
  | c :: rest =>
    if pending then
      match escapes.lookup c with
      | some d => d :: unescape escapes false rest
      | none => '\\' :: c :: unescape escapes false rest
    else if c = '\\' then unescape escapes true rest
    else c :: unescape escapes false rest

/-- The text in front of the last mark. -/
def upToLast? (mark : Char) (cs : List Char) : Option (List Char) :=
  match cs.reverse.dropWhile (· != mark) with
  | _ :: before => some before.reverse
  | [] => none

/--
The text between quotes, given what follows the opening one. The first quote that does not directly follow
a backslash closes; if there is none, the last one does.
-/
def readQuoted (mark : Char) (escapes : List (Char × Char)) (cs : List Char) : Reading String :=
  match (upToMark? mark mark cs).orElse fun _ => upToLast? mark cs with
  | some text => .ok (String.ofList (unescape escapes false text), cs.drop (text.length + 1))
  | none => .error (mark :: cs)

/-- Whether a comment starts here, behind at least one blank. -/
def startsComment (cs : List Char) : Bool :=
  match cs with
  | c :: rest => isWhiteSpace c && (rest.dropWhile isWhiteSpace).head? == some '#'
  | [] => false

/-- The text in front of a comment at the end of a line. -/
def dropComment : List Char → List Char
  | [] => []
  | c :: rest => if startsComment (c :: rest) then [] else c :: dropComment rest

/-- A value: quoted, or the rest of the line without comment and blanks at its end. -/
def readValue (cs : List Char) : Reading String :=
  match cs with
  | '\x27' :: rest => readQuoted '\x27' singleEscapes rest
  | '"' :: rest => readQuoted '"' doubleEscapes rest
  | cs => .ok (String.ofList (trimEnd (dropComment (cs.takeWhile (· != '\n')))),
      cs.dropWhile (· != '\n'))

/-- The value behind an equals sign, if there is one. -/
def readAssigned (cs : List Char) : Reading (Option String) :=
  match skipBlanks cs with
  | '=' :: rest => (readValue (skipBlanks rest)).map fun (value, rest) => (some value, rest)
  | rest => .ok (none, rest)

/-- The text behind a comment. -/
def skipComment (cs : List Char) : List Char :=
  match skipBlanks cs with
  | '#' :: rest => rest.dropWhile (· != '\n')
  | _ => cs

/-- The text behind the end of a line, where nothing else may stand in front of it. -/
def readLineEnd (cs : List Char) : Reading Unit :=
  match skipBlanks cs with
  | [] => .ok ((), [])
  | '\n' :: rest => .ok ((), rest)
  | _ => .error cs

/-- A statement from its first character on. -/
def readStatement (cs : List Char) : Except (List Char) (Statement × List Char) := do
  let (name, rest) ← readName (skipExport cs)
  let (value, rest) ← readAssigned rest
  let (_, rest) ← readLineEnd (skipComment rest)
  return (name.elim .comment fun name => .binding ⟨name, value⟩, rest)

/-- The statement that starts here, or what is skipped in its place, and what follows. -/
def nextStatement (cs : List Char) : Statement × List Char :=
  match readStatement cs with
  | .ok found => found
  | .error rest => (.unreadable, (rest.dropWhile (· != '\n')).drop 1)

/-- The statements of a text whose lines end in line feeds. A statement that takes up nothing is the last. -/
def statementsFrom (cs : List Char) : List Statement :=
  match cs.dropWhile isWhiteSpace with
  | [] => []
  | c :: body =>
    let (statement, rest) := nextStatement (c :: body)
    if rest.length < cs.length then statement :: statementsFrom rest else [statement]
termination_by cs.length

/-- The statements of a file. -/
def statements (text : String) : List Statement := statementsFrom (unifyLineEnds text.toList)

/-! ## Variables -/

/-- A part of a value that stands for a variable, given what follows the sign for it. -/
def reference? (cs : List Char) : Option (String × String × List Char) :=
  match cs with
  | '\x7b' :: rest =>
    let isInner (c : Char) : Bool := c != '\x7d' && c != ':'
    let name := String.ofList (rest.takeWhile isInner)
    match rest.dropWhile isInner with
    | '\x7d' :: rest => some (name, "", rest)
    | ':' :: '-' :: rest =>
      match rest.dropWhile (· != '\x7d') with
      | _ :: after => some (name, String.ofList (rest.takeWhile (· != '\x7d')), after)
      | [] => none
    | _ => none
  | _ => none

/-- A reference is not empty. -/
theorem length_of_reference? {cs rest : List Char} {name default : String}
    (h : reference? cs = some (name, default, rest)) : rest.length < cs.length := by
  have drop_le (p : Char → Bool) (l : List Char) : (l.dropWhile p).length ≤ l.length :=
    (List.dropWhile_sublist p).length_le
  unfold reference? at h
  split at h
  · next tail =>
    have hle := drop_le (fun c => c != '\x7d' && c != ':') tail
    simp only at h
    split at h
    · next after heq => simp_all; omega
    · next after heq =>
      split at h
      · next last heq' =>
        have := drop_le (fun c => c != '\x7d') after
        simp_all
        omega
      · simp at h
    · simp at h
  · simp at h

/-- The text with every reference replaced. -/
def expand (lookup? : String → Option String) (cs : List Char) : List Char :=
  match cs with
  | [] => []
  | '$' :: rest =>
    match h : reference? rest with
    | some (name, default, after) =>
      have := length_of_reference? h
      ((lookup? name).getD default).toList ++ expand lookup? after
    | none => '$' :: expand lookup? rest
  | c :: rest => c :: expand lookup? rest
termination_by cs.length

/-- The variables of a file. A later binding of a name replaces the value of an earlier one. -/
def resolve (environment : String → Option String) (bindings : List Binding) :
    OrderedMap String (Option String) :=
  bindings.foldl (fun known b =>
    let lookup? (name : String) : Option String :=
      (known.get? name).elim (environment name) fun value => some (value.getD "")
    known.insert b.name (b.value.map fun value =>
      String.ofList (expand lookup? value.toList))) .empty

/-- The bindings among statements. -/
def bindings (statements : List Statement) : List Binding :=
  statements.filterMap fun
    | .binding b => some b
    | _ => none

end CommandGrammar.EnvFile
