import CommandGrammar.Text.Quoted

/-!
# File paths

A path is a start and the names on the way from there. Spellings that differ only in empty names or in
names for "here" are the same path (`ofString`); `text` is its shortest spelling. What leads back up is
kept, since a link may stand in front of it.

Access to a path may fail. A failure has a number and a wording, and names the path.
-/

namespace CommandGrammar

/-- Where a path starts. Two slashes in front differ from one; more than two do not. -/
inductive PathStart where
  | here
  | root
  | doubleRoot
  deriving DecidableEq, Repr

/-- A start and the names on the way. -/
structure FilePath where
  start : PathStart := .here
  names : List String := []
  deriving DecidableEq, Repr

namespace PathStart

/-- The start that a spelling has. -/
def ofChars (cs : List Char) : PathStart :=
  match (cs.takeWhile (· == '/')).length with
  | 0 => .here
  | 2 => .doubleRoot
  | _ => .root

/-- The spelling of a start. -/
def text : PathStart → String
  | .here => ""
  | .root => "/"
  | .doubleRoot => "//"

end PathStart

namespace FilePath

/-- The path that a text spells. -/
def ofString (text : String) : FilePath where
  start := .ofChars text.toList
  names := (text.toList.splitOn '/').map String.ofList |>.filter fun name => name ≠ "" ∧ name ≠ "."

/-- The shortest spelling of a path. -/
def text (p : FilePath) : String :=
  if p = {} then "." else p.start.text ++ "/".intercalate p.names

end FilePath

/-- Why a path cannot be read. -/
structure FileFault where
  number : Nat
  reason : String
  deriving DecidableEq, Repr

namespace FileFault

/-- Nothing is there. -/
def notFound : FileFault := ⟨2, "No such file or directory"⟩

/-- Access is not allowed. -/
def permissionDenied : FileFault := ⟨13, "Permission denied"⟩

/-- Something on the way is no directory. -/
def notDirectory : FileFault := ⟨20, "Not a directory"⟩

/-- What is there is a directory. -/
def isDirectory : FileFault := ⟨21, "Is a directory"⟩

/-- The faults with a wording of their own. -/
def known : List FileFault := [notFound, permissionDenied, notDirectory, isDirectory]

/-- The fault with a number, which has a reason of its own if it is not known. -/
def ofNumber (number : Nat) (reason : String) : FileFault :=
  (known.find? (·.number == number)).getD ⟨number, reason⟩

/-- The wording of a fault at a path. -/
def message (fault : FileFault) (path : FilePath) : String :=
  s!"[Errno {fault.number}] {fault.reason}: {Text.quoted path.text}"

end FileFault

end CommandGrammar
