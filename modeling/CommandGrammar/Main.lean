import CommandGrammar.CommandLine

/-!
# The program in the world

Reads arguments, variables and files, and writes what the program answers.
-/

namespace CommandGrammar.Main

/-- The fault with a number, which may have been given with its sign changed. -/
def faultOfCode (code : UInt32) (reason : String) : FileFault :=
  .ofNumber (if code.toNat < 0x80000000 then code.toNat else 0x100000000 - code.toNat) reason

/-- The fault that a refused access stands for. -/
def faultOf : IO.Error → FileFault
  | .noFileOrDirectory .. => .notFound
  | .inappropriateType _ code reason | .permissionDenied _ code reason
  | .invalidArgument _ code reason | .resourceExhausted _ code reason
  | .resourceVanished code reason | .unsupportedOperation code reason
  | .hardwareFault code reason | .illegalOperation code reason
  | .otherError code reason => faultOfCode code reason
  | e => .ofNumber 5 e.toString

/-- The bytes of a file. -/
def contentOf (path : FilePath) : IO (Except FileFault (List UInt8)) := do
  try
    return .ok (← IO.FS.readBinFile path.text).toList
  catch e =>
    return .error (faultOf e)

/-- The variables among bytes in which each one is followed by a zero. -/
def variablesOf (content : List UInt8) : List (String × String) :=
  (content.splitOn 0).filterMap fun entry => do
    let cs ← Text.decodeUtf8? entry
    match cs.dropWhile (· != '=') with
    | _ :: value => some (String.ofList (cs.takeWhile (· != '=')), String.ofList value)
    | [] => none

/-- The file of this process that holds its variables. -/
def environmentFile : FilePath := .ofString "/proc/self/environ"

/-- The file of further variables. -/
def envFile : FilePath := .ofString ".env"

/-- The bytes of a file that may be missing. -/
def contentOrNothing (path : FilePath) : IO (Option (List UInt8)) := do
  match ← contentOf path with
  | .ok content => return some content
  | .error _ => return none

/-- What the program finds in the world. -/
def surroundings : IO (CommandLine.Surroundings IO) := do
  let environment ← contentOrNothing environmentFile
  let further ← contentOrNothing envFile
  return {
    environment := (environment.map variablesOf).getD []
    envFile := further.bind Text.ofUtf8?
    contentOf }

end CommandGrammar.Main

/-- Runs the program and ends with its exit code. -/
def main (arguments : List String) : IO UInt32 := do
  let exit ← CommandGrammar.CommandLine.launch arguments (← CommandGrammar.Main.surroundings)
  for complaint in exit.complaints do
    IO.eprintln complaint
  IO.print exit.output
  return UInt32.ofNat exit.code
