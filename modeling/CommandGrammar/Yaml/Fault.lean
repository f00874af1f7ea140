import CommandGrammar.Text.Numeral
import CommandGrammar.Text.Quoted

/-!
# What can be wrong with a YAML text

Almost everything that is wrong with a text makes it malformed, and no more is said about it: a reader
refuses such a text. With any other fault it fails. A few scalars are well-formed but stand for no value of
the type that they claim; among them are integers with too many decimal digits, and floating-point numbers
with too many parts between colons. A text may also be nested too deeply to be read.
-/

namespace CommandGrammar.Yaml

/-- What is wrong with a point in time. -/
inductive TimeFault where
  | year (number : Nat)
  | month
  | day
  | hour
  | minute
  | second
  /-- An offset from universal time, in minutes, of a day or more. -/
  | offset (minutes : Int)
  deriving DecidableEq, Repr

/-- What is wrong with a text. -/
inductive Fault where
  | malformed
  | integer (base : Nat) (text : String)
  | float (text : String)
  | emptyNumber
  | truthValue (word : String)
  | noTime
  /-- A mapping stands where a point in time has to be spelled. -/
  | timeOfMapping
  | time (fault : TimeFault)
  | codePoint (code : Nat)
  /-- There is no room on the stack for all that is open at a time. -/
  | tooDeep
  /-- Any other failure of a reader, with its wording. -/
  | other (message : String)
  deriving DecidableEq, Repr

/-- A span of minutes in days and seconds, as the runtime spells it. -/
def spanText (minutes : Int) : String :=
  let days := minutes / 1440
  let seconds := minutes % 1440 * 60
  let parts := (if days = 0 then [] else [s!"days={days}"])
    ++ (if seconds = 0 then [] else [s!"seconds={seconds}"])
  "datetime.timedelta(" ++ (if parts.isEmpty then "0" else ", ".intercalate parts) ++ ")"

/-- The wording of a fault of a point in time. -/
def TimeFault.message : TimeFault → String
  | .year number => s!"year {number} is out of range"
  | .month => "month must be in 1..12"
  | .day => "day is out of range for month"
  | .hour => "hour must be in 0..23"
  | .minute => "minute must be in 0..59"
  | .second => "second must be in 0..59"
  | .offset minutes =>
    "offset must be a timedelta strictly between -timedelta(hours=24) and timedelta(hours=24), not "
      ++ spanText minutes ++ "."

/-- The wording of a fault. Of a text that is no integer at most 200 characters are shown. -/
def Fault.message : Fault → String
  | .malformed => "malformed"
  | .integer base text =>
    let digits := Text.decimalCount text.toList
    let shown := String.ofList ((Text.quoted text).toList.take 200)
    if base = 10 ∧ Text.maxDecimals < digits then
      s!"Exceeds the limit ({Text.maxDecimals} digits) for integer string conversion: value has {digits} digits; "
        ++ "use sys.set_int_max_str_digits() to increase the limit"
    else s!"invalid literal for int() with base {base}: {shown}"
  | .float text =>
    if text.toList.contains ':' then "int too large to convert to float"
    else s!"could not convert string to float: {Text.quoted text}"
  | .emptyNumber => "string index out of range"
  | .truthValue word => Text.quoted word
  | .noTime => "'NoneType' object has no attribute 'groupdict'"
  | .timeOfMapping => "expected string or bytes-like object, got 'list'"
  | .time fault => fault.message
  | .codePoint code =>
    if code < 0x80000000 then "chr() arg not in range(0x110000)"
    else "Python int too large to convert to C int"
  | .tooDeep => "maximum recursion depth exceeded"
  | .other message => message

end CommandGrammar.Yaml
