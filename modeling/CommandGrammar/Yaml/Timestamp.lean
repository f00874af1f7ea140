import CommandGrammar.Document.Value
import CommandGrammar.Yaml.Fault
import CommandGrammar.Yaml.Implicit

/-!
# Points in time

A point in time is a day, or a day with a time, which may have a fraction and an offset from universal
time. `Timestamp.read?` takes its spelling apart and `Timestamp.settle` looks whether there is such a
point. A spelling without a time is recognised in a plain scalar only if month and day have two digits.
-/

namespace CommandGrammar.Yaml

open Document

/-- The offset of a time: universal time itself, or a sign with hours and minutes. -/
inductive Zone where
  | universal
  | offset (behind : Bool) (hours minutes : Nat)
  deriving DecidableEq, Repr

/-- A time of day; the fraction is in digits. -/
structure ClockTime where
  hour : Nat
  minute : Nat
  second : Nat
  fraction : List Char
  zone : Option Zone
  deriving DecidableEq, Repr

/-- A spelling of a point in time, taken apart. -/
structure Timestamp where
  year : Nat
  month : Nat
  day : Nat
  fullDate : Bool
  clock : Option ClockTime
  deriving DecidableEq, Repr

namespace Timestamp

/-- The number that decimal digits spell. -/
def number (digits : List Char) : Nat :=
  digits.foldl (fun n c => n * 10 + (c.toNat - 0x30)) 0

/-- A number of as many digits as `least` to `most`, and the rest. -/
def digits? (least most : Nat) (cs : List Char) : Option (Nat × List Char) :=
  (dropDigits? least most cs).map fun (ds, rest) => (number ds, rest)

/-- The zone that is all of a text. -/
def zone? (cs : List Char) : Option Zone :=
  match cs with
  | ['Z'] => some .universal
  | sign :: rest =>
    if sign = '+' ∨ sign = '-' then do
      let (hours, rest) ← digits? 1 2 rest
      match rest with
      | [] => some (.offset (sign == '-') hours 0)
      | ':' :: rest =>
        let (minutes, rest) ← digits? 2 2 rest
        if rest.isEmpty then some (.offset (sign == '-') hours minutes) else none
      | _ => none
    else none
  | [] => none

/-- The time that is all of a text. -/
def clock? (cs : List Char) : Option ClockTime := do
  let (hour, rest) ← digits? 1 2 cs
  let (minute, rest) ← digits? 2 2 (← expect? ':' rest)
  let (second, rest) ← digits? 2 2 (← expect? ':' rest)
  let (fraction, rest) :=
    match rest with
    | '.' :: rest => (rest.takeWhile Char.isDigit, rest.dropWhile Char.isDigit)
    | rest => ([], rest)
  if rest.isEmpty then return ⟨hour, minute, second, fraction, none⟩
  return ⟨hour, minute, second, fraction, some (← zone? (rest.dropWhile isLineBlank))⟩

/-- The point in time that a text spells. -/
def read? (cs : List Char) : Option Timestamp := do
  let (year, rest) ← digits? 4 4 cs
  let (month, rest) ← digits? 1 2 (← expect? '-' rest)
  let (day, rest) ← digits? 1 2 (← expect? '-' rest)
  let fullDate := cs.length - rest.length == 10
  match rest with
  | [] => return ⟨year, month, day, fullDate, none⟩
  | c :: rest =>
    if c = 'T' ∨ c = 't' then return ⟨year, month, day, fullDate, some (← clock? rest)⟩
    else if isLineBlank c then
      return ⟨year, month, day, fullDate, some (← clock? (rest.dropWhile isLineBlank))⟩
    else none

/-- Whether a plain scalar with this spelling is a point in time. -/
def isImplicit (cs : List Char) : Bool :=
  match read? cs with
  | some t => t.fullDate || t.clock.isSome
  | none => false

/-! ## The calendar -/

/-- Whether a year has a leap day. -/
def isLeap (year : Nat) : Bool := year % 4 == 0 && (year % 100 != 0 || year % 400 == 0)

/-- The number of days of a month. -/
def daysIn (year month : Nat) : Nat :=
  if month = 2 then (if isLeap year then 29 else 28)
  else if month ∈ [4, 6, 9, 11] then 30
  else 31

/-- The number of days before a year. -/
def daysBeforeYear (year : Nat) : Nat :=
  let y := year - 1
  y * 365 + y / 4 - y / 100 + y / 400

/-- The number of a day, counted from the first day of the first year. -/
def dayNumber (year month day : Nat) : Nat :=
  daysBeforeYear year + (List.range (month - 1)).foldl (fun n m => n + daysIn year (m + 1)) 0 + day - 1

/-- The offset of a zone from universal time, in minutes. -/
def Zone.minutes : Zone → Int
  | .universal => 0
  | .offset behind hours minutes =>
    let total : Int := hours * 60 + minutes
    if behind then -total else total

/-- A zone with an offset in minutes, as the runtime spells it. -/
def zoneText (minutes : Int) : String :=
  if minutes = 0 then "datetime.timezone.utc" else s!"datetime.timezone({spanText minutes})"

/-- A day, or a time on one, as the runtime spells it: by its numbers and the zone. -/
def momentText (kind : String) (numbers : List Nat) (zone : Option Int) : String :=
  let parts := numbers.map toString ++ (zone.map fun minutes => "tzinfo=" ++ zoneText minutes).toList
  "datetime." ++ kind ++ "(" ++ ", ".intercalate parts ++ ")"

/-- The point in time that a spelling stands for, with the spelling of the runtime. -/
def settle (t : Timestamp) : Except TimeFault Scalar := do
  let date := [t.year, t.month, t.day]
  let checkDate : Except TimeFault Unit := do
    if t.year = 0 then throw (.year t.year)
    if t.month = 0 ∨ 12 < t.month then throw .month
    if t.day = 0 ∨ daysIn t.year t.month < t.day then throw .day
  let number := dayNumber t.year t.month t.day
  match t.clock with
  | none =>
    checkDate
    return .time (.day number) (momentText "date" date none)
  | some c =>
    let offset? := c.zone.map Zone.minutes
    if let some offset := offset? then
      if offset ≤ -1440 ∨ 1440 ≤ offset then throw (.offset offset)
    checkDate
    if 23 < c.hour then throw .hour
    if 59 < c.minute then throw .minute
    if 59 < c.second then throw .second
    let kept := c.fraction.take 6
    let micros := Timestamp.number (kept ++ List.replicate (6 - kept.length) '0')
    let clock : Int :=
      (((number * 24 + c.hour) * 60 + c.minute) * 60 + c.second) * 1000000 + micros
    let seconds :=
      if micros ≠ 0 then [c.second, micros] else if c.second ≠ 0 then [c.second] else []
    let spelling := momentText "datetime" (date ++ [c.hour, c.minute] ++ seconds) offset?
    match offset? with
    | none => return .time (.localTime clock) spelling
    | some offset => return .time (.universalTime (clock - offset * 60000000)) spelling

end Timestamp

end CommandGrammar.Yaml
