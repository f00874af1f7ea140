import CommandGrammar.Decimal.Binary64

/-!
# Shortest decimal spellings

A number is written with the fewest decimal digits that still round to it, and among those with the
digits nearest to it. For each number of digits only the two neighbours of the value on that decimal
grid have to be tested: if a point of the grid rounds to the value, then one of the neighbours does.
-/

namespace CommandGrammar.Decimal

/-- The exponent of the leading decimal digit of a positive quotient, by bounded search. -/
def leadingExponent (num den : Nat) : Int :=
  if den ≤ num then ((toString (num / den)).length : Int) - 1
  else
    let rec search : Nat → Nat → Int → Int
      | 0, _, k => k
      | fuel + 1, n, k => if den ≤ n then k else search fuel (n * 10) (k - 1)
    search 400 num 0

namespace Binary64

/--
The digits and the exponent of their last place, for a positive number `m · 2 ^ e`: the first length for
which a neighbour on the grid rounds to the number.
-/
def shortestDigits (m : Nat) (e : Int) : Nat × Int :=
  let below := if m = Nat.pow 2 52 ∧ minExponent < e then 1 else 2
  let (v, den) := if 2 ≤ e then (4 * m * Nat.pow 2 (e - 2).toNat, 1)
    else (4 * m, Nat.pow 2 (2 - e).toNat)
  let unit := if 2 ≤ e then Nat.pow 2 (e - 2).toNat else 1
  let lo := v - below * unit
  let hi := v + 2 * unit
  let inside (n d : Nat) : Bool :=
    if m % 2 = 0 then lo * d ≤ n * den && n * den ≤ hi * d
    else lo * d < n * den && n * den < hi * d
  let k := leadingExponent v den
  let attempt (length : Nat) : Option (Nat × Int) :=
    let place : Int := k + 1 - length
    let (up, down) := if 0 ≤ place then (Nat.pow 10 place.toNat, 1)
      else (1, Nat.pow 10 (-place).toNat)
    let d := v * down / (den * up)
    let r := v * down % (den * up)
    let order :=
      if 2 * r < den * up ∨ (2 * r = den * up ∧ d % 2 = 0) then [d, d + 1] else [d + 1, d]
    (order.find? fun c => inside (c * up) down).map (·, place)
  ((List.range 17).findSome? fun i => attempt (i + 1)).getD (m, 0)

/-- The digits without trailing zeros, and the exponent of the last one. -/
def trimZeros : (fuel : Nat) → Nat × Int → Nat × Int
  | 0, p => p
  | fuel + 1, (d, k) => if d ≠ 0 ∧ d % 10 = 0 then trimZeros fuel (d / 10, k + 1) else (d, k)

/-- Zeros. -/
def zeros (n : Nat) : String := String.ofList (List.replicate n '0')

/--
The spelling of a positive number from its digits and the place of the point, counted from the first
digit: positional for points from three places before to sixteen behind it, else with an exponent of at
least two digits.
-/
def layOut (digits : String) (point : Int) : String :=
  let length : Int := digits.length
  if -4 < point ∧ point ≤ 16 then
    if point ≤ 0 then "0." ++ zeros (-point).toNat ++ digits
    else if length ≤ point then digits ++ zeros (point - length).toNat ++ ".0"
    else String.ofList (digits.toList.take point.toNat) ++ "."
      ++ String.ofList (digits.toList.drop point.toNat)
  else
    let power := toString (point - 1).natAbs
    let fraction := if digits.length = 1 then "" else "." ++ String.ofList (digits.toList.drop 1)
    String.ofList (digits.toList.take 1) ++ fraction ++ "e"
      ++ (if point - 1 < 0 then "-" else "+")
      ++ (if power.length < 2 then "0" else "") ++ power

/-- The spelling of a number. -/
def spelling : Binary64 → String
  | .nan => "nan"
  | .infinite negative => if negative then "-inf" else "inf"
  | .finite negative m e =>
    (if negative then "-" else "") ++
      (if m = 0 then "0.0"
      else
        let (d, k) := trimZeros 20 (shortestDigits m e)
        let digits := toString d
        layOut digits (k + digits.length))

end Binary64

end CommandGrammar.Decimal
