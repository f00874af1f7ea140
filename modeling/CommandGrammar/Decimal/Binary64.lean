/-!
# Binary floating-point numbers

A `Binary64` is a number `m · 2 ^ e` with at most 53 binary digits and an exponent in the usual range,
an infinity, or not a number. All arithmetic is exact until the last step, `round`, which takes the
nearest such number and the even one of two that are equally near.
-/

namespace CommandGrammar.Decimal

/-- A double-precision number. The sign of zero is kept. -/
inductive Binary64 where
  | nan
  | infinite (negative : Bool)
  | finite (negative : Bool) (mantissa : Nat) (exponent : Int)
  deriving DecidableEq, Repr

/-- The integer nearest to a quotient; half-way cases go to the even neighbour. -/
def roundHalfEven (num den : Nat) : Nat :=
  let q := num / den
  let r := num % den
  if 2 * r < den ∨ (2 * r = den ∧ q % 2 = 0) then q else q + 1

/-- A rounded quotient is at most half a unit away. -/
theorem roundHalfEven_near {num den : Nat} (h : 0 < den) :
    2 * num ≤ 2 * roundHalfEven num den * den + den
      ∧ 2 * roundHalfEven num den * den ≤ 2 * num + den := by
  have hd := Nat.div_add_mod num den
  have hm := Nat.mod_lt num h
  have hq : num / den * den = den * (num / den) := Nat.mul_comm _ _
  unfold roundHalfEven
  simp only
  split
  · rw [Nat.mul_assoc, hq]
    omega
  · rw [Nat.mul_assoc, Nat.add_mul, hq]
    omega

namespace Binary64

/-- The smallest exponent. -/
def minExponent : Int := -1074

/-- The largest exponent. -/
def maxExponent : Int := 971

/-- Numerator and denominator of a quotient divided by `2 ^ e`. -/
def scaled (num den : Nat) (e : Int) : Nat × Nat :=
  if 0 ≤ e then (num, den * Nat.pow 2 e.toNat) else (num * Nat.pow 2 (-e).toNat, den)

/-- The number nearest to a quotient. -/
def round (negative : Bool) (num den : Nat) : Binary64 :=
  if num = 0 then .finite negative 0 minExponent
  else
    let guess : Int := (num.log2 : Int) - den.log2 - 52
    let (n, d) := scaled num den guess
    let e := max minExponent (if n < d * Nat.pow 2 52 then guess - 1 else guess)
    let (n, d) := scaled num den e
    let m := roundHalfEven n d
    let (m, e) := if m = Nat.pow 2 53 then (Nat.pow 2 52, e + 1) else (m, e)
    if maxExponent < e then .infinite negative else .finite negative m e

/--
The number nearest to `digits · 10 ^ exponent`. Exponents far outside the range are settled by the
length of the digits alone.
-/
def ofDecimal (negative : Bool) (digits : Nat) (exponent : Int) : Binary64 :=
  let size : Int := digits.log2 / 3 + 1
  if digits = 0 then .finite negative 0 minExponent
  else if 400 < exponent then .infinite negative
  else if exponent + size < -400 then .finite negative 0 minExponent
  else if 0 ≤ exponent then round negative (digits * Nat.pow 10 exponent.toNat) 1
  else round negative digits (Nat.pow 10 (-exponent).toNat)

/-- A finite number as a signed numerator over a denominator. -/
def ratio? : Binary64 → Option (Int × Nat)
  | .finite negative m e =>
    let (n, d) : Nat × Nat :=
      if 0 ≤ e then (m * Nat.pow 2 e.toNat, 1) else (m, Nat.pow 2 (-e).toNat)
    some (if negative then -n else n, d)
  | _ => none

/-- The number nearest to a signed quotient; zero takes the sign given. -/
def ofRatio (zeroNegative : Bool) (num : Int) (den : Nat) : Binary64 :=
  if num = 0 then .finite zeroNegative 0 minExponent
  else round (decide (num < 0)) num.natAbs den

/-- The value of a number that is an integer. -/
def toInt? (x : Binary64) : Option Int :=
  match x.ratio? with
  | some (n, d) => if n % d = 0 then some (n / d) else none
  | none => none

/-- The opposite number. -/
def neg : Binary64 → Binary64
  | .nan => .nan
  | .infinite negative => .infinite !negative
  | .finite negative m e => .finite (!negative) m e

/-- Whether a number is below zero or is the lower zero. -/
def isNegative : Binary64 → Bool
  | .nan => false
  | .infinite negative => negative
  | .finite negative _ _ => negative

/-- The sum, rounded. -/
def add (x y : Binary64) : Binary64 :=
  match x, y with
  | .nan, _ | _, .nan => .nan
  | .infinite a, .infinite b => if a = b then .infinite a else .nan
  | .infinite a, _ => .infinite a
  | _, .infinite b => .infinite b
  | x, y =>
    match x.ratio?, y.ratio? with
    | some (a, c), some (b, d) =>
      ofRatio (x.isNegative && y.isNegative) (a * d + b * c) (c * d)
    | _, _ => .nan

/-- The product with a positive integer, rounded. -/
def scale (x : Binary64) (factor : Nat) : Binary64 :=
  match x.ratio? with
  | some (n, d) => ofRatio x.isNegative (n * factor) d
  | none => x

end Binary64

end CommandGrammar.Decimal
