import PageQueries.Text.Basic

/-!
# Binary floating-point numbers

The numbers of 64 bits with a fraction, as exact values: a finite number is `mantissa · 2^exponent`
with a sign.  A decimal numeral is read as the nearest number, a half going to the even mantissa.
A number is written with the fewest digits that are read back as it, and of those the nearest.
-/
namespace PageQueries

/-- A binary floating-point number of 64 bits. -/
inductive Binary64 where
  | finite (negative : Bool) (mantissa : Nat) (exponent : Int)
  | infinity (negative : Bool)
  | nan
  deriving DecidableEq, Repr

/-- A decimal number `digits · 10^exponent`. -/
structure Decimal where
  digits : Nat
  exponent : Int
  deriving DecidableEq, Repr

namespace Binary64

/-- The exponent of the smallest positive number, and the largest exponent of all. -/
def leastExponent : Int := -1074

@[inherit_doc leastExponent]
def greatestExponent : Int := 971

def mantissaBound : Nat := Nat.pow 2 53

/-- The ratio `n / d · base^k` as numerator and denominator. -/
def scaleRatio (base : Nat) (n d : Nat) (k : Int) : Nat × Nat :=
  (n * Nat.pow base k.toNat, d * Nat.pow base (-k).toNat)

/-- The quotient rounded to nearest, a half to the even neighbour. -/
def roundDiv (n d : Nat) : Nat :=
  let q := n / d
  let r := n % d
  if 2 * r > d ∨ (2 * r = d ∧ q % 2 = 1) then q + 1 else q

/-- The number nearest to a positive ratio. -/
def ofRatio (negative : Bool) (n d : Nat) : Binary64 :=
  let k : Int := (n.log2 : Int) - (d.log2 : Int)
  let (a, b) := scaleRatio 2 n d (-k)
  -- now n / d lies between 2^top and 2^(top + 1)
  let top := if b ≤ a then k else k - 1
  let e := max (top - 52) leastExponent
  let (a, b) := scaleRatio 2 n d (-e)
  let m := roundDiv a b
  let (m, e) := if m = mantissaBound then (m / 2, e + 1) else (m, e)
  if e > greatestExponent then .infinity negative else .finite negative m e

/-- Exponents of ten beyond these bounds are zero or infinite in any case. -/
def decimalBound : Int := 400

/-- The number nearest to `digits · 10^exponent`. -/
def ofDecimal (negative : Bool) (digits : Nat) (exponent : Int) : Binary64 :=
  let size : Int := (Text.ofNat digits).length
  if digits = 0 ∨ exponent + size < -decimalBound then .finite negative 0 leastExponent
  else if exponent + size > decimalBound then .infinity negative
  else
    let (n, d) := scaleRatio 10 digits 1 exponent
    ofRatio negative n d

def toInt? : Binary64 → Option Int
  | .finite negative m e =>
    let (n, d) := scaleRatio 2 m 1 e
    if n % d = 0 then some (if negative then -((n / d : Nat) : Int) else ((n / d : Nat) : Int))
    else none
  | _ => none

/-- The position of the decimal point of a positive ratio below one: the number of zeros that
follow the point, at most `fuel`. -/
def leadingZeros (n d : Nat) : (fuel : Nat) → Nat
  | 0 => 0
  | fuel + 1 => if n * 10 ≥ d then 0 else leadingZeros (n * 10) d fuel + 1

/-- The exponent `p` with `10^(p-1) ≤ n / d < 10^p`. -/
def decimalPoint (n d : Nat) : Int :=
  if n ≥ d then ((Text.ofNat (n / d)).length : Int) else -(leadingZeros n d 400 : Int)

/-- The ratios that are read as one number: those between two ends, which may belong to it. -/
structure Interval where
  low : Nat
  high : Nat
  /-- What `low` and `high` are divided by. -/
  unit : Nat
  closed : Bool

def Interval.holds (i : Interval) (n d : Nat) : Bool :=
  let x := n * i.unit
  let low := i.low * d
  let high := i.high * d
  if i.closed then low ≤ x && x ≤ high else low < x && x < high

/-- Drops trailing zeros of a positive number, at most `fuel`. -/
def Decimal.normalize : (fuel : Nat) → Decimal → Decimal
  | 0, x => x
  | fuel + 1, x =>
    if x.digits % 10 = 0 then Decimal.normalize fuel ⟨x.digits / 10, x.exponent + 1⟩ else x

/-- Tries `count + 1, count + 2, …` digits until a number of so many digits lies in the interval of
`n / d`, whose decimal point is at `p`. -/
def shortestFrom (i : Interval) (n d : Nat) (p : Int) : (fuel count : Nat) → Decimal
  | 0, _ => ⟨0, 0⟩
  | fuel + 1, count =>
    let e : Int := p - (count + 1 : Nat)
    let (a, b) := scaleRatio 10 n d (-e)
    let below := a / b
    let inside (x : Nat) : Bool := let (u, v) := scaleRatio 10 x 1 e; i.holds u v
    let nearer : Nat :=
      if 2 * (a % b) > b ∨ (2 * (a % b) = b ∧ below % 2 = 1) then below + 1 else below
    let found : Option Nat :=
      match inside below, inside (below + 1) with
      | true, true => some nearer
      | true, false => some below
      | false, true => some (below + 1)
      | false, false => none
    match found with
    | some x => Decimal.normalize 400 ⟨x, e⟩
    | none => shortestFrom i n d p fuel (count + 1)

/-- The shortest decimal that is read as the positive number `m · 2^e`. -/
def shortest (m : Nat) (e : Int) : Decimal :=
  let quarters (x : Nat) : Nat × Nat := scaleRatio 2 x 1 (e - 2)
  let below := if m = mantissaBound / 2 ∧ e > leastExponent then 1 else 2
  let i : Interval :=
    ⟨(quarters (4 * m - below)).1, (quarters (4 * m + 2)).1, (quarters 1).2, m % 2 = 0⟩
  let (n, d) := quarters (4 * m)
  shortestFrom i n d (decimalPoint n d) 18 0

/-- How a finite number is spelled: positionally with at least one place if its decimal point lies
near its digits, else with an exponent of at least two digits. -/
def spell (x : Decimal) : Text :=
  let ds := Text.ofNat x.digits
  let point : Int := x.exponent + ds.length
  if x.digits = 0 then ['0', '.', '0']
  else if -4 < point ∧ point ≤ 16 then
    if point ≤ 0 then ['0', '.'] ++ List.replicate (-point).toNat '0' ++ ds
    else if ds.length ≤ point.toNat then
      ds ++ List.replicate (point.toNat - ds.length) '0' ++ ['.', '0']
    else ds.take point.toNat ++ '.' :: ds.drop point.toNat
  else
    let e := point - 1
    let places := Text.ofNat e.natAbs
    let fraction := if ds.length = 1 then [] else '.' :: ds.drop 1
    ds.take 1 ++ fraction ++ 'e' :: (if e < 0 then '-' else '+')
      :: List.replicate (2 - places.length) '0' ++ places

/-- The spelling of a finite number with its sign. -/
def spellFinite (negative : Bool) (m : Nat) (e : Int) : Text :=
  (if negative then ['-'] else []) ++ spell (if m = 0 then ⟨0, 0⟩ else shortest m e)

/-- The spelling of a number with a fixed count of decimal places, a half going to the even
neighbour. -/
def spellFixed (places : Nat) : Binary64 → Text
  | .finite negative m e =>
    let (n, d) := scaleRatio 2 m 1 e
    let digits := Text.ofNat (roundDiv (n * Nat.pow 10 places) d)
    let digits := List.replicate (places + 1 - digits.length) '0' ++ digits
    let whole := digits.length - places
    (if negative then ['-'] else []) ++ digits.take whole ++ '.' :: digits.drop whole
  | .infinity negative => if negative then "-inf".toList else "inf".toList
  | .nan => "nan".toList

end Binary64

end PageQueries
