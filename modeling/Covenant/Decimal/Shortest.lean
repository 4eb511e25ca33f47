import Covenant.Decimal.Binary64

/-!
# Shortest decimals

A number is shown by the fewest decimal digits that identify it: of the decimals that are closer
to it than to any other number, one with the fewest digits, and among those the closest. Each grid
of decimals with a fixed last place is tried in turn, the coarsest first; on a grid only the two
neighbours of the number can be the closest. All comparisons are between natural numbers, so they
are exact.
-/

namespace Covenant

/-- The number `digits * 10 ^ exponent`. -/
structure Decimal where
  digits : Nat
  exponent : Int
deriving DecidableEq, Repr

namespace Decimal

/-- Positional notation: the digits with zeros up to the decimal point, and no point without a
fraction. -/
def positional (d : Decimal) : String :=
  let digits := Nat.toDigits 10 d.digits
  let places := (-d.exponent).toNat
  if places = 0 then String.ofList (digits ++ List.replicate d.exponent.toNat '0')
  else if places < digits.length then
    let whole := digits.length - places
    String.ofList (digits.take whole ++ '.' :: digits.drop whole)
  else String.ofList ('0' :: '.' :: (List.replicate (places - digits.length) '0' ++ digits))

end Decimal

/-- The reals that are rounded to a positive number, as fractions with the denominator `scale`. -/
structure Rounding where
  low : Nat
  value : Nat
  high : Nat
  scale : Nat
  /-- Whether the two ends are rounded to the number, too. -/
  closed : Bool
deriving DecidableEq, Repr

namespace Rounding

/-- The reals that are rounded to `mantissa * 2 ^ exponent`: up to half of the distance to the
next number on either side, where ties go to even mantissas. Numbers are half as far apart below a
power of two as above it, but for the least ones, which are evenly spaced. -/
def ofBinary (mantissa : Nat) (exponent : Int) : Rounding :=
  let gapBelow :=
    if mantissa = Binary64.leadingBit ∧ exponent ≠ Binary64.leastExponent then 1 else 2
  let up := Nat.pow 2 (exponent - 2).toNat
  { low := (4 * mantissa - gapBelow) * up
    value := 4 * mantissa * up
    high := (4 * mantissa + 2) * up
    scale := Nat.pow 2 (2 - exponent).toNat
    closed := mantissa % 2 = 0 }

/-- Whether a decimal is rounded to the number. -/
def contains (r : Rounding) (d : Decimal) : Bool :=
  let here := d.digits * Nat.pow 10 d.exponent.toNat * r.scale
  let low := r.low * Nat.pow 10 (-d.exponent).toNat
  let high := r.high * Nat.pow 10 (-d.exponent).toNat
  if r.closed then low ≤ here && here ≤ high else low < here && here < high

/-- The closest decimal with the given last place that is rounded to the number, the larger one if
two are equally close. -/
def nearest? (r : Rounding) (exponent : Int) : Option Decimal :=
  let value := r.value * Nat.pow 10 (-exponent).toNat
  let unit := r.scale * Nat.pow 10 exponent.toNat
  let lower : Decimal := ⟨value / unit, exponent⟩
  let upper : Decimal := ⟨value / unit + 1, exponent⟩
  match r.contains lower, r.contains upper with
  | true, true => if 2 * (value % unit) < unit then some lower else some upper
  | true, false => some lower
  | false, true => some upper
  | false, false => none

/-- The first hit on the grids from `exponent` down, `tries` of them, or else the next lower
decimal. -/
def shortestFrom (r : Rounding) : (tries : Nat) → (exponent : Int) → Decimal
  | 0, exponent =>
    ⟨r.value * Nat.pow 10 (-exponent).toNat / (r.scale * Nat.pow 10 exponent.toNat), exponent⟩
  | tries + 1, exponent =>
    match r.nearest? exponent with
    | some d => d
    | none => shortestFrom r tries (exponent - 1)

def digitCount (n : Nat) : Nat := (Nat.toDigits 10 n).length

/-- The shortest decimal that is rounded to the number. The first grid is coarser than the number is
large, and seventeen digits always suffice, so twenty grids are enough. -/
def shortest (r : Rounding) : Decimal :=
  r.shortestFrom 20 ((digitCount r.value : Int) - digitCount r.scale + 1)

end Rounding

/-- The text of a number: its shortest decimal in positional notation. Zero has no sign. -/
def renderFloat (x : Float) : String :=
  let sign (negative : Bool) := if negative then "-" else ""
  match Binary64.ofFloat x with
  | .nan => "NaN"
  | .infinite negative => sign negative ++ "inf"
  | .finite negative mantissa exponent =>
    if mantissa = 0 then "0"
    else sign negative ++ (Rounding.ofBinary mantissa exponent).shortest.positional

end Covenant
