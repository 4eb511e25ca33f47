/-!
# Binary64 numbers

The exact meaning of the bits of a floating-point number, as natural numbers and powers of two.
-/

namespace Covenant

/-- What the bits of a floating-point number mean. -/
inductive Binary64 where
  | nan
  | infinite (negative : Bool)
  /-- The number `mantissa * 2 ^ exponent`, with its sign. -/
  | finite (negative : Bool) (mantissa : Nat) (exponent : Int)
deriving DecidableEq, Repr

namespace Binary64

/-- The exponent of the numbers closest to zero. -/
def leastExponent : Int := -1074

/-- The mantissa of a power of two that has the full precision of 53 bits. -/
def leadingBit : Nat := Nat.pow 2 52

/-- The meaning of 64 bits: a sign, eleven bits of exponent and 52 bits of fraction. -/
def ofBits (bits : Nat) : Binary64 :=
  let negative := decide (Nat.pow 2 63 ≤ bits)
  let exponent := bits / leadingBit % Nat.pow 2 11
  let fraction := bits % leadingBit
  if exponent = 2047 then
    if fraction = 0 then .infinite negative else .nan
  else if exponent = 0 then .finite negative fraction leastExponent
  else .finite negative (leadingBit + fraction) (leastExponent + (exponent - 1 : Nat))

def ofFloat (x : Float) : Binary64 := ofBits x.toBits.toNat

def isEven : Binary64 → Bool
  | .finite _ mantissa exponent =>
    mantissa * Nat.pow 2 exponent.toNat % Nat.pow 2 ((-exponent).toNat + 1) == 0
  | _ => false

end Binary64

end Covenant
