/-!
Floating-point numbers taken apart exactly: sign, significand and a power of two.  Every question
about a number that is not plain arithmetic (is it whole, what is its remainder, what are its
digits) is answered on these parts in integer arithmetic.
-/

namespace TreeTemplate.Number

/-- What a binary64 number stands for.  `finite` is `± significand · 2 ^ exponent`. -/
inductive Parts where
  | nan
  | infinite (negative : Bool)
  | finite (negative : Bool) (significand : Nat) (exponent : Int)
  deriving DecidableEq, Repr

/-- The parts of `x`.  A normal number has a significand of 53 bits; zero and the subnormal numbers
have exponent -1074. -/
def parts (x : Float) : Parts :=
  let bits := x.toBits.toNat
  let negative := bits / Nat.pow 2 63 == 1
  let field : Nat := bits / Nat.pow 2 52 % Nat.pow 2 11
  let fraction : Nat := bits % Nat.pow 2 52
  if field == 2047 then (if fraction == 0 then .infinite negative else .nan)
  else if field == 0 then .finite negative fraction (-1074)
  else .finite negative (Nat.pow 2 52 + fraction) ((field : Int) - 1075)

/-- The number `± significand · 2 ^ exponent`, for parts that a binary64 number can have exactly. -/
def ofParts (negative : Bool) (significand : Nat) (exponent : Int) : Float :=
  let sign := if negative then Nat.pow 2 63 else 0
  if significand == 0 then Float.ofBits (UInt64.ofNat sign)
  else
    let top := exponent + Nat.log2 significand
    if top < -1022 then
      let fraction :=
        significand * Nat.pow 2 (exponent + 1074).toNat / Nat.pow 2 (-1074 - exponent).toNat
      Float.ofBits (UInt64.ofNat (sign + fraction))
    else
      let shift := 52 - (Nat.log2 significand : Int)
      let aligned := significand * Nat.pow 2 shift.toNat / Nat.pow 2 (-shift).toNat
      let field := (top + 1023).toNat
      Float.ofBits (UInt64.ofNat (sign + field * Nat.pow 2 52 + (aligned - Nat.pow 2 52)))

def toInt? (x : Float) : Option Int :=
  match parts x with
  | .finite negative m q =>
    let signed (n : Nat) : Int := if negative then -n else n
    if 0 ≤ q then some (signed (m * Nat.pow 2 q.toNat))
    else if m % Nat.pow 2 (-q).toNat == 0 then some (signed (m / Nat.pow 2 (-q).toNat))
    else none
  | _ => none

/-- The exact remainder of `x` by `y` with the sign of `x`; not a number if `x` is infinite, `y` is
zero, or either is not a number. -/
def remainder (x y : Float) : Float :=
  match parts x, parts y with
  | .finite negative m q, .finite _ n p =>
    if n == 0 then 0.0 / 0.0
    else
      let e := min q p
      let r := (m * Nat.pow 2 (q - e).toNat) % (n * Nat.pow 2 (p - e).toNat)
      ofParts negative r e
  | .finite _ _ _, .infinite _ => x
  | _, _ => 0.0 / 0.0

end TreeTemplate.Number
