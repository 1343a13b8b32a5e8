/-!
# Binary fractions

A finite double is a binary fraction `± m · 2 ^ q`. This module takes doubles apart, rounds an exact
quotient to the nearest double, and computes the remainder of two doubles without any rounding.
-/

namespace Stencil

/-- What a double stands for. -/
inductive FloatView where
  | nan
  | infinite (negative : Bool)
  /-- The number `± mantissa · 2 ^ exponent`. -/
  | finite (negative : Bool) (mantissa : Nat) (exponent : Int)

def FloatView.of (x : Float) : FloatView :=
  let bits := x.toBits.toNat
  let negative := bits / Nat.pow 2 63 % 2 == 1
  let exponent : Nat := bits / Nat.pow 2 52 % Nat.pow 2 11
  let fraction : Nat := bits % Nat.pow 2 52
  if exponent = 2047 then
    if fraction = 0 then .infinite negative else .nan
  else if exponent = 0 then .finite negative fraction (-1074)
  else .finite negative (Nat.pow 2 52 + fraction) (exponent - 1075)

/-- The integer nearest to `num / den`; of two equally near ones it is the even one. -/
def roundHalfEven (num den : Nat) : Nat :=
  let q := num / den
  let r := num % den
  if 2 * r < den then q
  else if den < 2 * r then q + 1
  else q + q % 2

/-- `floatOfRatio negative num den` is the double nearest to `± num / den`, infinite beyond the
largest one. The denominator is positive. -/
def floatOfRatio (negative : Bool) (num den : Nat) : Float :=
  let sign : Nat := if negative then Nat.pow 2 63 else 0
  if num = 0 then Float.ofBits sign.toUInt64
  else
    let scaled (q : Int) : Nat × Nat :=
      if q < 0 then (num * Nat.pow 2 q.natAbs, den) else (num, den * Nat.pow 2 q.natAbs)
    let q₀ : Int := max (-1074) ((num.log2 : Int) - den.log2 - 53)
    let (n₀, d₀) := scaled q₀
    let q := if n₀ / d₀ < Nat.pow 2 53 then q₀ else q₀ + 1
    let (n, d) := scaled q
    let magnitude := (q + 1074).toNat * Nat.pow 2 52 + roundHalfEven n d
    Float.ofBits (sign + min magnitude (2047 * Nat.pow 2 52)).toUInt64

/-- The remainder of a division that truncates: it has the sign of the dividend and is exact. -/
def Float.remainder (x y : Float) : Float :=
  match FloatView.of x, FloatView.of y with
  | .finite negative m q, .finite _ n p =>
    if n = 0 then 0.0 / 0.0
    else
      let e := min q p
      let r := (m * Nat.pow 2 (q - e).toNat) % (n * Nat.pow 2 (p - e).toNat)
      if e < 0 then floatOfRatio negative r (Nat.pow 2 e.natAbs)
      else floatOfRatio negative (r * Nat.pow 2 e.natAbs) 1
  | .finite .., .infinite _ => x
  | _, _ => 0.0 / 0.0

/-- The place of a double in the total order of all doubles, in which `-0.0` precedes `0.0`. -/
def Float.rank (x : Float) : Int :=
  let bits := x.toBits.toNat
  if bits < Nat.pow 2 63 then bits else -((bits - Nat.pow 2 63 : Nat) : Int) - 1

end Stencil
