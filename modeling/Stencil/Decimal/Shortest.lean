import Stencil.Decimal.Binary

/-!
# Shortest decimals

The decimal with the fewest digits that still reads back as a given double, found by trying ever
finer decimal grids in exact arithmetic, and the text of a number written with it.
-/

namespace Stencil

/-- The decimal number `digits · 10 ^ exponent`. -/
structure Decimal where
  digits : Nat
  exponent : Int

/-- The real numbers that read back as one double, as bounds in units of `num / den`. -/
structure Decimal.Interval where
  low : Nat
  value : Nat
  high : Nat
  num : Nat
  den : Nat
  /-- Whether the two ends read back as the double, too. -/
  closed : Bool

/-- The interval of the double `m · 2 ^ q`; below a power of two the neighbours are nearer. -/
def Decimal.Interval.of (m : Nat) (q : Int) : Decimal.Interval where
  low := if m = Nat.pow 2 52 ∧ -1074 < q then 4 * m - 1 else 4 * m - 2
  value := 4 * m
  high := 4 * m + 2
  num := Nat.pow 2 (q - 2).toNat
  den := Nat.pow 2 (2 - q).toNat
  closed := m % 2 = 0

def Decimal.Interval.has (i : Decimal.Interval) (d : Nat) (g : Int) : Bool :=
  let point := d * Nat.pow 10 g.toNat * i.den
  let unit := i.num * Nat.pow 10 (-g).toNat
  if i.closed then i.low * unit ≤ point && point ≤ i.high * unit
  else i.low * unit < point && point < i.high * unit

/-- The point of the grid `10 ^ g` that lies in the interval nearest to its value, if there is one;
of two equally near ones it is the greater. -/
def Decimal.Interval.nearest? (i : Decimal.Interval) (g : Int) : Option Decimal :=
  let unit := i.num * Nat.pow 10 (-g).toNat
  let step := Nat.pow 10 g.toNat * i.den
  let d := i.value * unit / step
  let below := i.has d g
  let above := i.has (d + 1) g
  let nearBelow := i.value * unit - d * step < (d + 1) * step - i.value * unit
  if below && (nearBelow || !above) then some ⟨d, g⟩
  else if above then some ⟨d + 1, g⟩
  else none

/-- The first grid with a point in the interval, from `10 ^ g` on to finer ones. -/
def Decimal.Interval.search (i : Decimal.Interval) : Nat → Int → Decimal
  | 0, g => ⟨0, g⟩
  | n + 1, g =>
    match i.nearest? g with
    | some d => d
    | none => i.search n (g - 1)

/-- The shortest decimal that reads back as the double `m · 2 ^ q`. Seventeen digits always do. -/
def Decimal.shortest (m : Nat) (q : Int) : Decimal :=
  if m = 0 then ⟨0, 0⟩
  else (Decimal.Interval.of m q).search 24 (Int.fdiv (((m.log2 : Int) + q + 1) * 30103) 100000 + 1)

def Decimal.positional (d : Decimal) : String :=
  let digits := Nat.toDigits 10 d.digits
  if 0 ≤ d.exponent then String.ofList (digits ++ List.replicate d.exponent.toNat '0')
  else
    let places := d.exponent.natAbs
    let padded := List.replicate (places + 1 - digits.length) '0' ++ digits
    String.ofList
      (padded.take (padded.length - places) ++ '.' :: padded.drop (padded.length - places))

end Stencil
