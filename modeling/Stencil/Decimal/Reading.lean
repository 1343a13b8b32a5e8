import Stencil.Decimal.Shortest

/-!
# Reading numbers

Numerals in decimal notation and the doubles and integers they denote.
-/

namespace Stencil

def natOfDigits (ds : List Char) : Nat :=
  ds.foldl (fun n c => 10 * n + (c.toNat - '0'.toNat)) 0

/-- The double nearest to a decimal. Magnitudes beyond all doubles are cut off first, so that no huge
power is computed. -/
def Decimal.toFloat (negative : Bool) (d : Decimal) : Float :=
  let magnitude : Int := (Nat.toDigits 10 d.digits).length + d.exponent
  if d.digits = 0 || magnitude < -330 then floatOfRatio negative 0 1
  else if 310 < magnitude then floatOfRatio negative (Nat.pow 2 1024) 1
  else floatOfRatio negative (d.digits * Nat.pow 10 d.exponent.toNat) (Nat.pow 10 (-d.exponent).toNat)

def readExponent? : List Char → Option Int
  | [] => some 0
  | e :: cs =>
    if e != 'e' && e != 'E' then none
    else
      let (negative, ds) :=
        match cs with
        | '-' :: ds => (true, ds)
        | '+' :: ds => (false, ds)
        | ds => (false, ds)
      if ds.isEmpty || !ds.all Char.isDigit then none
      else some (if negative then -(natOfDigits ds : Int) else natOfDigits ds)

/-- Reads digits with an optional point and exponent; there is a digit before or after the point. -/
def Decimal.ofText? (cs : List Char) : Option Decimal :=
  let whole := cs.takeWhile Char.isDigit
  let (fraction, rest) :=
    match cs.dropWhile Char.isDigit with
    | '.' :: rest => (rest.takeWhile Char.isDigit, rest.dropWhile Char.isDigit)
    | rest => ([], rest)
  if whole.isEmpty && fraction.isEmpty then none
  else (readExponent? rest).map fun e => ⟨natOfDigits (whole ++ fraction), e - fraction.length⟩

/-- Reads a double: a decimal, `inf`, `infinity` or `nan` in any case, with an optional sign. -/
def readFloat? (cs : List Char) : Option Float :=
  let (negative, cs) :=
    match cs with
    | '-' :: cs => (true, cs)
    | '+' :: cs => (false, cs)
    | cs => (false, cs)
  let word := String.ofList (cs.map Char.toLower)
  if word == "inf" || word == "infinity" then some (floatOfRatio negative (Nat.pow 2 1024) 1)
  else if word == "nan" then some (0.0 / 0.0)
  else (Decimal.ofText? cs).map (Decimal.toFloat negative)

def int64? (n : Int) : Option Int64 :=
  if Int64.minValue.toInt ≤ n ∧ n ≤ Int64.maxValue.toInt then some (Int64.ofInt n) else none

/-- A word that was obtained from an integer is that integer. -/
theorem toInt_of_int64? {n : Int} {w : Int64} (h : int64? n = some w) : w.toInt = n := by
  unfold int64? at h
  split at h
  · next hn =>
    obtain rfl := Option.some.inj h
    have hmax : Int64.maxValue.toInt = 2 ^ 63 - 1 := by decide
    have hmin : Int64.minValue.toInt = -2 ^ 63 := by decide
    exact Int64.toInt_ofInt_of_le (by omega) (by omega)
  · cases h

/-- There is such a word exactly when the integer is in range. -/
theorem int64?_isSome_iff {n : Int} : (int64? n).isSome ↔ Int64.minValue.toInt ≤ n ∧ n ≤ Int64.maxValue.toInt := by
  unfold int64?
  split <;> simp_all

theorem int64?_eq_some_iff {n : Int} {w : Int64} : int64? n = some w ↔ w.toInt = n := by
  refine ⟨toInt_of_int64?, ?_⟩
  rintro rfl
  have least : Int64.minValue.toInt ≤ w.toInt := Int64.le_iff_toInt_le.mp (Int64.minValue_le w)
  have most : w.toInt ≤ Int64.maxValue.toInt := Int64.le_iff_toInt_le.mp (Int64.le_maxValue w)
  unfold int64?
  rw [if_pos ⟨least, most⟩, Int64.ofInt_toInt]

theorem int64?_eq_none_iff {n : Int} : int64? n = none ↔ ∀ w : Int64, w.toInt ≠ n := by
  rw [Option.eq_none_iff_forall_ne_some]
  exact forall_congr' fun w => not_congr int64?_eq_some_iff

/-- Every word but the least one has a negative. -/
theorem int64?_neg {n : Int64} (h : n ≠ Int64.minValue) : int64? (-n.toInt) = some (-n) := by
  have lower := Int64.minValue_le_toInt n
  have upper := Int64.toInt_le n
  have least : Int64.minValue.toInt = -2 ^ 63 := by decide
  have greatest : Int64.maxValue.toInt = 2 ^ 63 - 1 := by decide
  have other : n.toInt ≠ Int64.minValue.toInt := fun same => h (Int64.toInt_inj.mp same)
  unfold int64?
  rw [if_pos (by omega), Int64.ofInt_neg, Int64.ofInt_toInt]

theorem neg_ne_minValue {n : Int64} (h : n ≠ Int64.minValue) : -n ≠ Int64.minValue := by
  intro least
  have back : n = -Int64.minValue := by rw [← least, Int64.neg_neg]
  exact h back

/-- Reads an integer of 64 bits: digits with an optional sign. -/
def readInt64? (cs : List Char) : Option Int64 :=
  let (negative, ds) :=
    match cs with
    | '-' :: ds => (true, ds)
    | '+' :: ds => (false, ds)
    | ds => (false, ds)
  if ds.isEmpty || !ds.all Char.isDigit then none
  else int64? (if negative then -(natOfDigits ds : Int) else natOfDigits ds)

end Stencil
