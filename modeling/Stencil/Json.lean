import Stencil.Decimal.Reading
import Stencil.Text.Hex

/-!
# JSON documents

The documents of JSON and their reader. Objects come with their keys sorted and distinct, the last
entry of a key winning; a whole number that fits a word stays whole.
-/

namespace Stencil

/-- A JSON document. -/
inductive Json where
  | null
  | bool (b : Bool)
  /-- A number without point and exponent, between `-2 ^ 63` and `2 ^ 64`. -/
  | int (n : Int)
  | float (x : Float)
  | str (s : String)
  | arr (items : List Json)
  | obj (fields : List (String × Json))

namespace Json

/-- Containers may be nested this deep. -/
def maxDepth : Nat := 127

private def skipBlank (cs : List Char) : List Char :=
  cs.dropWhile fun c => c == ' ' || c == '\t' || c == '\n' || c == '\r'

/-! ### Numbers -/

/-- Takes digits into a number as long as it stays below `2 ^ 64`; answers it and what is left. -/
def takeDigits (n : Nat) : List Char → Nat × List Char
  | [] => (n, [])
  | d :: ds =>
    let m := 10 * n + (d.toNat - '0'.toNat)
    if m < Nat.pow 2 64 then takeDigits m ds else (n, d :: ds)

/-- Multiplies by a power of ten, step by step in doubles; no answer beyond the largest double. -/
def scale (x : Float) : Nat → Int → Option Float
  | 0, _ => some x
  | steps + 1, e =>
    let power (n : Nat) : Float := Decimal.toFloat false ⟨1, n⟩
    if e.natAbs ≤ 308 then
      if 0 ≤ e then
        let y := x * power e.natAbs
        if y.isInf then none else some y
      else some (x / power e.natAbs)
    else if x == 0.0 then some x
    else if 0 ≤ e then none
    else scale (x / power 308) steps (e + 308)

/-- The value of a number given by the digits of its whole part and its fraction and its exponent.
Digits beyond a word of 64 bits only count as places. -/
def numberOf (negative : Bool) (whole fraction : List Char) (exponent : Int) : Option Float := do
  let (n, dropped) := takeDigits 0 whole
  let (m, ignored) := takeDigits n fraction
  let places : Int := (fraction.length - ignored.length : Nat)
  let x ← scale (floatOfRatio false m 1) 8 (dropped.length - places + exponent)
  return if negative then -x else x

private def readNumber (negative : Bool) (cs : List Char) : Option (Json × List Char) := do
  let whole := cs.takeWhile Char.isDigit
  let cs := cs.dropWhile Char.isDigit
  guard (!whole.isEmpty && (whole.length == 1 || whole.head? != some '0'))
  let (point, fraction, cs) :=
    match cs with
    | '.' :: cs => (true, cs.takeWhile Char.isDigit, cs.dropWhile Char.isDigit)
    | cs => (false, [], cs)
  guard (!point || !fraction.isEmpty)
  let (hasExponent, minus, digits, cs) :=
    match cs with
    | e :: cs =>
      if e == 'e' || e == 'E' then
        match cs with
        | '-' :: cs => (true, true, cs.takeWhile Char.isDigit, cs.dropWhile Char.isDigit)
        | '+' :: cs => (true, false, cs.takeWhile Char.isDigit, cs.dropWhile Char.isDigit)
        | cs => (true, false, cs.takeWhile Char.isDigit, cs.dropWhile Char.isDigit)
      else (false, false, [], e :: cs)
    | [] => (false, false, [], [])
  guard (!hasExponent || !digits.isEmpty)
  let n := natOfDigits whole
  if !point && !hasExponent && !negative && n < Nat.pow 2 64 then return (.int n, cs)
  if !point && !hasExponent && negative && 0 < n && n ≤ Nat.pow 2 63 then return (.int (-n), cs)
  let exponent : Int := if minus then -(natOfDigits digits : Int) else natOfDigits digits
  let x ← numberOf negative whole fraction exponent
  return (.float x, cs)

/-! ### Strings -/

private def unit? (a b c d : Char) : Option Nat := do
  return 4096 * (← Text.hexValue? a) + 256 * (← Text.hexValue? b) + 16 * (← Text.hexValue? c) + (← Text.hexValue? d)

private def isLead (n : Nat) : Bool := 0xD800 ≤ n && n < 0xDC00

private def isTrail (n : Nat) : Bool := 0xDC00 ≤ n && n < 0xE000

private def escape? : Char → Option Char
  | '"' => some '"'
  | '\\' => some '\\'
  | '/' => some '/'
  | 'b' => some '\x08'
  | 'f' => some '\x0c'
  | 'n' => some '\n'
  | 'r' => some '\r'
  | 't' => some '\t'
  | _ => none

private def readString : List Char → List Char → Option (String × List Char)
  | acc, '"' :: cs => some (String.ofList acc.reverse, cs)
  | acc, '\\' :: 'u' :: a :: b :: c :: d :: '\\' :: 'u' :: e :: f :: g :: h :: cs =>
    match unit? a b c d with
    | none => none
    | some n =>
      if isLead n then
        match unit? e f g h with
        | none => none
        | some m =>
          if isTrail m then
            readString (Char.ofNat (0x10000 + 0x400 * (n - 0xD800) + (m - 0xDC00)) :: acc) cs
          else none
      else if isTrail n then none
      else readString (Char.ofNat n :: acc) ('\\' :: 'u' :: e :: f :: g :: h :: cs)
  | acc, '\\' :: 'u' :: a :: b :: c :: d :: cs =>
    match unit? a b c d with
    | none => none
    | some n => if isLead n || isTrail n then none else readString (Char.ofNat n :: acc) cs
  | acc, '\\' :: c :: cs =>
    match escape? c with
    | none => none
    | some e => readString (e :: acc) cs
  | acc, c :: cs => if c.toNat < 0x20 || c == '\\' then none else readString (c :: acc) cs
  | _, [] => none

/-! ### Documents -/

private def isKeyBefore (a b : String × Json) : Bool := a.1 < b.1

/-- Sorts the fields of an object by key; of several with one key the last stays. -/
def sortFields (fields : List (String × Json)) : List (String × Json) :=
  fields.foldl (fun sorted f =>
    let others := sorted.filter (·.1 != f.1)
    others.takeWhile (isKeyBefore · f) ++ f :: others.dropWhile (isKeyBefore · f)) []

private def readScalar (cs : List Char) : Option (Json × List Char) :=
  match cs with
  | 'n' :: 'u' :: 'l' :: 'l' :: cs => some (.null, cs)
  | 't' :: 'r' :: 'u' :: 'e' :: cs => some (.bool true, cs)
  | 'f' :: 'a' :: 'l' :: 's' :: 'e' :: cs => some (.bool false, cs)
  | '"' :: cs => (readString [] cs).map fun (s, cs) => (.str s, cs)
  | '-' :: cs => readNumber true cs
  | cs => readNumber false cs

/-- Reads items with commas between them up to a closing bracket; every item takes up characters, so
the characters themselves bound the number of rounds. -/
private def readItems {α : Type} (item : List Char → Option (α × List Char)) (close : Char) :
    List Char → List Char → Option (List α × List Char)
  | [], _ => none
  | _ :: bound, cs => do
    let (x, cs) ← item cs
    match skipBlank cs with
    | [] => none
    | c :: cs =>
      if c == close then return ([x], cs)
      else if c == ',' then
        let (xs, cs) ← readItems item close bound cs
        return (x :: xs, cs)
      else none

private def readBracketed {α : Type} (item : List Char → Option (α × List Char)) (close : Char)
    (cs : List Char) : Option (List α × List Char) :=
  match skipBlank cs with
  | [] => none
  | c :: rest => if c == close then some ([], rest) else readItems item close cs cs

private def readField (value : List Char → Option (Json × List Char)) (cs : List Char) :
    Option ((String × Json) × List Char) :=
  match skipBlank cs with
  | '"' :: cs => do
    let (key, cs) ← readString [] cs
    match skipBlank cs with
    | ':' :: cs =>
      let (v, cs) ← value cs
      return ((key, v), cs)
    | _ => none
  | _ => none

private def readValue : Nat → List Char → Option (Json × List Char)
  | 0, cs => readScalar (skipBlank cs)
  | depth + 1, cs =>
    match skipBlank cs with
    | '[' :: cs => (readBracketed (readValue depth) ']' cs).map fun (xs, cs) => (.arr xs, cs)
    | '{' :: cs =>
      (readBracketed (readField (readValue depth)) '}' cs).map fun (fs, cs) =>
        (.obj (sortFields fs), cs)
    | cs => readScalar cs

def ofText? (text : String) : Option Json :=
  match readValue maxDepth text.toList with
  | some (j, cs) => if (skipBlank cs).isEmpty then some j else none
  | none => none

def kindName : Json → String
  | .null => "null"
  | .bool _ => "a boolean"
  | .int _ => "a number"
  | .float _ => "a number"
  | .str _ => "a string"
  | .arr _ => "an array"
  | .obj _ => "an object"

end Json

end Stencil
