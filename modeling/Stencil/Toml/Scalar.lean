import Stencil.Text.Hex
import Stencil.Toml

/-!
# Scalars of TOML

The values of strings, numbers and moments from their text, which has the form that the grammar asks for.
-/

namespace Stencil.Toml

def escape? : Char → Option Char
  | 'b' => some '\x08'
  | 't' => some '\t'
  | 'n' => some '\n'
  | 'f' => some '\x0c'
  | 'r' => some '\r'
  | '"' => some '"'
  | '\\' => some '\\'
  | _ => none

/-- The text between double quotes. A backslash at the end of a line takes the blanks and ends of lines after
it away, which `joining` says; other ends of lines become line feeds. -/
def unescape (joining : Bool) : List Char → Option (List Char)
  | [] => some []
  | '\\' :: 'u' :: a :: b :: c :: d :: cs =>
    (Text.char? (Text.natOfBase 16 [a, b, c, d])).bind fun x => (unescape false cs).map (x :: ·)
  | '\\' :: 'U' :: a :: b :: c :: d :: e :: f :: g :: h :: cs =>
    (Text.char? (Text.natOfBase 16 [a, b, c, d, e, f, g, h])).bind fun x =>
      (unescape false cs).map (x :: ·)
  | '\\' :: c :: cs =>
    match escape? c with
    | some x => (unescape false cs).map (x :: ·)
    | none => unescape true cs
  | '\r' :: '\n' :: cs =>
    if joining then unescape true cs else (unescape false cs).map ('\n' :: ·)
  | c :: cs =>
    if joining && (c == ' ' || c == '\t' || c == '\n') then unescape true cs
    else (unescape false cs).map (c :: ·)

def plainLines : List Char → List Char
  | '\r' :: '\n' :: cs => '\n' :: plainLines cs
  | c :: cs => c :: plainLines cs
  | [] => []

def inner (n : Nat) (cs : List Char) : List Char := (cs.drop n).take (cs.length - 2 * n)

def afterLineEnd : List Char → List Char
  | '\n' :: cs => cs
  | '\r' :: '\n' :: cs => cs
  | cs => cs

def integer? (cs : List Char) : Option Int64 :=
  match cs.filter (· != '_') with
  | '0' :: 'x' :: ds => int64? (Text.natOfBase 16 ds)
  | '0' :: 'o' :: ds => int64? (Text.natOfBase 8 ds)
  | '0' :: 'b' :: ds => int64? (Text.natOfBase 2 ds)
  | ds => readInt64? ds

/-- The value of a number with a fraction or an exponent. A numeral above all doubles has none. -/
def float? (cs : List Char) : Option Float :=
  let ds := cs.filter (· != '_')
  (readFloat? ds).bind fun x =>
    if x.isInf && 0.0 < x && !ds.contains 'f' then none else some x

def daysIn (year month : Nat) : Nat :=
  match month with
  | 2 => if year % 4 = 0 ∧ (year % 100 ≠ 0 ∨ year % 400 = 0) then 29 else 28
  | 4 | 6 | 9 | 11 => 30
  | _ => 31

def isDate (cs : List Char) : Bool :=
  let year := natOfDigits (cs.take 4)
  let month := natOfDigits ((cs.drop 5).take 2)
  let day := natOfDigits ((cs.drop 8).take 2)
  1 ≤ month && month ≤ 12 && 1 ≤ day && day ≤ daysIn year month

def isClock (cs : List Char) : Bool :=
  natOfDigits (cs.take 2) ≤ 23 && natOfDigits ((cs.drop 3).take 2) ≤ 59

/-- Whether digits name a time of day, with a zone if one follows. -/
def isTime (cs : List Char) : Bool :=
  let zone := ((cs.drop 8).dropWhile fun c => c == '.' || c.isDigit).drop 1
  isClock cs && natOfDigits ((cs.drop 6).take 2) ≤ 60 && (zone.isEmpty || isClock zone)

def isMoment (cs : List Char) : Bool :=
  if cs[2]? == some ':' then isTime cs
  else isDate cs && (cs.length ≤ 10 || isTime (cs.drop 11))

end Stencil.Toml
