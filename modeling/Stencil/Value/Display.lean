import Stencil.Decimal.Shortest
import Stencil.Text.Visible
import Stencil.Value

/-!
# The text of a value

How a value is written into the output, and how diagnostics show it. Cells on the way into a value are
pairwise different unless the value contains itself, so the number of cells bounds the depth.
-/

namespace Stencil

/-- A double in full: the shortest decimal that reads back, without an exponent. -/
def Float.plainText (x : Float) : String :=
  match FloatView.of x with
  | .nan => "NaN"
  | .infinite negative => if negative then "-inf" else "inf"
  | .finite negative m q => (if negative then "-" else "") ++ (Decimal.shortest m q).positional

/-- A double in the output: below `10 ^ 16` a whole one keeps one decimal place. -/
def Float.text (x : Float) : String :=
  match FloatView.of x with
  | .nan => "NaN"
  | .infinite negative => if negative then "-Infinity" else "Infinity"
  | .finite negative m q =>
    let d := Decimal.shortest m q
    let whole := 0 ≤ d.exponent && d.digits * Nat.pow 10 d.exponent.toNat < Nat.pow 10 16
    (if negative then "-" else "") ++ d.positional ++ (if whole then ".0" else "")

namespace Value

/-- The text of a value whose parts are nested at most `depth` deep. -/
def displayWithin (σ : Store) : Nat → Value → String
  | _, null => "null"
  | _, bool b => if b then "true" else "false"
  | _, int n => toString n.toInt
  | _, float x => Float.text x
  | _, str s => s
  | _, object r => (σ.object r).text
  | 0, _ => ""
  | depth + 1, list r =>
    "[" ++ ", ".intercalate ((σ.items r).toList.map (displayWithin σ depth)) ++ "]"
  | depth + 1, map r =>
    "\x7b" ++
      ", ".intercalate ((σ.entries r).entries.map fun e => e.1 ++ "=" ++ displayWithin σ depth e.2) ++
      "\x7d"

def display (σ : Store) (v : Value) : String := v.displayWithin σ (σ.cells.size + 1)

/-- How diagnostics show a value whose parts are nested at most `depth` deep. -/
def diagnosticWithin (σ : Store) : Nat → Value → String
  | _, null => "Null"
  | _, bool b => "Bool(" ++ (if b then "true" else "false") ++ ")"
  | _, int n => "Int(" ++ toString n.toInt ++ ")"
  | _, float x => "Float(" ++ Float.plainText x ++ ")"
  | _, str s => "String(" ++ Text.showText s ++ ")"
  | _, object r => "Object(" ++ (σ.object r).diagnostic ++ ")"
  | 0, _ => ""
  | depth + 1, list r =>
    "[" ++ ", ".intercalate ((σ.items r).toList.map (diagnosticWithin σ depth)) ++ "]"
  | depth + 1, map r =>
    "\x7b" ++
      ", ".intercalate
        ((σ.entries r).entries.map fun e => Text.showText e.1 ++ ": " ++ diagnosticWithin σ depth e.2) ++
      "\x7d"

def diagnostic (σ : Store) (v : Value) : String := v.diagnosticWithin σ (σ.cells.size + 1)

end Value

end Stencil
