import Stencil.Ast
import Stencil.Error.Cause
import Stencil.Value.Equality

/-!
# Operators on values

Whole numbers stay whole and are exact or refused; with a double the operation is one on doubles; `+` joins
texts as soon as one side is a string. Main statement: whatever whole number comes out is the exact one.
-/

namespace Stencil

/-- The exact result of an operator on whole numbers. Division truncates, and the remainder has the sign
of the dividend. -/
def BinaryOp.onInt : BinaryOp → Int → Int → Option Int
  | add, a, b => some (a + b)
  | sub, a, b => some (a - b)
  | mul, a, b => some (a * b)
  | div, a, b => some (a.tdiv b)
  | mod, a, b => some (a.tmod b)
  | _, _, _ => none

/-- The exact result, if it fits a word. A remainder also needs the quotient that it goes with to fit. -/
def BinaryOp.onWord (op : BinaryOp) (a b : Int64) : Option Int64 :=
  if op = mod ∧ (int64? (a.toInt.tdiv b.toInt)).isNone then none
  else (op.onInt a.toInt b.toInt).bind int64?

/-- A word that comes out is the exact result. -/
theorem BinaryOp.onInt_of_onWord {op : BinaryOp} {a b n : Int64} (h : op.onWord a b = some n) :
    op.onInt a.toInt b.toInt = some n.toInt := by
  unfold onWord at h
  split at h
  · cases h
  · obtain ⟨k, hk, hn⟩ := Option.bind_eq_some_iff.mp h
    rw [hk, toInt_of_int64? hn]

def BinaryOp.onFloat : BinaryOp → Float → Float → Option Float
  | add, x, y => some (x + y)
  | sub, x, y => some (x - y)
  | mul, x, y => some (x * y)
  | div, x, y => some (x / y)
  | mod, x, y => some (Float.remainder x y)
  | _, _, _ => none

def BinaryOp.holds : BinaryOp → Ordering → Bool
  | lt, o => o == .lt
  | le, o => o != .gt
  | gt, o => o == .gt
  | ge, o => o != .lt
  | _, _ => false

namespace Value

def wholeArithmetic (op : BinaryOp) (a b : Int64) : Except Cause Value :=
  if b = 0 ∧ (op = .div ∨ op = .mod) then .error (.divisionByZero a.toInt op.symbol)
  else
    match op.onWord a b with
    | some n => .ok (int n)
    | none => .error (.render (.overflow a.toInt b.toInt op.symbol))

def arithmetic (σ : Store) (op : BinaryOp) (a b : Value) : Except Cause Value :=
  match op, a, b with
  | _, null, _ => .ok null
  | _, _, null => .ok null
  | .add, str s, b => .ok (str (s ++ b.display σ))
  | .add, a, str t => .ok (str (a.display σ ++ t))
  | op, int m, int n => wholeArithmetic op m n
  | op, a, b =>
    match a.asFloat?, b.asFloat? with
    | some x, some y =>
      match op.onFloat x y with
      | some z => .ok (float z)
      | none => .ok null
    | _, _ => .error (.render (.inapplicable (a.typeName σ) (b.typeName σ) op.symbol))

def ordered (σ : Store) (op : BinaryOp) (a b : Value) : Except Cause Value :=
  if a.isNull || b.isNull then .ok (bool false)
  else
    match a.compare? b with
    | some o => .ok (bool (op.holds o))
    | none => .error (.render (.incomparable (a.typeName σ) (b.typeName σ) op.symbol))

def binary (σ : Store) (op : BinaryOp) (a b : Value) : Except Cause Value :=
  match op with
  | .eq => .ok (bool (looseEqual σ a b))
  | .ne => .ok (bool !looseEqual σ a b)
  | .and => .ok (bool (a.isTrue σ && b.isTrue σ))
  | .or => .ok (bool (a.isTrue σ || b.isTrue σ))
  | .lt | .le | .gt | .ge => ordered σ op a b
  | .add | .sub | .mul | .div | .mod => arithmetic σ op a b

def negate (σ : Store) : Value → Except Cause Value
  | null => .ok null
  | int n =>
    match int64? (-n.toInt) with
    | some m => .ok (int m)
    | none => .error (.render (.negationOverflow n.toInt))
  | float x => .ok (float (-x))
  | v => .error (.render (.cannotNegate (v.typeName σ)))

end Value

end Stencil
