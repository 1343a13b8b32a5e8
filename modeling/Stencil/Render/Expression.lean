import Stencil.Render.Reference
import Stencil.Value.Operators

/-!
# Expressions

The values of expressions, given how to evaluate their parts and how to render the blocks in their
strings. In a condition, a reference without segments may lead to nothing even where references are
strict; the logical operators and the equalities pass that on.
-/

namespace Stencil

def Literal.value : Literal → Value
  | null => .null
  | bool b => .bool b
  | int n => .int n
  | float x => .float x
  | str s => .str s

/-- The number of whole numbers from one bound to the other. -/
def rangeLength (lower upper : Int64) : Nat := (lower.toInt - upper.toInt).natAbs + 1

/-- The step from a whole number to the next one on the way from one bound to the other. -/
def rangeStep (lower upper : Int64) : Int64 := if lower ≤ upper then 1 else -1

/-- The first `n` whole numbers that are reached from one in steps, up to the last one. -/
def rangeWords (step last : Int64) : Nat → Int64 → List Int64
  | 0, _ => []
  | n + 1, k => k :: if k = last then [] else rangeWords step last n (k + step)

/-- The first `n` whole numbers from one bound on towards the other. -/
def rangeItems (lower upper : Int64) (n : Nat) : List Value :=
  (rangeWords (rangeStep lower upper) upper n lower).map .int

/-- What a render does with the expressions and blocks that it finds inside a node or an expression. -/
structure Interpreter where
  /-- The value of an expression, which may be part of a condition. -/
  eval : Bool → Expr → Render Value
  render : Block → Render Flow

namespace Interpreter

/-- The value of an expression that is no part of a condition. -/
def value (self : Interpreter) (e : Expr) : Render Value := self.eval false e

/-- Refuses null as an operand where references are strict. -/
def refuseNull (v : Value) (operator : String) (operand : Expr) : Render Unit := do
  if v.isNull && (← Render.strict) then
    Render.fail (.render (.nullOperand operator)) operand.position

def bounds (self : Interpreter) (lower upper : Expr) (p : Position) : Render (Int64 × Int64) := do
  let a ← self.value lower
  let b ← self.value upper
  match a.asInt?, b.asInt? with
  | some m, some n => return (m, n)
  | _, _ =>
    Render.fail (.render (.rangeBounds (← Render.ask a.typeName) (← Render.ask b.typeName))) p

def checkRange (m n : Int64) (p : Position) : Render Unit := do
  let limit := (← read).settings.rangeMaxSize
  if limit < rangeLength m n then
    Render.fail (.render (.rangeTooLong m.toInt n.toInt limit)) p

/-- The entries of a map literal, each key before its value. -/
def entries (self : Interpreter) : List Entry → Dict Value → Render (Dict Value)
  | [], d => return d
  | e :: es, d => do
    let key ← Render.display (← self.value e.key)
    let v ← self.value e.value
    self.entries es (d.insert key v)

/-- The value of a logical operator, whose right side counts only where the left does not decide. -/
def logical (self : Interpreter) (lenient : Bool) (decisive : Bool) (left right : Expr) :
    Render Value := do
  let a ← self.eval lenient left
  if (← Render.ask a.isTrue) == decisive then return .bool decisive
  let b ← self.eval lenient right
  return .bool (← Render.ask b.isTrue)

def operation (self : Interpreter) (lenient : Bool) (op : BinaryOp) (left right : Expr)
    (p : Position) : Render Value := do
  let equality := op == .eq || op == .ne
  let a ← self.eval (lenient && equality) left
  let b ← self.eval (lenient && equality) right
  if !equality then
    refuseNull a op.symbol left
    refuseNull b op.symbol right
  Render.orFail p (← Render.ask fun σ => Value.binary σ op a b)

def evaluate (self : Interpreter) (lenient : Bool) (e : Expr) : Render Value := do
  match e.kind with
  | .literal l => return l.value
  | .interpolated body =>
    let (_, text) ← (self.render body).captured
    return .str text
  | .reference r => Render.reference self.value r lenient
  | .list items =>
    let vs ← items.mapM self.value
    Render.change (·.newList vs.toArray)
  | .map es =>
    let d ← self.entries es ∅
    Render.change (·.newMap d)
  | .range lower upper =>
    let (m, n) ← self.bounds lower upper e.position
    checkRange m n e.position
    Render.change (·.newList (rangeItems m n (rangeLength m n)).toArray)
  | .unary .not operand =>
    let v ← self.eval lenient operand
    return .bool !(← Render.ask v.isTrue)
  | .unary .neg operand =>
    let v ← self.value operand
    refuseNull v "-" operand
    Render.orFail e.position (← Render.ask v.negate)
  | .binary .and left right => self.logical lenient false left right
  | .binary .or left right => self.logical lenient true left right
  | .binary op left right => self.operation lenient op left right e.position
  | .bareWord word => Render.fail (.render (.bareWord word)) e.position

end Interpreter

end Stencil
