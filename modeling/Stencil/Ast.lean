import Stencil.Source

/-!
# Templates as trees

A template is a block of nodes. Nodes write text and steer the rendering; expressions have values. Every
node, expression, reference, segment and parameter knows its position.
-/

namespace Stencil

/-- Which scope a `#break` leaves. -/
inductive BreakTarget where
  /-- The innermost loop, macro or template. -/
  | innermost
  | foreach
  | macroBody
  | template
  /-- A label that no scope answers to. -/
  | unknown (label : String)
  deriving Repr, DecidableEq

def BreakTarget.ofLabel (label : String) : BreakTarget :=
  match label with
  | "foreach" => .foreach
  | "macro" => .macroBody
  | "template" => .template
  | _ => .unknown label

/-- Operators on one operand. -/
inductive UnaryOp where
  | not
  | neg
  deriving Repr, DecidableEq

/-- Operators on two operands. -/
inductive BinaryOp where
  | or
  | and
  | eq
  | ne
  | lt
  | le
  | gt
  | ge
  | add
  | sub
  | mul
  | div
  | mod
  deriving Repr, DecidableEq

def BinaryOp.symbol : BinaryOp → String
  | or => "||"
  | and => "&&"
  | eq => "=="
  | ne => "!="
  | lt => "<"
  | le => "<="
  | gt => ">"
  | ge => ">="
  | add => "+"
  | sub => "-"
  | mul => "*"
  | div => "/"
  | mod => "%"

def BinaryOp.level : BinaryOp → Nat
  | or => 1
  | and => 2
  | eq | ne => 3
  | lt | le | gt | ge => 4
  | add | sub => 5
  | mul | div | mod => 6

/-- Values written in a template. -/
inductive Literal where
  | null
  | bool (b : Bool)
  | int (n : Int64)
  | float (x : Float)
  | str (s : String)

mutual

/-- A node of a template. -/
structure Node where
  kind : NodeKind
  position : Position

/-- The kinds of nodes. -/
inductive NodeKind where
  /-- Text that is written as it is. -/
  | text (s : String)
  /-- A reference or directive behind a backslash, written without the backslash. -/
  | escaped (s : String)
  /-- The content of `#[[ … ]]#`. -/
  | raw (s : String)
  | comment
  | reference (r : Reference)
  /-- `#if` with its branches and `#else`. -/
  | conditional (branches : List Branch) (otherwise : Option (List Node))
  /-- `#foreach` with its `#else`. -/
  | loop (var : String) (iterable : Expr) (body : List Node) (otherwise : Option (List Node))
  /-- `#set`. -/
  | assign (target : Reference) (value : Expr)
  | macroDef (d : MacroDef)
  | macroCall (c : MacroCall)
  | parse (name : Expr)
  /-- `#include`. -/
  | inclusion (names : List Expr)
  | evaluate (text : Expr)
  | stop
  /-- `#break`. -/
  | leave (scope : BreakTarget)

/-- A condition of an `#if` and what it guards. -/
structure Branch where
  condition : Expr
  body : List Node

/-- The definition of a macro, with the source that it stands in. -/
structure MacroDef where
  name : String
  params : List Param
  body : List Node
  source : Source
  position : Position

/-- A parameter of a macro and the expression that stands in for a missing argument. -/
structure Param where
  name : String
  fallback : Option Expr
  position : Position

/-- A call of a macro; `literal` is its text, which stands for it where the macro is unknown. -/
structure MacroCall where
  name : String
  args : List Argument
  body : Option (List Node)
  literal : String

/-- An argument of a macro call, which may be named. -/
structure Argument where
  name : Option String
  value : Expr

/-- An expression. -/
structure Expr where
  kind : ExprKind
  position : Position

/-- The kinds of expressions. -/
inductive ExprKind where
  | literal (l : Literal)
  /-- A string in double quotes with references or directives in it. -/
  | interpolated (body : List Node)
  | reference (r : Reference)
  | list (items : List Expr)
  | map (entries : List Entry)
  /-- `[lower..upper]`, both ends included. -/
  | range (lower upper : Expr)
  | unary (op : UnaryOp) (operand : Expr)
  | binary (op : BinaryOp) (left right : Expr)
  /-- A word without quotes in the place of an argument. -/
  | bareWord (word : String)

/-- An entry of a map literal. -/
structure Entry where
  key : Expr
  value : Expr

/-- A reference; `literal` is its text, which stands for it where it has no value. -/
structure Reference where
  root : String
  /-- Whether it is written `$!` and stands for nothing where it has no value. -/
  quiet : Bool
  segments : List Segment
  literal : String
  position : Position

/-- A step of a reference. -/
structure Segment where
  kind : SegmentKind
  position : Position

/-- The kinds of steps. -/
inductive SegmentKind where
  | property (name : String)
  | method (name : String) (args : List Expr)
  | index (i : Expr)

end

abbrev Block := List Node

def NodeKind.name : NodeKind → String
  | text _ => "text"
  | escaped _ => "escape"
  | raw _ => "raw"
  | comment => "comment"
  | reference _ => "reference"
  | conditional .. => "#if"
  | loop .. => "#foreach"
  | assign .. => "#set"
  | macroDef _ => "#macro"
  | macroCall _ => "macro call"
  | parse _ => "#parse"
  | inclusion _ => "#include"
  | evaluate _ => "#evaluate"
  | stop => "#stop"
  | leave _ => "#break"

def Node.text? (n : Node) : Option String :=
  match n.kind with
  | .text s => some s
  | _ => none

def MacroDef.param? (d : MacroDef) (name : String) : Option Param :=
  d.params.find? (·.name == name)

/-- What a segment asks for, as messages name it. -/
def SegmentKind.access : SegmentKind → String
  | property name => s!"'.{name}'"
  | method name _ => s!"'.{name}(...)'"
  | index _ => "an index"

end Stencil
