import Stencil.Ast
import Stencil.Ast.Site
import Stencil.Decimal.Reading

/-!
# From matches to nodes

Every rule of the grammar has a meaning: what its match stands for, given what the matches inside it
stand for. The meaning of a whole template is its block of nodes.
-/

namespace Stencil

/-! ### Joining text -/

def Node.join? (a b : Node) : Option Node :=
  match a.kind, b.kind with
  | .text s, .text t =>
    if a.position.span.stop = b.position.span.start then
      some ⟨.text (s ++ t), { a.position with span := ⟨a.position.span.start, b.position.span.stop⟩ }⟩
    else none
  | _, _ => none

/-- Joins all nodes of text that touch, so that text comes in whole runs. -/
def joinTexts : Block → Block
  | [] => []
  | n :: ns =>
    match joinTexts ns with
    | [] => [n]
    | m :: ms =>
      match n.join? m with
      | some k => k :: ms
      | none => n :: m :: ms

/-! ### Operators -/

def Position.to (first last : Position) : Position :=
  { first with span := ⟨first.span.start, last.span.stop⟩ }

/-- Applies an operator in front of an operand; a minus before a number makes it negative, where there
is such a number. -/
def Expr.ofPrefix (op : UnaryOp) (start : Position) (operand : Expr) : Expr :=
  let p := start.to operand.position
  match op, operand.kind with
  | .neg, .literal (.int n) =>
    if n = Int64.minValue then ⟨.unary .neg operand, p⟩ else ⟨.literal (.int (-n)), p⟩
  | .neg, .literal (.float x) => ⟨.literal (.float (-x)), p⟩
  | op, _ => ⟨.unary op operand, p⟩

def Expr.ofInfix (op : BinaryOp) (left right : Expr) : Expr :=
  ⟨.binary op left right, left.position.to right.position⟩

/-- Left operands that wait for their right ones, the last first, with their operators. -/
abbrev Pending := List (Expr × BinaryOp)

/-- Completes the pending operators that bind at least as tightly as `level`, the last one with the
operand `e`. -/
def Pending.complete (level : Nat) : Pending → Expr → Pending × Expr
  | (l, op) :: rest, e =>
    if level ≤ op.level then Pending.complete level rest (.ofInfix op l e) else ((l, op) :: rest, e)
  | [], e => ([], e)

/-- Reads operators and operands from left to right into one expression. Operators of one level group to
the left. -/
def Expr.ofOperands (pending : Pending) (e : Expr) : List (BinaryOp × Expr) → Expr
  | [] => (pending.complete 0 e).2
  | (op, f) :: rest =>
    let (pending, e) := pending.complete op.level e
    Expr.ofOperands ((e, op) :: pending) f rest

/-! ### Parts -/

/-- What a match stands for. -/
inductive Part where
  /-- A match that only marks a place. -/
  | mark
  /-- A word and where its text starts. -/
  | word (text : List Char) (start : Nat)
  | node (n : Node)
  | block (b : Block)
  | branch (b : Branch)
  | otherwise (b : Block)
  | loopHead (var : String) (iterable : Expr)
  | macroHead (name : String) (params : List Param)
  | param (p : Param)
  | callHead (name : String) (args : List Argument)
  | args (as : List Argument)
  | arg (a : Argument)
  | expr (e : Expr)
  | unaryOp (op : UnaryOp) (position : Position)
  | binaryOp (op : BinaryOp)
  | entry (e : Entry)
  | reference (r : Reference)
  | quiet
  | path (root : String) (segments : List Segment)
  | segment (s : Segment)

namespace Part

private def missing {α : Type} (what : String) : Except Failure α :=
  .error (.of (.parse (.missing what) ""))

def toNode : Part → Except Failure Node
  | node n => .ok n
  | reference r => .ok ⟨.reference r, r.position⟩
  | _ => missing "node"

def toExpr : Part → Except Failure Expr
  | expr e => .ok e
  | reference r => .ok ⟨.reference r, r.position⟩
  | _ => missing "expression"

def toParam : Part → Except Failure Param
  | param p => .ok p
  | _ => missing "parameter"

def toArg : Part → Except Failure Argument
  | arg a => .ok a
  | _ => missing "argument"

def toEntry : Part → Except Failure Entry
  | entry e => .ok e
  | _ => missing "map entry"

def toSegment : Part → Except Failure Segment
  | segment s => .ok s
  | _ => missing "segment"

def branches (parts : List Part) : List Branch :=
  parts.filterMap fun
    | branch b => some b
    | _ => none

/-- The last `#else` among the parts. -/
def otherwise? (parts : List Part) : Option Block :=
  parts.foldl (fun found part =>
    match part with
    | otherwise b => some b
    | _ => found) none

def soleExpr (what : String) : List Part → Except Failure Expr
  | [p] => p.toExpr
  | _ => missing what

/-- A conditional from its head, its body and what follows them. -/
def conditional : List Part → Except Failure NodeKind
  | expr c :: block b :: rest => .ok (.conditional (⟨c, b⟩ :: branches rest) (otherwise? rest))
  | _ => missing "#if condition"

def loop : List Part → Except Failure NodeKind
  | loopHead var e :: block b :: rest => .ok (.loop var e b (otherwise? rest))
  | _ => missing "#foreach"

def assignment : List Part → Except Failure NodeKind
  | [reference target, value] => return .assign target (← value.toExpr)
  | _ => missing "#set target"

def definition (site : Site) (p : Position) : List Part → Except Failure NodeKind
  | macroHead name params :: block b :: _ => .ok (.macroDef ⟨name, params, b, site.source, p⟩)
  | _ => missing "#macro"

def parameter (p : Position) : List Part → Except Failure Part
  | [word name _] => .ok (param ⟨String.ofList name, none, p⟩)
  | [word name _, value] => return param ⟨String.ofList name, some (← value.toExpr), p⟩
  | _ => missing "parameter name"

def blockCall (literal : String) : List Part → Except Failure NodeKind
  | callHead name as :: block b :: _ => .ok (.macroCall ⟨name, as, some b, literal⟩)
  | _ => missing "block macro call"

def call : List Part → Except Failure (String × List Argument)
  | [word name _, args as] => .ok (String.ofList name, as)
  | _ => missing "macro arguments"

/-- An expression from the operators and operands that follow its first operand or stand before it. -/
def operation (pending : List (UnaryOp × Position)) (chain : List (BinaryOp × Expr))
    (op? : Option BinaryOp) (first? : Option Expr) : List Part → Except Failure Expr
  | [] =>
    match first? with
    | some e => .ok (Expr.ofOperands [] e chain.reverse)
    | none => missing "expression"
  | unaryOp op p :: rest => operation ((op, p) :: pending) chain op? first? rest
  | binaryOp op :: rest => operation [] chain (some op) first? rest
  | part :: rest => do
    let operand := pending.foldl (fun e (op, p) => .ofPrefix op p e) (← part.toExpr)
    match op?, first? with
    | some op, some _ => operation [] ((op, operand) :: chain) none first? rest
    | _, _ => operation [] chain none (some operand) rest

def pathOf : List Part → Except Failure (String × List Segment)
  | [path root segments] => .ok (root, segments)
  | word root _ :: segments => return (String.ofList root, ← segments.mapM toSegment)
  | _ => missing "reference"

def referenceOf (literal : String) (p : Position) (parts : List Part) : Except Failure Reference := do
  let (isQuiet, parts) :=
    match parts with
    | quiet :: parts => (true, parts)
    | parts => (false, parts)
  let (root, segments) ← pathOf parts
  return ⟨root, isQuiet, segments, literal, p⟩

end Part

/-! ### Literals -/

/-- The value that a number stands for: a float if it has a point or an exponent. -/
def Literal.ofNumber (text : List Char) : Except ParseFault Literal :=
  if text.any fun c => c == '.' || c == 'e' || c == 'E' then
    match readFloat? text with
    | some x => .ok (.float x)
    | none => .error (.missing "digits")
  else
    match readInt64? text with
    | some n => .ok (.int n)
    | none => .error .integerOutOfRange

/-- The content of a string in single quotes, in which a quote is written twice. -/
def undouble : List Char → List Char
  | '\'' :: '\'' :: cs => '\'' :: undouble cs
  | c :: cs => c :: undouble cs
  | [] => []

/-- Reads a string in double quotes, given how to read its content as a template: without references and
directives it is a plain string. -/
def ExprKind.ofQuoted (site : Site) (inner : Site → List Char → Except Failure Block)
    (text : List Char) (start : Nat) : Except Failure ExprKind := do
  let (content, origins) := Quoted.unescape start text
  if !content.any fun c => c == '$' || c == '#' then
    return .literal (.str (String.ofList content))
  let block ← inner (site.within origins) content
  match block.mapM Node.text? with
  | some texts => return .literal (.str (String.join texts))
  | none => return .interpolated block

/-! ### Meanings -/

def Rule.binaryOp? : Rule → Option BinaryOp
  | opOr => some .or
  | opAnd => some .and
  | opEq => some .eq
  | opNe => some .ne
  | opLe => some .le
  | opGe => some .ge
  | opLt => some .lt
  | opGt => some .gt
  | opAdd => some .add
  | opSub => some .sub
  | opMul => some .mul
  | opDiv => some .div
  | opMod => some .mod
  | _ => none

/-- What the match of a rule from `c` to `d` stands for, given its parts and how to read the content of
a string as a template. -/
def Rule.meaning (site : Site) (inner : Site → List Char → Except Failure Block) (r : Rule)
    (c d : Cursor) (parts : List Part) : Except Failure Part :=
  let chars := c.upTo d
  let text := String.ofList chars
  let node (kind : NodeKind) : Part := .node ⟨kind, site.position c d⟩
  let expr (kind : ExprKind) : Part := .expr ⟨kind, site.position c d⟩
  match r with
  | ending | elseHead | endMarker => .ok .mark
  | template =>
    match parts with
    | .block b :: _ => .ok (.block b)
    | _ => .error (.of (.parse (.missing "template body") ""))
  | block => return .block (joinTexts (← parts.mapM Part.toNode))
  | Rule.text | stray => .ok (node (.text text))
  | lineComment | blockComment => .ok (node .comment)
  | rawBlock =>
    match parts with
    | [.word content _] => .ok (node (.raw (String.ofList content)))
    | _ => .error (.of (.parse (.missing "raw content") ""))
  | rawContent | macroName | ident | dqInner | sqInner => .ok (.word chars c.offset)
  | unterminated =>
    let f := if text = "#*" then ParseFault.unterminatedComment else .unterminatedRaw
    .error (site.fault c d f)
  | escaped => .ok (node (.escaped (String.ofList chars.tail)))
  | ifDirective => return node (← Part.conditional parts)
  | ifHead | elseifHead => return .expr (← Part.soleExpr "condition" parts)
  | elseifBranch =>
    match parts with
    | [.expr condition, .block b] => .ok (.branch ⟨condition, b⟩)
    | _ => .error (.of (.parse (.missing "#elseif condition") ""))
  | elseBranch =>
    match parts with
    | [_, .block b] => .ok (.otherwise b)
    | _ => .error (.of (.parse (.missing "#else body") ""))
  | foreachDirective => return node (← Part.loop parts)
  | foreachHead =>
    match parts with
    | [.word var _, iterable] => return .loopHead (String.ofList var) (← iterable.toExpr)
    | _ => .error (.of (.parse (.missing "loop variable") ""))
  | loopVar =>
    match parts with
    | [.word name start] => .ok (.word name start)
    | _ => .error (.of (.parse (.missing "loop variable name") ""))
  | setDirective => return node (← Part.assignment parts)
  | macroDirective => return node (← Part.definition site (site.position c d) parts)
  | macroHead =>
    match parts with
    | .word name _ :: params => return .macroHead (String.ofList name) (← params.mapM Part.toParam)
    | _ => .error (.of (.parse (.missing "macro name") ""))
  | macroParam => Part.parameter (site.position c d) parts
  | parseDirective => return node (.parse (← Part.soleExpr "#parse argument" parts))
  | includeDirective => return node (.inclusion (← parts.mapM Part.toExpr))
  | evaluateDirective => return node (.evaluate (← Part.soleExpr "#evaluate argument" parts))
  | stopDirective => .ok (node .stop)
  | breakDirective =>
    match parts with
    | .word label _ :: _ => .ok (node (.leave (.ofLabel (String.ofList label))))
    | _ => .ok (node (.leave .innermost))
  | blockMacroCall => return node (← Part.blockCall text parts)
  | blockCallHead => return let (name, as) := ← Part.call parts; .callHead name as
  | macroCall => return let (name, as) := ← Part.call parts; node (.macroCall ⟨name, as, none, text⟩)
  | macroArgs => return .args (← parts.mapM Part.toArg)
  | namedArg =>
    match parts with
    | [.word name _, value] => return .arg ⟨some (String.ofList name), ← value.toExpr⟩
    | _ => .error (.of (.parse (.missing "argument name") ""))
  | positionalArg => return .arg ⟨none, ← Part.soleExpr "argument" parts⟩
  | bareWord => .ok (expr (.bareWord text))
  | Rule.expr => return .expr (← Part.operation [] [] none none parts)
  | opNot => .ok (.unaryOp .not (site.position c d))
  | opNeg => .ok (.unaryOp .neg (site.position c d))
  | opOr | opAnd | opEq | opNe | opLe | opGe | opLt | opGt | opAdd | opSub | opMul | opDiv | opMod =>
    match r.binaryOp? with
    | some op => .ok (.binaryOp op)
    | none => .ok .mark
  | range =>
    match parts with
    | [lower, upper] => return expr (.range (← lower.toExpr) (← upper.toExpr))
    | _ => .error (.of (.parse (.missing "range start") ""))
  | list => return expr (.list (← parts.mapM Part.toExpr))
  | map => return expr (.map (← parts.mapM Part.toEntry))
  | mapEntry =>
    match parts with
    | [key, value] => return .entry ⟨← key.toExpr, ← value.toExpr⟩
    | _ => .error (.of (.parse (.missing "map key") ""))
  | dqString =>
    match parts with
    | [.word content start] => return expr (← ExprKind.ofQuoted site inner content start)
    | _ => .error (.of (.parse (.missing "string content") ""))
  | sqString =>
    match parts with
    | [.word content _] => .ok (expr (.literal (.str (String.ofList (undouble content)))))
    | _ => .error (.of (.parse (.missing "string content") ""))
  | number =>
    match Literal.ofNumber chars with
    | .ok l => .ok (expr (.literal l))
    | .error f => .error (site.fault c d f)
  | boolean => .ok (expr (.literal (.bool (text = "true"))))
  | nullLit => .ok (expr (.literal .null))
  | reference => return .reference (← Part.referenceOf text (site.position c d) parts)
  | Rule.quiet => .ok .quiet
  | formal => return let (root, segments) := ← Part.pathOf parts; .path root segments
  | methodCall =>
    match parts with
    | .word name _ :: as =>
      return .segment ⟨.method (String.ofList name) (← as.mapM Part.toExpr), site.position c d⟩
    | _ => .error (.of (.parse (.missing "method name") ""))
  | property =>
    match parts with
    | [.word name _] => .ok (.segment ⟨.property (String.ofList name), site.position c d⟩)
    | _ => .error (.of (.parse (.missing "property name") ""))
  | index => return .segment ⟨.index (← Part.soleExpr "index expression" parts), site.position c d⟩

/-- Reads a text as a block of nodes, with strings in strings up to the given depth. -/
def readBlock : Nat → Site → List Char → Except Failure Block
  | 0, _, _ => .error (.of (.parse (.missing "template") ""))
  | depth + 1, site, cs =>
    match readTree cs with
    | .error refusal => .error (site.refused cs refusal)
    | .ok tree =>
      match tree.eval (Rule.meaning site (readBlock depth)) with
      | .ok (.block b) => .ok b
      | .ok _ => .error (.of (.parse (.missing "template") ""))
      | .error f => .error f

/-- A text is read as the block that its tree means. -/
theorem readBlock_eq_ok_iff {depth : Nat} {site : Site} {cs : List Char} {b : Block} :
    readBlock (depth + 1) site cs = .ok b ↔
      ∃ t, readTree cs = .ok t ∧ t.eval (Rule.meaning site (readBlock depth)) = .ok (.block b) := by
  unfold readBlock
  cases ht : readTree cs with
  | error refusal => exact ⟨nofun, nofun⟩
  | ok t =>
    dsimp only
    constructor
    · intro h
      split at h
      · next meant =>
        cases h
        exact ⟨t, rfl, meant⟩
      · cases h
      · cases h
    · rintro ⟨u, ⟨⟩, meant⟩
      rw [meant]

end Stencil
