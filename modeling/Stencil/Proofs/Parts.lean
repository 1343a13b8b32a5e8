import Mathlib.Tactic.Lemma
import Stencil.Ast

/-!
# The parts of a tree

The expressions and the blocks that stand directly in a node or in an expression, and the positions at which it may
fail. Evaluating an expression asks only for its parts, and so does rendering a node until it calls a macro or opens
a template. Main statements: every part is smaller than what it is a part of.
-/

namespace Stencil

def SegmentKind.exprs : SegmentKind → List Expr
  | property _ => []
  | method _ args => args
  | index i => [i]

def Reference.exprs (r : Reference) : List Expr := r.segments.flatMap (·.kind.exprs)

def ExprKind.exprs : ExprKind → List Expr
  | literal _ => []
  | interpolated _ => []
  | reference r => r.exprs
  | list items => items
  | map entries => entries.flatMap fun e => [e.key, e.value]
  | range lower upper => [lower, upper]
  | unary _ operand => [operand]
  | binary _ left right => [left, right]
  | bareWord _ => []

def ExprKind.blocks : ExprKind → List Block
  | interpolated body => [body]
  | _ => []

/-- The expressions directly in a node; a loop also reads the bounds of a range that it goes through. -/
def NodeKind.exprs : NodeKind → List Expr
  | reference r => r.exprs
  | conditional branches _ => branches.map (·.condition)
  | loop _ iterable _ _ => iterable :: iterable.kind.exprs
  | assign target value => value :: target.exprs
  | macroCall c => c.args.map (·.value)
  | parse name => [name]
  | inclusion names => names
  | evaluate e => [e]
  | _ => []

/-- The blocks directly in a node. The body of a macro's definition is not among them: it is run by calls. -/
def NodeKind.blocks : NodeKind → List Block
  | conditional branches otherwise => branches.map (·.body) ++ otherwise.toList
  | loop _ _ body otherwise => body :: otherwise.toList
  | macroCall c => c.body.toList
  | _ => []

/-! ### Places -/

def Reference.places (r : Reference) : List Position := r.position :: r.segments.map (·.position)

/-- The positions at which evaluating an expression may fail, apart from its parts. -/
def Expr.places (e : Expr) : List Position :=
  e.position ::
    match e.kind with
    | .reference r => r.places
    | .unary _ operand => [operand.position]
    | .binary _ left right => [left.position, right.position]
    | _ => []

/-- The positions at which rendering a node may fail, apart from its parts and from what it calls. -/
def Node.places (n : Node) : List Position :=
  n.position ::
    match n.kind with
    | .reference r => r.places
    | .loop _ iterable _ _ => [iterable.position]
    | .assign target _ => target.places
    | .macroCall c => c.args.map (·.value.position)
    | .parse name => [name.position]
    | .inclusion names => names.map (·.position)
    | _ => []

/-! ### Sizes -/

lemma SegmentKind.sizeOf_exprs {k : SegmentKind} {e : Expr} (h : e ∈ k.exprs) :
    sizeOf e < sizeOf k := by
  cases k with
  | property name => cases h
  | method name args =>
    have := List.sizeOf_lt_of_mem (show e ∈ args from h)
    simp only [SegmentKind.method.sizeOf_spec]
    omega
  | index i =>
    obtain rfl := List.mem_singleton.mp h
    simp only [SegmentKind.index.sizeOf_spec]
    omega

lemma Reference.sizeOf_exprs {r : Reference} {e : Expr} (h : e ∈ r.exprs) :
    sizeOf e < sizeOf r := by
  obtain ⟨segment, hs, he⟩ := List.mem_flatMap.mp h
  have h₁ := SegmentKind.sizeOf_exprs he
  have h₂ := List.sizeOf_lt_of_mem hs
  cases r
  cases segment
  simp only [Segment.mk.sizeOf_spec, Reference.mk.sizeOf_spec] at *
  omega

/-- An expression in another one is smaller. -/
theorem Expr.sizeOf_exprs {x e : Expr} (h : e ∈ x.kind.exprs) : sizeOf e < sizeOf x := by
  obtain ⟨kind, p⟩ := x
  suffices sizeOf e < sizeOf kind by simp only [Expr.mk.sizeOf_spec]; omega
  cases kind with
  | literal l => cases h
  | interpolated body => cases h
  | bareWord word => cases h
  | reference r =>
    have := Reference.sizeOf_exprs (show e ∈ r.exprs from h)
    simp only [ExprKind.reference.sizeOf_spec]
    omega
  | list items =>
    have := List.sizeOf_lt_of_mem (show e ∈ items from h)
    simp only [ExprKind.list.sizeOf_spec]
    omega
  | map entries =>
    obtain ⟨⟨key, value⟩, hm, he⟩ := List.mem_flatMap.mp (show e ∈ entries.flatMap _ from h)
    have := List.sizeOf_lt_of_mem hm
    simp only [List.mem_cons, List.not_mem_nil, or_false] at he
    simp only [Entry.mk.sizeOf_spec, ExprKind.map.sizeOf_spec] at *
    rcases he with rfl | rfl <;> omega
  | range lower upper =>
    simp only [ExprKind.exprs, List.mem_cons, List.not_mem_nil, or_false] at h
    simp only [ExprKind.range.sizeOf_spec]
    rcases h with rfl | rfl <;> omega
  | unary op operand =>
    obtain rfl := List.mem_singleton.mp (show e ∈ [operand] from h)
    simp only [ExprKind.unary.sizeOf_spec]
    omega
  | binary op left right =>
    simp only [ExprKind.exprs, List.mem_cons, List.not_mem_nil, or_false] at h
    simp only [ExprKind.binary.sizeOf_spec]
    rcases h with rfl | rfl <;> omega

/-- A block in an expression is smaller. -/
theorem Expr.sizeOf_blocks {x : Expr} {b : Block} (h : b ∈ x.kind.blocks) : sizeOf b < sizeOf x := by
  obtain ⟨kind, p⟩ := x
  cases kind with
  | interpolated body =>
    obtain rfl := List.mem_singleton.mp (show b ∈ [body] from h)
    simp only [Expr.mk.sizeOf_spec, ExprKind.interpolated.sizeOf_spec]
    omega
  | _ => cases h

/-- An expression in a node is smaller. -/
theorem Node.sizeOf_exprs {n : Node} {e : Expr} (h : e ∈ n.kind.exprs) : sizeOf e < sizeOf n := by
  obtain ⟨kind, p⟩ := n
  suffices sizeOf e < sizeOf kind by simp only [Node.mk.sizeOf_spec]; omega
  cases kind with
  | reference r =>
    have := Reference.sizeOf_exprs (show e ∈ r.exprs from h)
    simp only [NodeKind.reference.sizeOf_spec]
    omega
  | conditional branches otherwise =>
    obtain ⟨⟨condition, body⟩, hb, rfl⟩ := List.mem_map.mp (show e ∈ branches.map _ from h)
    have := List.sizeOf_lt_of_mem hb
    simp only [Branch.mk.sizeOf_spec, NodeKind.conditional.sizeOf_spec] at *
    omega
  | loop var iterable body otherwise =>
    simp only [NodeKind.loop.sizeOf_spec]
    rcases List.mem_cons.mp (show e ∈ iterable :: iterable.kind.exprs from h) with rfl | he
    · omega
    · have := Expr.sizeOf_exprs he
      omega
  | assign target value =>
    simp only [NodeKind.assign.sizeOf_spec]
    rcases List.mem_cons.mp (show e ∈ value :: target.exprs from h) with rfl | he
    · omega
    · have := Reference.sizeOf_exprs he
      omega
  | macroCall c =>
    obtain ⟨name, args, body, literal⟩ := c
    obtain ⟨⟨label, value⟩, ha, rfl⟩ := List.mem_map.mp (show e ∈ args.map _ from h)
    have := List.sizeOf_lt_of_mem ha
    simp only [Argument.mk.sizeOf_spec, MacroCall.mk.sizeOf_spec, NodeKind.macroCall.sizeOf_spec] at *
    omega
  | parse name =>
    obtain rfl := List.mem_singleton.mp (show e ∈ [name] from h)
    simp only [NodeKind.parse.sizeOf_spec]
    omega
  | inclusion names =>
    have := List.sizeOf_lt_of_mem (show e ∈ names from h)
    simp only [NodeKind.inclusion.sizeOf_spec]
    omega
  | evaluate text =>
    obtain rfl := List.mem_singleton.mp (show e ∈ [text] from h)
    simp only [NodeKind.evaluate.sizeOf_spec]
    omega
  | _ => cases h

/-- A block in a node is smaller. -/
theorem Node.sizeOf_blocks {n : Node} {b : Block} (h : b ∈ n.kind.blocks) : sizeOf b < sizeOf n := by
  obtain ⟨kind, p⟩ := n
  suffices sizeOf b < sizeOf kind by simp only [Node.mk.sizeOf_spec]; omega
  cases kind with
  | conditional branches otherwise =>
    simp only [NodeKind.conditional.sizeOf_spec]
    rcases List.mem_append.mp (show b ∈ branches.map _ ++ otherwise.toList from h) with hb | ho
    · obtain ⟨⟨condition, body⟩, hm, rfl⟩ := List.mem_map.mp hb
      have := List.sizeOf_lt_of_mem hm
      simp only [Branch.mk.sizeOf_spec] at *
      omega
    · obtain rfl := Option.mem_toList.mp ho
      simp only [Option.some.sizeOf_spec]
      omega
  | loop var iterable body otherwise =>
    simp only [NodeKind.loop.sizeOf_spec]
    rcases List.mem_cons.mp (show b ∈ body :: otherwise.toList from h) with rfl | ho
    · omega
    · obtain rfl := Option.mem_toList.mp ho
      simp only [Option.some.sizeOf_spec]
      omega
  | macroCall c =>
    obtain ⟨name, args, body, literal⟩ := c
    obtain rfl := Option.mem_toList.mp (show b ∈ body.toList from h)
    simp only [MacroCall.mk.sizeOf_spec, NodeKind.macroCall.sizeOf_spec, Option.some.sizeOf_spec]
    omega
  | _ => cases h

end Stencil
