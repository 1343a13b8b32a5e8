import Stencil.Proofs.Reading.Faithful

/-!
# What holds everywhere in a tree

Properties of the nodes and of the expressions of a tree, at any depth: in branches, bodies, arguments, defaults
and strings. Main statements: what holds everywhere in a node or an expression holds of its kind and everywhere in
its parts.
-/

namespace Stencil

mutual

/-- What `N` says of kinds of nodes and `E` of kinds of expressions holds of a node and of everything in it. -/
inductive Node.Everywhere (N : NodeKind → Prop) (E : ExprKind → Prop) : Node → Prop
  | intro {n : Node} : N n.kind → (∀ e ∈ n.kind.subexprs, Expr.Everywhere N E e) →
    (∀ b ∈ n.kind.subblocks, ∀ m ∈ b, Node.Everywhere N E m) → Node.Everywhere N E n

/-- What `N` says of kinds of nodes and `E` of kinds of expressions holds of an expression and of everything in
it. -/
inductive Expr.Everywhere (N : NodeKind → Prop) (E : ExprKind → Prop) : Expr → Prop
  | intro {e : Expr} : E e.kind → (∀ x ∈ e.kind.exprs, Expr.Everywhere N E x) →
    (∀ b ∈ e.kind.blocks, ∀ m ∈ b, Node.Everywhere N E m) → Expr.Everywhere N E e

end

/-- What `N` says of kinds of nodes and `E` of kinds of expressions holds in the whole block. -/
def Block.Everywhere (N : NodeKind → Prop) (E : ExprKind → Prop) (b : Block) : Prop :=
  ∀ n ∈ b, n.Everywhere N E

section

variable {N : NodeKind → Prop} {E : ExprKind → Prop}

lemma Node.Everywhere.kind {n : Node} (h : n.Everywhere N E) : N n.kind := by
  cases h with
  | intro kind _ _ => exact kind

lemma Node.Everywhere.exprs {n : Node} (h : n.Everywhere N E) : ∀ e ∈ n.kind.subexprs, e.Everywhere N E := by
  cases h with
  | intro _ exprs _ => exact exprs

lemma Node.Everywhere.blocks {n : Node} (h : n.Everywhere N E) :
    ∀ b ∈ n.kind.subblocks, Block.Everywhere N E b := by
  cases h with
  | intro _ _ blocks => exact blocks

lemma Expr.Everywhere.kind {e : Expr} (h : e.Everywhere N E) : E e.kind := by
  cases h with
  | intro kind _ _ => exact kind

lemma Expr.Everywhere.exprs {e : Expr} (h : e.Everywhere N E) : ∀ x ∈ e.kind.exprs, x.Everywhere N E := by
  cases h with
  | intro _ exprs _ => exact exprs

lemma Expr.Everywhere.blocks {e : Expr} (h : e.Everywhere N E) :
    ∀ b ∈ e.kind.blocks, Block.Everywhere N E b := by
  cases h with
  | intro _ _ blocks => exact blocks

end

end Stencil
