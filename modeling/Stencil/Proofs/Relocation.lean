import Mathlib.Logic.Basic
import Mathlib.Tactic.Lemma
import Stencil.Template

/-!
# Trees that are put somewhere else

The same text reads as the same tree wherever it stands, but for the positions in the tree and for the sources of its
macros. A relocation says what becomes of these. Main statements: what a relocation makes of each kind of tree, and
`Relocation.expr_stay` and its like, that nothing changes where everything stays.
-/

namespace Stencil

/-- What becomes of positions, and of the sources that macros stand in. -/
structure Relocation where
  position : Position → Position
  source : Source → Source

namespace Relocation

/-- Everything stays where it is. -/
def stay : Relocation := ⟨id, id⟩

mutual

def node (g : Relocation) : Node → Node
  | ⟨kind, p⟩ => ⟨nodeKind g kind, g.position p⟩
termination_by structural n => n

def nodeKind (g : Relocation) : NodeKind → NodeKind
  | .text s => .text s
  | .escaped s => .escaped s
  | .raw s => .raw s
  | .comment => .comment
  | .reference r => .reference (reference g r)
  | .conditional branches otherwise => .conditional (branchList g branches) (blockOption g otherwise)
  | .loop var iterable body otherwise =>
    .loop var (expr g iterable) (nodeList g body) (blockOption g otherwise)
  | .assign target value => .assign (reference g target) (expr g value)
  | .macroDef d => .macroDef (macroDef g d)
  | .macroCall c => .macroCall (macroCall g c)
  | .parse name => .parse (expr g name)
  | .inclusion names => .inclusion (exprList g names)
  | .evaluate text => .evaluate (expr g text)
  | .stop => .stop
  | .leave scope => .leave scope
termination_by structural k => k

def nodeList (g : Relocation) : List Node → List Node
  | [] => []
  | n :: ns => node g n :: nodeList g ns
termination_by structural ns => ns

def blockOption (g : Relocation) : Option (List Node) → Option (List Node)
  | none => none
  | some b => some (nodeList g b)
termination_by structural b => b

def branch (g : Relocation) : Branch → Branch
  | ⟨condition, body⟩ => ⟨expr g condition, nodeList g body⟩
termination_by structural b => b

def branchList (g : Relocation) : List Branch → List Branch
  | [] => []
  | b :: bs => branch g b :: branchList g bs
termination_by structural bs => bs

def macroDef (g : Relocation) : MacroDef → MacroDef
  | ⟨name, params, body, source, p⟩ =>
    ⟨name, paramList g params, nodeList g body, g.source source, g.position p⟩
termination_by structural d => d

def param (g : Relocation) : Param → Param
  | ⟨name, fallback, p⟩ => ⟨name, exprOption g fallback, g.position p⟩
termination_by structural q => q

def paramList (g : Relocation) : List Param → List Param
  | [] => []
  | q :: qs => param g q :: paramList g qs
termination_by structural qs => qs

def exprOption (g : Relocation) : Option Expr → Option Expr
  | none => none
  | some e => some (expr g e)
termination_by structural e => e

def macroCall (g : Relocation) : MacroCall → MacroCall
  | ⟨name, args, body, literal⟩ => ⟨name, argumentList g args, blockOption g body, literal⟩
termination_by structural c => c

def argument (g : Relocation) : Argument → Argument
  | ⟨name, value⟩ => ⟨name, expr g value⟩
termination_by structural a => a

def argumentList (g : Relocation) : List Argument → List Argument
  | [] => []
  | a :: as => argument g a :: argumentList g as
termination_by structural as => as

def reference (g : Relocation) : Reference → Reference
  | ⟨root, quiet, segments, literal, p⟩ => ⟨root, quiet, segmentList g segments, literal, g.position p⟩
termination_by structural r => r

def segment (g : Relocation) : Segment → Segment
  | ⟨kind, p⟩ => ⟨segmentKind g kind, g.position p⟩
termination_by structural s => s

def segmentList (g : Relocation) : List Segment → List Segment
  | [] => []
  | s :: ss => segment g s :: segmentList g ss
termination_by structural ss => ss

def segmentKind (g : Relocation) : SegmentKind → SegmentKind
  | .property name => .property name
  | .method name args => .method name (exprList g args)
  | .index i => .index (expr g i)
termination_by structural k => k

def expr (g : Relocation) : Expr → Expr
  | ⟨kind, p⟩ => ⟨exprKind g kind, g.position p⟩
termination_by structural e => e

def exprKind (g : Relocation) : ExprKind → ExprKind
  | .literal l => .literal l
  | .interpolated body => .interpolated (nodeList g body)
  | .reference r => .reference (reference g r)
  | .list items => .list (exprList g items)
  | .map entries => .map (entryList g entries)
  | .range lower upper => .range (expr g lower) (expr g upper)
  | .unary op operand => .unary op (expr g operand)
  | .binary op left right => .binary op (expr g left) (expr g right)
  | .bareWord word => .bareWord word
termination_by structural k => k

def exprList (g : Relocation) : List Expr → List Expr
  | [] => []
  | e :: es => expr g e :: exprList g es
termination_by structural es => es

def entry (g : Relocation) : Entry → Entry
  | ⟨key, value⟩ => ⟨expr g key, expr g value⟩
termination_by structural e => e

def entryList (g : Relocation) : List Entry → List Entry
  | [] => []
  | e :: es => entry g e :: entryList g es
termination_by structural es => es

end

def block (g : Relocation) (b : Block) : Block := nodeList g b

variable (g : Relocation)

/-! ### Lists of parts -/

@[simp] lemma nodeList_eq (ns : List Node) : g.nodeList ns = ns.map g.node := by
  induction ns with
  | nil => rfl
  | cons n ns ih => exact congrArg (g.node n :: ·) ih

@[simp] lemma blockOption_eq (o : Option (List Node)) : g.blockOption o = o.map g.block := by
  cases o <;> rfl

@[simp] lemma branchList_eq (bs : List Branch) : g.branchList bs = bs.map g.branch := by
  induction bs with
  | nil => rfl
  | cons b bs ih => exact congrArg (g.branch b :: ·) ih

@[simp] lemma paramList_eq (qs : List Param) : g.paramList qs = qs.map g.param := by
  induction qs with
  | nil => rfl
  | cons q qs ih => exact congrArg (g.param q :: ·) ih

@[simp] lemma exprOption_eq (o : Option Expr) : g.exprOption o = o.map g.expr := by
  cases o <;> rfl

@[simp] lemma argumentList_eq (as : List Argument) : g.argumentList as = as.map g.argument := by
  induction as with
  | nil => rfl
  | cons a as ih => exact congrArg (g.argument a :: ·) ih

@[simp] lemma segmentList_eq (ss : List Segment) : g.segmentList ss = ss.map g.segment := by
  induction ss with
  | nil => rfl
  | cons s ss ih => exact congrArg (g.segment s :: ·) ih

@[simp] lemma exprList_eq (es : List Expr) : g.exprList es = es.map g.expr := by
  induction es with
  | nil => rfl
  | cons e es ih => exact congrArg (g.expr e :: ·) ih

@[simp] lemma entryList_eq (es : List Entry) : g.entryList es = es.map g.entry := by
  induction es with
  | nil => rfl
  | cons e es ih => exact congrArg (g.entry e :: ·) ih

/-! ### Staying -/

mutual

lemma node_stay : ∀ n, stay.node n = n
  | ⟨kind, p⟩ => congrArg (Node.mk · p) (nodeKind_stay kind)
termination_by structural n => n

lemma nodeKind_stay : ∀ k, stay.nodeKind k = k
  | .text _ => rfl
  | .escaped _ => rfl
  | .raw _ => rfl
  | .comment => rfl
  | .reference r => congrArg NodeKind.reference (reference_stay r)
  | .conditional branches otherwise =>
    congrArg₂ NodeKind.conditional (branchList_stay branches) (blockOption_stay otherwise)
  | .loop var iterable body otherwise => by
    simp only [nodeKind, expr_stay iterable, nodeList_stay body, blockOption_stay otherwise]
  | .assign target value => congrArg₂ NodeKind.assign (reference_stay target) (expr_stay value)
  | .macroDef d => congrArg NodeKind.macroDef (macroDef_stay d)
  | .macroCall c => congrArg NodeKind.macroCall (macroCall_stay c)
  | .parse name => congrArg NodeKind.parse (expr_stay name)
  | .inclusion names => congrArg NodeKind.inclusion (exprList_stay names)
  | .evaluate text => congrArg NodeKind.evaluate (expr_stay text)
  | .stop => rfl
  | .leave _ => rfl
termination_by structural k => k

lemma nodeList_stay : ∀ ns, stay.nodeList ns = ns
  | [] => rfl
  | n :: ns => congrArg₂ List.cons (node_stay n) (nodeList_stay ns)
termination_by structural ns => ns

lemma blockOption_stay : ∀ o, stay.blockOption o = o
  | none => rfl
  | some b => congrArg some (nodeList_stay b)
termination_by structural o => o

lemma branch_stay : ∀ b, stay.branch b = b
  | ⟨condition, body⟩ => congrArg₂ Branch.mk (expr_stay condition) (nodeList_stay body)
termination_by structural b => b

lemma branchList_stay : ∀ bs, stay.branchList bs = bs
  | [] => rfl
  | b :: bs => congrArg₂ List.cons (branch_stay b) (branchList_stay bs)
termination_by structural bs => bs

lemma macroDef_stay : ∀ d, stay.macroDef d = d
  | ⟨name, params, body, source, p⟩ =>
    congrArg₂ (MacroDef.mk name · · source p) (paramList_stay params) (nodeList_stay body)
termination_by structural d => d

lemma param_stay : ∀ q, stay.param q = q
  | ⟨name, fallback, p⟩ => congrArg (Param.mk name · p) (exprOption_stay fallback)
termination_by structural q => q

lemma paramList_stay : ∀ qs, stay.paramList qs = qs
  | [] => rfl
  | q :: qs => congrArg₂ List.cons (param_stay q) (paramList_stay qs)
termination_by structural qs => qs

lemma exprOption_stay : ∀ o, stay.exprOption o = o
  | none => rfl
  | some e => congrArg some (expr_stay e)
termination_by structural o => o

lemma macroCall_stay : ∀ c, stay.macroCall c = c
  | ⟨name, args, body, literal⟩ =>
    congrArg₂ (MacroCall.mk name · · literal) (argumentList_stay args) (blockOption_stay body)
termination_by structural c => c

lemma argument_stay : ∀ a, stay.argument a = a
  | ⟨name, value⟩ => congrArg (Argument.mk name) (expr_stay value)
termination_by structural a => a

lemma argumentList_stay : ∀ as, stay.argumentList as = as
  | [] => rfl
  | a :: as => congrArg₂ List.cons (argument_stay a) (argumentList_stay as)
termination_by structural as => as

lemma reference_stay : ∀ r, stay.reference r = r
  | ⟨root, quiet, segments, literal, p⟩ =>
    congrArg (Reference.mk root quiet · literal p) (segmentList_stay segments)
termination_by structural r => r

lemma segment_stay : ∀ s, stay.segment s = s
  | ⟨kind, p⟩ => congrArg (Segment.mk · p) (segmentKind_stay kind)
termination_by structural s => s

lemma segmentList_stay : ∀ ss, stay.segmentList ss = ss
  | [] => rfl
  | s :: ss => congrArg₂ List.cons (segment_stay s) (segmentList_stay ss)
termination_by structural ss => ss

lemma segmentKind_stay : ∀ k, stay.segmentKind k = k
  | .property _ => rfl
  | .method name args => congrArg (SegmentKind.method name) (exprList_stay args)
  | .index i => congrArg SegmentKind.index (expr_stay i)
termination_by structural k => k

lemma expr_stay : ∀ e, stay.expr e = e
  | ⟨kind, p⟩ => congrArg (Expr.mk · p) (exprKind_stay kind)
termination_by structural e => e

lemma exprKind_stay : ∀ k, stay.exprKind k = k
  | .literal _ => rfl
  | .interpolated body => congrArg ExprKind.interpolated (nodeList_stay body)
  | .reference r => congrArg ExprKind.reference (reference_stay r)
  | .list items => congrArg ExprKind.list (exprList_stay items)
  | .map entries => congrArg ExprKind.map (entryList_stay entries)
  | .range lower upper => congrArg₂ ExprKind.range (expr_stay lower) (expr_stay upper)
  | .unary op operand => congrArg (ExprKind.unary op) (expr_stay operand)
  | .binary op left right => congrArg₂ (ExprKind.binary op) (expr_stay left) (expr_stay right)
  | .bareWord _ => rfl
termination_by structural k => k

lemma exprList_stay : ∀ es, stay.exprList es = es
  | [] => rfl
  | e :: es => congrArg₂ List.cons (expr_stay e) (exprList_stay es)
termination_by structural es => es

lemma entry_stay : ∀ e, stay.entry e = e
  | ⟨key, value⟩ => congrArg₂ Entry.mk (expr_stay key) (expr_stay value)
termination_by structural e => e

lemma entryList_stay : ∀ es, stay.entryList es = es
  | [] => rfl
  | e :: es => congrArg₂ List.cons (entry_stay e) (entryList_stay es)
termination_by structural es => es

end

end Relocation

end Stencil
