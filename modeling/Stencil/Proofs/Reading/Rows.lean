import Stencil.Proofs.Reading.Meaning
import Stencil.Proofs.Reading.Elements
import Stencil.Proofs.Reading.Shapes

/-!
# Parts in a row

The parts of a match lie one after the other, and so do the elements that they stand for. Main statements:
`Part.Chain.mapM`, what is made of each part of a chain makes a row, and `Part.Operation.meets`, operators and
operands in the order of the grammar make an expression whose operands lie in order.
-/

namespace Stencil

/-! ### Parts -/

namespace Part

/-- The elements that a part stands for. -/
def elements : Part → List Element
  | node n => [.node n]
  | block b => Block.elements b
  | branch b => b.elements
  | otherwise b => Block.elements b
  | loopHead _ e => [.expr e]
  | macroHead _ params => params.map .param
  | param p => [.param p]
  | callHead _ as => as.map (.expr ·.value)
  | args as => as.map (.expr ·.value)
  | arg a => [.expr a.value]
  | expr e => [.expr e]
  | entry e => e.elements
  | reference r => [.reference r]
  | path _ segments => segments.map .segment
  | segment s => [.segment s]
  | _ => []

/-- Whether a part lies inside a span, and its elements in a row there. -/
def Rests (site : Site) (text : List Char) (outer : Span) : Part → Prop
  | word w start => Part.Faithful site true text outer (.word w start)
  | unaryOp _ p => p.Exact site.source ∧ p.span.Inside outer
  | part => Element.Row site.source outer part.elements

/-- Parts that lie one after the other from one offset to another. -/
inductive Chain (site : Site) (text : List Char) : Nat → Nat → List Part → Prop
  | nil {lo hi : Nat} : lo ≤ hi → Chain site text lo hi []
  | cons {lo mid hi : Nat} {part : Part} {parts : List Part} : lo ≤ mid → part.Rests site text ⟨lo, mid⟩ →
    Chain site text mid hi parts → Chain site text lo hi (part :: parts)

variable {site : Site} {text : List Char} {outer outer' : Span} {lo mid hi : Nat} {part : Part}
  {parts ps qs : List Part}

lemma Rests.mono (h : part.Rests site text outer) (ho : outer.Inside outer') :
    part.Rests site text outer' := by
  cases part with
  | word w start =>
    have faithful : Part.Faithful site true text outer (.word w start) := h
    exact faithful.mono ho
  | unaryOp op p => exact ⟨h.1, h.2.trans ho⟩
  | _ => exact Element.Row.mono h ho

lemma Chain.le (h : Chain site text lo hi parts) : lo ≤ hi := by
  induction h with
  | nil le => exact le
  | cons le _ _ ih => exact Nat.le_trans le ih

lemma Chain.append (hp : Chain site text lo mid ps) (hq : Chain site text mid hi qs) :
    Chain site text lo hi (ps ++ qs) := by
  induction hp with
  | nil le =>
    cases hq with
    | nil le' => exact .nil (Nat.le_trans le le')
    | cons le' rests rest =>
      exact .cons (Nat.le_trans le le') (rests.mono ⟨le, Nat.le_refl _⟩) rest
  | cons le rests _ ih => exact .cons le rests (ih hq)

lemma Chain.split (h : Chain site text lo hi (ps ++ qs)) :
    ∃ mid, Chain site text lo mid ps ∧ Chain site text mid hi qs := by
  induction ps generalizing lo with
  | nil => exact ⟨lo, .nil (Nat.le_refl _), h⟩
  | cons p ps ih =>
    cases h with
    | cons le rests rest =>
      obtain ⟨mid, first, last⟩ := ih rest
      exact ⟨mid, .cons le rests first, last⟩

/-- The first part of a chain, and the others behind it. -/
lemma Chain.uncons (h : Chain site text lo hi (part :: parts)) :
    ∃ mid, part.Rests site text ⟨lo, mid⟩ ∧ lo ≤ mid ∧ Chain site text mid hi parts ∧ mid ≤ hi := by
  cases h with
  | cons le rests rest => exact ⟨_, rests, le, rest, rest.le⟩

lemma Chain.head (h : Chain site text lo hi (part :: parts)) : part.Rests site text ⟨lo, hi⟩ := by
  obtain ⟨mid, rests, -, -, le⟩ := h.uncons
  exact rests.mono ⟨Nat.le_refl _, le⟩

/-! ### What is made of parts -/

/-- Whether what is made of a part keeps its elements in their places. -/
def Keeps {α : Type} (f : Part → Except Failure α) (elements : α → List Element) : Prop :=
  ∀ {site : Site} {text : List Char} {outer : Span} {part : Part}, part.Rests site text outer →
    Meets (Failure.Raised site.source) (fun x => Element.Row site.source outer (elements x)) (f part)

/-- A reference in the place of something that has a position is what that consists of. -/
lemma row_of_reference {s : Source} {r : Reference} {p : Element} (hp : p.position = r.position)
    (hc : p.children = [.reference r]) (hh : p.Homed s) (h : Element.Row s outer [.reference r]) :
    Element.Row s outer [p] := by
  obtain ⟨placed, inside⟩ := h.head
  have span : p.span = (Element.reference r).span := congrArg Position.span hp
  refine Element.Row.singleton (Element.Row.element ?_ ?_ hh) (span ▸ inside)
  · rw [hc, span]
    exact .singleton placed (.refl _)
  · rw [hp]
    exact placed.exact

lemma keeps_toNode : Keeps toNode fun n => [.node n] := by
  intro site text outer part h
  cases part with
  | node n => exact h
  | reference r => exact row_of_reference rfl rfl trivial h
  | _ => exact Failure.raised_of _ _

lemma keeps_toExpr : Keeps toExpr fun e => [.expr e] := by
  intro site text outer part h
  cases part with
  | expr e => exact h
  | reference r => exact row_of_reference rfl rfl trivial h
  | _ => exact Failure.raised_of _ _

lemma keeps_toParam : Keeps toParam fun p => [.param p] := by
  intro site text outer part h
  cases part with
  | param p => exact h
  | _ => exact Failure.raised_of _ _

lemma keeps_toArg : Keeps toArg fun a => [.expr a.value] := by
  intro site text outer part h
  cases part with
  | arg a => exact h
  | _ => exact Failure.raised_of _ _

lemma keeps_toEntry : Keeps toEntry Entry.elements := by
  intro site text outer part h
  cases part with
  | entry e => exact h
  | _ => exact Failure.raised_of _ _

lemma keeps_toSegment : Keeps toSegment fun s => [.segment s] := by
  intro site text outer part h
  cases part with
  | segment s => exact h
  | _ => exact Failure.raised_of _ _

/-- What is made of each part of a chain makes a row. -/
theorem Chain.mapM {α : Type} {f : Part → Except Failure α} {elements : α → List Element} (hf : Keeps f elements)
    (h : Chain site text lo hi parts) :
    Meets (Failure.Raised site.source) (fun xs => Element.Row site.source ⟨lo, hi⟩ (xs.flatMap elements))
      (parts.mapM f) := by
  induction h with
  | nil le => exact Element.Row.nil
  | cons le rests rest ih =>
    rw [List.mapM_cons]
    refine (hf rests).bind fun x _ hx => ih.bind fun xs _ hxs => ?_
    exact Element.Row.append hx hxs le rest.le

/-- What is made of each part of a chain makes a row of single elements. -/
lemma Chain.mapM_single {α : Type} {f : Part → Except Failure α} {element : α → Element}
    (hf : Keeps f fun x => [element x]) (h : Chain site text lo hi parts) :
    Meets (Failure.Raised site.source) (fun xs => Element.Row site.source ⟨lo, hi⟩ (xs.map element))
      (parts.mapM f) := by
  refine (h.mapM hf).mono fun xs hxs => ?_
  rw [List.map_eq_flatMap]
  exact hxs

lemma Chain.soleExpr {what : String} (h : Chain site text lo hi parts) :
    Meets (Failure.Raised site.source) (fun e => Element.Row site.source ⟨lo, hi⟩ [.expr e])
      (Part.soleExpr what parts) := by
  unfold Part.soleExpr
  split
  · exact keeps_toExpr h.head
  · exact Failure.raised_of _ _

end Part

/-! ### Operators in front of operands -/

/-- Operators in front of an operand, the last one first, from one offset to another. -/
inductive Operators.Before (s : Source) : Nat → Nat → List (UnaryOp × Position) → Prop
  | nil {lo hi : Nat} : lo ≤ hi → Before s lo hi []
  | cons {lo hi : Nat} {op : UnaryOp} {p : Position} {ops : List (UnaryOp × Position)} :
    Before s lo p.span.start ops → p.Exact s → p.span.stop ≤ hi → Before s lo hi ((op, p) :: ops)

namespace Expr

variable {s : Source} {lo mid hi : Nat} {e : Expr}

lemma placed_ofPrefix (op : UnaryOp) {p : Position} (hp : p.Exact s) (he : (Element.expr e).Placed s)
    (le : p.span.start ≤ e.position.span.start) : (Element.expr (ofPrefix op p e)).Placed s := by
  have within := he.exact.le
  have place : (p.to e.position).Exact s := hp.to he.exact (Nat.le_trans le within)
  have applied (op : UnaryOp) : (Element.expr ⟨.unary op e, p.to e.position⟩).Placed s :=
    Element.Row.element (.singleton he ⟨le, Nat.le_refl _⟩) place trivial
  have folded (l : Literal) : (Element.expr ⟨.literal l, p.to e.position⟩).Placed s :=
    Element.Row.element .nil place trivial
  unfold ofPrefix
  dsimp only
  split
  · split
    · exact applied .neg
    · exact folded _
  · exact folded _
  · exact applied _

lemma span_ofPrefix (op : UnaryOp) (p : Position) (e : Expr) :
    (ofPrefix op p e).position.span = ⟨p.span.start, e.position.span.stop⟩ := by
  unfold ofPrefix
  dsimp only
  split
  · split
    · rfl
    · rfl
  · rfl
  · rfl

/-- An operand with the operators in front of it. -/
lemma placed_foldl {ops : List (UnaryOp × Position)} (ho : Operators.Before s lo mid ops)
    (he : (Element.expr e).Placed s) (le : mid ≤ e.position.span.start) :
    (Element.expr (ops.foldl (fun e (op, p) => ofPrefix op p e) e)).Placed s ∧
      lo ≤ (ops.foldl (fun e (op, p) => ofPrefix op p e) e).position.span.start ∧
      (ops.foldl (fun e (op, p) => ofPrefix op p e) e).position.span.stop = e.position.span.stop := by
  induction ho generalizing e with
  | nil le' => exact ⟨he, Nat.le_trans le' le, rfl⟩
  | @cons hi op p ops rest hp hi' ih =>
    have before : p.span.start ≤ e.position.span.start := Nat.le_trans hp.le (Nat.le_trans hi' le)
    have span := span_ofPrefix op p e
    have start : p.span.start ≤ (ofPrefix op p e).position.span.start := by rw [span]
    obtain ⟨placed, first, last⟩ := ih (placed_ofPrefix op hp he before) start
    refine ⟨placed, first, last.trans ?_⟩
    rw [span]

/-! ### Operators between operands -/

lemma placed_ofInfix (op : BinaryOp) {l r : Expr} (hl : (Element.expr l).Placed s) (hr : (Element.expr r).Placed s)
    (le : l.position.span.stop ≤ r.position.span.start) : (Element.expr (ofInfix op l r)).Placed s := by
  have start : l.position.span.start ≤ l.position.span.stop := hl.exact.le
  have stop : r.position.span.start ≤ r.position.span.stop := hr.exact.le
  have whole := Nat.le_trans start (Nat.le_trans le stop)
  have place : (l.position.to r.position).Exact s := hl.exact.to hr.exact whole
  have left : Element.Row s ⟨l.position.span.start, l.position.span.stop⟩ [.expr l] := .singleton hl (.refl _)
  have right : Element.Row s ⟨l.position.span.stop, r.position.span.stop⟩ [.expr r] :=
    .singleton hr ⟨le, Nat.le_refl _⟩
  exact Element.Row.element (left.append right start (Nat.le_trans le stop)) place trivial

end Expr

/-- Left operands that wait for their right ones, the last one first, from one offset to another. -/
inductive Pending.Before (s : Source) : Nat → Nat → Pending → Prop
  | nil {lo hi : Nat} : lo ≤ hi → Before s lo hi []
  | cons {lo hi : Nat} {l : Expr} {op : BinaryOp} {rest : Pending} :
    Before s lo l.position.span.start rest → (Element.expr l).Placed s → l.position.span.stop ≤ hi →
    Before s lo hi ((l, op) :: rest)

section

variable {s : Source} {lo hi : Nat} {pending : Pending} {e : Expr}

/-- Completing operators leaves an expression that ends where the operand ends. -/
lemma Pending.Before.complete (level : Nat) (h : Pending.Before s lo e.position.span.start pending)
    (he : (Element.expr e).Placed s) :
    (Element.expr (pending.complete level e).2).Placed s ∧
      (pending.complete level e).2.position.span.stop = e.position.span.stop ∧
      Pending.Before s lo (pending.complete level e).2.position.span.start (pending.complete level e).1 := by
  induction pending generalizing e with
  | nil => exact ⟨he, rfl, h⟩
  | cons first rest ih =>
    obtain ⟨l, op⟩ := first
    unfold Pending.complete
    cases h with
    | cons rest placed le =>
      split
      · exact ih rest (Expr.placed_ofInfix op placed he le)
      · exact ⟨he, rfl, .cons rest placed le⟩

lemma Pending.Before.le (h : Pending.Before s lo hi pending) : lo ≤ hi := by
  induction h with
  | nil le => exact le
  | cons _ placed le ih =>
    have := placed.exact.le
    exact Nat.le_trans ih (Nat.le_trans this le)

/-- Operands in order make an expression over all of them. -/
lemma Expr.placed_ofOperands {rest : List (BinaryOp × Expr)}
    (h : Pending.Before s lo e.position.span.start pending) (he : (Element.expr e).Placed s)
    (le : e.position.span.stop ≤ hi) (hr : Element.Row s ⟨e.position.span.stop, hi⟩ (rest.map (.expr ·.2))) :
    Element.Row s ⟨lo, hi⟩ [.expr (Expr.ofOperands pending e rest)] := by
  induction rest generalizing pending e with
  | nil =>
    obtain ⟨placed, stop, before⟩ := h.complete 0 he
    exact .singleton placed ⟨before.le, stop ▸ le⟩
  | cons next rest ih =>
    obtain ⟨op, f⟩ := next
    obtain ⟨placed, stop, before⟩ := h.complete op.level he
    obtain ⟨hf, inside⟩ := hr.head
    have later : Element.Row s ⟨f.position.span.stop, hi⟩ (rest.map (.expr ·.2)) := by
      obtain ⟨-, apart⟩ := List.pairwise_cons.mp hr.ordered
      have others := hr.sublist (List.sublist_cons_self _ _)
      refine ⟨fun q hq => ⟨?_, (others.inside q hq).stop⟩, others.ordered, others.placed⟩
      exact (List.pairwise_cons.mp hr.ordered).1 q hq
    exact ih (.cons before placed (stop ▸ inside.start)) hf inside.stop later

end

/-! ### Operations -/

namespace Part

/-- Operators and the operand that they stand in front of. -/
inductive Operand : List Part → Prop
  | expr (e : Expr) : Operand [.expr e]
  | reference (r : Reference) : Operand [.reference r]
  | unary (op : UnaryOp) (p : Position) {ps : List Part} : Operand ps → Operand (.unaryOp op p :: ps)

/-- Operands behind operators. -/
inductive Operands : List Part → Prop
  | nil : Operands []
  | binary (op : BinaryOp) {ps qs : List Part} : Operand ps → Operands qs →
    Operands (.binaryOp op :: (ps ++ qs))

/-- An operand and the operators and operands that follow it. -/
def Operation (parts : List Part) : Prop := ∃ ps qs, parts = ps ++ qs ∧ Operand ps ∧ Operands qs

variable {site : Site} {text : List Char} {lo mid hi : Nat} {parts ps qs : List Part}

/-- An operand with the operators in front of it is read as one expression in its place. -/
lemma Operand.reads (h : Operand ps) {pending : List (UnaryOp × Position)}
    (hb : Operators.Before site.source lo mid pending) (hc : Chain site text mid hi ps) :
    ∃ e, Element.Row site.source ⟨lo, hi⟩ [.expr e] ∧
      ∀ chain op? first? rest, operation pending chain op? first? (ps ++ rest) =
        match op?, first? with
        | some op, some _ => operation [] ((op, e) :: chain) none first? rest
        | _, _ => operation [] chain none (some e) rest := by
  induction h generalizing mid pending with
  | expr e =>
    have row : Element.Row site.source ⟨mid, hi⟩ [.expr e] := hc.head
    obtain ⟨placed, inside⟩ := row.head
    obtain ⟨folded, start, stop⟩ := Expr.placed_foldl hb placed inside.start
    exact ⟨_, .singleton folded ⟨start, stop ▸ inside.stop⟩, fun _ _ _ _ => rfl⟩
  | reference r =>
    have row : Element.Row site.source ⟨mid, hi⟩ [.expr ⟨.reference r, r.position⟩] :=
      row_of_reference rfl rfl trivial hc.head
    obtain ⟨placed, inside⟩ := row.head
    obtain ⟨folded, start, stop⟩ := Expr.placed_foldl hb placed inside.start
    exact ⟨_, .singleton folded ⟨start, stop ▸ inside.stop⟩, fun _ _ _ _ => rfl⟩
  | @unary op p ps h ih =>
    obtain ⟨next, ⟨exact_, inside⟩, -, rest, -⟩ := hc.uncons
    have lower : Operators.Before site.source lo p.span.start pending := by
      cases hb with
      | nil le => exact .nil (Nat.le_trans le inside.start)
      | cons before exact_ le => exact .cons before exact_ (Nat.le_trans le inside.start)
    exact ih (.cons lower exact_ inside.stop) rest

/-- The operands behind a first one are read in their places. -/
lemma Operands.reads (h : Operands qs) {chain : List (BinaryOp × Expr)} {first : Expr}
    (hr : Element.Row site.source ⟨lo, mid⟩ (.expr first :: chain.reverse.map (.expr ·.2))) (le : lo ≤ mid)
    (hc : Chain site text mid hi qs) :
    Meets (Failure.Raised site.source) (fun e => Element.Row site.source ⟨lo, hi⟩ [.expr e])
      (operation [] chain none (some first) qs) := by
  induction h generalizing chain mid with
  | nil =>
    obtain ⟨placed, inside⟩ := hr.head
    have upper := hc.le
    refine Expr.placed_ofOperands (.nil inside.start) placed (Nat.le_trans inside.stop upper) ?_
    have others := hr.sublist (List.sublist_cons_self _ _)
    refine ⟨fun q hq => ⟨?_, Nat.le_trans (others.inside q hq).stop upper⟩, others.ordered, others.placed⟩
    exact (List.pairwise_cons.mp hr.ordered).1 q hq
  | @binary op ps qs hp hq ih =>
    obtain ⟨next, -, le', rest, -⟩ := hc.uncons
    obtain ⟨stop, operand, others⟩ := rest.split
    obtain ⟨e, he, reads⟩ := hp.reads (.nil (Nat.le_refl _)) operand
    have read : operation [] chain none (some first) (.binaryOp op :: (ps ++ qs)) =
        operation [] ((op, e) :: chain) none (some first) qs := reads chain (some op) (some first) qs
    rw [read]
    have upper := operand.le
    refine ih ?_ (by omega) others
    have wider : (⟨lo, mid⟩ : Span).Inside ⟨lo, next⟩ := ⟨Nat.le_refl _, le'⟩
    have before := hr.mono wider
    have row := before.append he (Nat.le_trans le le') upper
    simpa only [List.reverse_cons, List.map_append, List.map_cons, List.map_nil, List.cons_append] using row

/-- Operators and operands make an expression over all of them. -/
theorem Operation.meets (h : Operation parts) (hc : Chain site text lo hi parts) :
    Meets (Failure.Raised site.source) (fun e => Element.Row site.source ⟨lo, hi⟩ [.expr e])
      (operation [] [] none none parts) := by
  obtain ⟨ps, qs, rfl, operand, operands⟩ := h
  obtain ⟨mid, first, rest⟩ := hc.split
  obtain ⟨e, he, reads⟩ := operand.reads (.nil (Nat.le_refl _)) first
  have read : operation [] [] none none (ps ++ qs) = operation [] [] none (some e) qs :=
    reads [] none none qs
  rw [read]
  exact operands.reads he first.le rest

end Part

end Stencil
