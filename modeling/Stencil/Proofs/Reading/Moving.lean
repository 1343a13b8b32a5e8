import Stencil.Proofs.Reading
import Stencil.Proofs.Reading.Placing
import Stencil.Proofs.Relocation

/-!
# What matches stand for at another site

A match stands for the same wherever its text stands, but for the positions in it and for the sources of its macros.
Main statement: `Rule.meaning_moved`, what the match of a rule stands for moves with its parts.
-/

namespace Stencil

namespace Relocation

variable (g : Relocation)

/-! ### Answers -/

/-- A failure that arises somewhere else. -/
def failure (f : Failure) : Failure where
  cause := f.cause
  position := f.position.map g.position
  source := f.source.map g.source
  trail := f.trail.map fun (a, p) => (a, g.position p)

/-- What a match stands for, somewhere else. A word starts where it starts in its text. -/
def part : Part → Part
  | .mark => .mark
  | .word w start => .word w start
  | .node n => .node (g.node n)
  | .block b => .block (g.block b)
  | .branch b => .branch (g.branch b)
  | .otherwise b => .otherwise (g.block b)
  | .loopHead var e => .loopHead var (g.expr e)
  | .macroHead name params => .macroHead name (g.paramList params)
  | .param q => .param (g.param q)
  | .callHead name as => .callHead name (g.argumentList as)
  | .args as => .args (g.argumentList as)
  | .arg a => .arg (g.argument a)
  | .expr e => .expr (g.expr e)
  | .unaryOp op p => .unaryOp op (g.position p)
  | .binaryOp op => .binaryOp op
  | .entry e => .entry (g.entry e)
  | .reference r => .reference (g.reference r)
  | .quiet => .quiet
  | .path root segments => .path root (g.segmentList segments)
  | .segment s => .segment (g.segment s)

/-- The answer of a step of reading, somewhere else, given what becomes of what it answers. -/
def answer {α β : Type} (h : α → β) : Except Failure α → Except Failure β
  | .ok x => .ok (h x)
  | .error f => .error (g.failure f)

section

variable {α β γ δ : Type} {h : α → β} {h' : γ → δ}

lemma bind_answer {k : α → Except Failure γ} {k' : β → Except Failure δ}
    (hk : ∀ x, k' (h x) = g.answer h' (k x)) (x : Except Failure α) :
    g.answer h x >>= k' = g.answer h' (x >>= k) := by
  cases x with
  | ok x => exact hk x
  | error f => rfl

/-- A step that only makes something of what another one answers. -/
lemma pure_answer {k : α → γ} {k' : β → δ} (hk : ∀ x, k' (h x) = h' (k x)) (x : Except Failure α) :
    (g.answer h x >>= fun y => pure (k' y)) = g.answer h' (x >>= fun y => pure (k y)) :=
  g.bind_answer (fun y => congrArg Except.ok (hk y)) x

lemma mapM_answer {k : Part → Except Failure α} {h : α → α} (hk : ∀ p, k (g.part p) = g.answer h (k p))
    (ps : List Part) : (ps.map g.part).mapM k = g.answer (List.map h) (ps.mapM k) := by
  induction ps with
  | nil => rfl
  | cons p ps ih =>
    rw [List.map_cons, List.mapM_cons, List.mapM_cons, hk, ih]
    refine g.bind_answer (fun x => ?_) _
    refine g.pure_answer (fun _ => ?_) _
    rfl

end

/-! ### Rigid relocations -/

/-- What touches stays together, and a stretch from one place to another moves with these. -/
structure Rigid : Prop where
  touch : ∀ {p q : Position}, p.span.stop = q.span.start → (g.position p).span.stop = (g.position q).span.start
  stretch : ∀ p q : Position, g.position (p.to q) = (g.position p).to (g.position q)

/-- What stands at one site is put where it stands at another one. -/
structure Carries (A B : Site) : Prop where
  position : ∀ a b, g.position (A.positionOf ⟨A.absolute a, A.absolute b⟩) =
    B.positionOf ⟨B.absolute a, B.absolute b⟩
  source : g.source A.source = B.source

variable {g}

/-- Strings at two sites are read at sites in the same relation. -/
lemma Carries.within {A B : Site} (h : g.Carries A B) {origins : List Nat} (ho : origins ≠ []) :
    g.Carries (A.within origins) (B.within origins) := by
  have absolute (k : Nat) : ∃ o, ∀ site : Site, (site.within origins).absolute k = site.absolute o := by
    refine ⟨origins[k]?.getD (origins.getLast ho), fun site => ?_⟩
    show ((origins.map site.absolute).toArray[k]? <|> (origins.map site.absolute).toArray.back?).getD k = _
    rw [List.getElem?_toArray, List.back?_toArray, List.getLast?_map, List.getLast?_eq_getLast_of_ne_nil ho,
      List.getElem?_map]
    cases origins[k]? <;> rfl
  refine ⟨fun a b => ?_, h.source⟩
  obtain ⟨o, ho⟩ := absolute a
  obtain ⟨o', ho'⟩ := absolute b
  rw [ho, ho', ho, ho']
  exact h.position o o'

lemma Carries.cursors {A B : Site} (h : g.Carries A B) (c d : Cursor) :
    g.position (A.position c d) = B.position c d :=
  h.position c.offset d.offset

lemma Carries.fault {A B : Site} (h : g.Carries A B) (c d : Cursor) (f : ParseFault) :
    B.fault c d f = g.failure (A.fault c d f) := by
  unfold Site.fault
  rw [← h.cursors]
  rfl

lemma Carries.refused {A B : Site} (h : g.Carries A B) (cs : List Char) (r : Refusal) :
    B.refused cs r = g.failure (A.refused cs r) := by
  unfold Site.refused
  dsimp only
  split
  · rw [← h.position]
    rfl
  · rw [← h.position]
    rfl

end Relocation

/-! ### Parts -/

namespace Part

variable (g : Relocation)

lemma toNode_moved (p : Part) : (g.part p).toNode = g.answer g.node p.toNode := by
  cases p with
  | reference r => cases r; rfl
  | _ => rfl

lemma toExpr_moved (p : Part) : (g.part p).toExpr = g.answer g.expr p.toExpr := by
  cases p with
  | reference r => cases r; rfl
  | _ => rfl

lemma toParam_moved (p : Part) : (g.part p).toParam = g.answer g.param p.toParam := by
  cases p <;> rfl

lemma toArg_moved (p : Part) : (g.part p).toArg = g.answer g.argument p.toArg := by
  cases p <;> rfl

lemma toEntry_moved (p : Part) : (g.part p).toEntry = g.answer g.entry p.toEntry := by
  cases p <;> rfl

lemma toSegment_moved (p : Part) : (g.part p).toSegment = g.answer g.segment p.toSegment := by
  cases p <;> rfl

lemma branches_moved (ps : List Part) : branches (ps.map g.part) = (branches ps).map g.branch := by
  unfold branches
  rw [List.filterMap_map, List.map_filterMap]
  congr 1
  funext p
  cases p <;> rfl

lemma otherwise?_moved (ps : List Part) : otherwise? (ps.map g.part) = (otherwise? ps).map g.block := by
  induction ps using List.reverseRecOn with
  | nil => rfl
  | append_singleton ps p ih =>
    unfold otherwise? at ih ⊢
    rw [List.map_append, List.foldl_append, List.foldl_append]
    cases p with
    | otherwise b => rfl
    | _ => exact ih

lemma soleExpr_moved (what : String) (ps : List Part) :
    soleExpr what (ps.map g.part) = g.answer g.expr (soleExpr what ps) := by
  match ps with
  | [] => rfl
  | [p] => exact toExpr_moved g p
  | _ :: _ :: _ => rfl

lemma conditional_moved (ps : List Part) :
    conditional (ps.map g.part) = g.answer g.nodeKind (conditional ps) := by
  match ps with
  | [] => rfl
  | p :: ps =>
    cases p with
    | expr c =>
      match ps with
      | [] => rfl
      | q :: rest =>
        cases q with
        | block b =>
          show Except.ok (NodeKind.conditional _ _) = Except.ok (NodeKind.conditional _ _)
          rw [Relocation.branchList_eq, Relocation.blockOption_eq, List.map_cons, branches_moved, otherwise?_moved]
          rfl
        | _ => rfl
    | _ => rfl

lemma loop_moved (ps : List Part) : loop (ps.map g.part) = g.answer g.nodeKind (loop ps) := by
  match ps with
  | [] => rfl
  | p :: ps =>
    cases p with
    | loopHead var e =>
      match ps with
      | [] => rfl
      | q :: rest =>
        cases q with
        | block b =>
          show Except.ok (NodeKind.loop _ _ _ _) = Except.ok (NodeKind.loop _ _ _ _)
          rw [Relocation.blockOption_eq, otherwise?_moved]
          rfl
        | _ => rfl
    | _ => rfl

lemma assignment_moved (ps : List Part) : assignment (ps.map g.part) = g.answer g.nodeKind (assignment ps) := by
  match ps with
  | [] => rfl
  | [p] => cases p <;> rfl
  | [p, value] =>
    cases p with
    | reference target =>
      show (g.part value).toExpr >>= (fun e => pure (NodeKind.assign (g.reference target) e)) =
        g.answer g.nodeKind (value.toExpr >>= fun e => pure (NodeKind.assign target e))
      rw [toExpr_moved]
      refine g.pure_answer (fun _ => ?_) _
      rfl
    | _ => rfl
  | p :: _ :: _ :: _ => cases p <;> rfl

lemma definition_moved {A B : Site} (hc : g.Carries A B) (p : Position) (ps : List Part) :
    definition B (g.position p) (ps.map g.part) = g.answer g.nodeKind (definition A p ps) := by
  match ps with
  | [] => rfl
  | p :: ps =>
    cases p with
    | macroHead name params =>
      match ps with
      | [] => rfl
      | q :: rest =>
        cases q with
        | block b =>
          show Except.ok (NodeKind.macroDef ⟨_, _, _, B.source, _⟩) = Except.ok (NodeKind.macroDef ⟨_, _, _, _, _⟩)
          rw [← hc.source]
          rfl
        | _ => rfl
    | _ => rfl

lemma parameter_moved (p : Position) (ps : List Part) :
    parameter (g.position p) (ps.map g.part) = g.answer g.part (parameter p ps) := by
  match ps with
  | [] => rfl
  | [q] => cases q <;> rfl
  | [q, value] =>
    cases q with
    | word name start =>
      show (g.part value).toExpr >>= (fun e => pure (param ⟨String.ofList name, some e, g.position p⟩)) =
        g.answer g.part (value.toExpr >>= fun e => pure (param ⟨String.ofList name, some e, p⟩))
      rw [toExpr_moved]
      refine g.pure_answer (fun _ => ?_) _
      rfl
    | _ => rfl
  | q :: _ :: _ :: _ => cases q <;> rfl

lemma blockCall_moved (literal : String) (ps : List Part) :
    blockCall literal (ps.map g.part) = g.answer g.nodeKind (blockCall literal ps) := by
  match ps with
  | [] => rfl
  | p :: ps =>
    cases p with
    | callHead name as =>
      match ps with
      | [] => rfl
      | q :: rest => cases q <;> rfl
    | _ => rfl

lemma call_moved (ps : List Part) :
    call (ps.map g.part) = g.answer (fun c => (c.1, g.argumentList c.2)) (call ps) := by
  match ps with
  | [] => rfl
  | [p] => cases p <;> rfl
  | [p, q] =>
    cases p with
    | word name start => cases q <;> rfl
    | _ => rfl
  | p :: q :: _ :: _ =>
    cases p with
    | word name start => cases q <;> rfl
    | _ => rfl

lemma pathOf_moved (ps : List Part) :
    pathOf (ps.map g.part) = g.answer (fun c => (c.1, g.segmentList c.2)) (pathOf ps) := by
  have from_ (name : List Char) (rest : List Part) :
      ((rest.map g.part).mapM toSegment >>= fun segments => pure (String.ofList name, segments)) =
        g.answer (fun c => (c.1, g.segmentList c.2))
          (rest.mapM toSegment >>= fun segments => pure (String.ofList name, segments)) := by
    rw [g.mapM_answer (toSegment_moved g)]
    exact g.pure_answer (fun segments => by rw [Relocation.segmentList_eq]) _
  match ps with
  | [] => rfl
  | p :: rest =>
    cases p with
    | word name start => exact from_ name rest
    | path root segments => cases rest <;> rfl
    | _ => rfl

lemma referenceOf_moved (literal : String) (p : Position) (ps : List Part) :
    referenceOf literal (g.position p) (ps.map g.part) = g.answer g.reference (referenceOf literal p ps) := by
  have from_ (isQuiet : Bool) (rest : List Part) :
      (pathOf (rest.map g.part) >>= fun path => pure (⟨path.1, isQuiet, path.2, literal, g.position p⟩ : Reference)) =
        g.answer g.reference
          (pathOf rest >>= fun path => pure (⟨path.1, isQuiet, path.2, literal, p⟩ : Reference)) := by
    rw [pathOf_moved]
    refine g.pure_answer (fun _ => ?_) _
    rfl
  match ps with
  | [] => exact from_ false []
  | q :: rest =>
    cases q with
    | quiet => exact from_ true rest
    | _ => exact from_ false (_ :: rest)

end Part

/-! ### Operators -/

section

variable {g : Relocation} (hg : g.Rigid)

include hg

lemma Expr.ofPrefix_moved (op : UnaryOp) (p : Position) (e : Expr) :
    g.expr (.ofPrefix op p e) = .ofPrefix op (g.position p) (g.expr e) := by
  obtain ⟨kind, q⟩ := e
  have place := hg.stretch p q
  have applied (op : UnaryOp) : g.expr ⟨.unary op ⟨kind, q⟩, p.to q⟩ =
      ⟨.unary op (g.expr ⟨kind, q⟩), (g.position p).to (g.position q)⟩ := by
    rw [← place]
    rfl
  have folded (l : Literal) : g.expr ⟨.literal l, p.to q⟩ = ⟨.literal l, (g.position p).to (g.position q)⟩ := by
    rw [← place]
    rfl
  cases op with
  | not => exact applied .not
  | neg =>
    cases kind with
    | literal l =>
      cases l with
      | int n =>
        show g.expr (if n = Int64.minValue then _ else _) = if n = Int64.minValue then _ else _
        split
        · exact applied .neg
        · exact folded _
      | float x => exact folded _
      | _ => exact applied .neg
    | _ => exact applied .neg

lemma Expr.foldl_moved (pending : List (UnaryOp × Position)) (e : Expr) :
    g.expr (pending.foldl (fun e (op, p) => .ofPrefix op p e) e) =
      (pending.map fun x => (x.1, g.position x.2)).foldl (fun e (op, p) => .ofPrefix op p e) (g.expr e) := by
  induction pending generalizing e with
  | nil => rfl
  | cons first pending ih =>
    rw [List.foldl_cons, ih, Expr.ofPrefix_moved hg]
    rfl

lemma Expr.ofInfix_moved (op : BinaryOp) (l r : Expr) :
    g.expr (.ofInfix op l r) = .ofInfix op (g.expr l) (g.expr r) := by
  have place := hg.stretch l.position r.position
  obtain ⟨lk, lp⟩ := l
  obtain ⟨rk, rp⟩ := r
  unfold Expr.ofInfix
  show (⟨_, g.position (lp.to rp)⟩ : Expr) = ⟨_, (g.position lp).to (g.position rp)⟩
  rw [← place]
  rfl

lemma Pending.complete_moved (level : Nat) (pending : Pending) (e : Expr) :
    Pending.complete level (pending.map fun x => (g.expr x.1, x.2)) (g.expr e) =
      ((pending.complete level e).1.map (fun x => (g.expr x.1, x.2)), g.expr (pending.complete level e).2) := by
  induction pending generalizing e with
  | nil => rfl
  | cons first pending ih =>
    obtain ⟨l, op⟩ := first
    rw [List.map_cons]
    unfold Pending.complete
    split
    · rw [← Expr.ofInfix_moved hg]
      exact ih _
    · rfl

lemma Expr.ofOperands_moved (pending : Pending) (e : Expr) (rest : List (BinaryOp × Expr)) :
    Expr.ofOperands (pending.map fun x => (g.expr x.1, x.2)) (g.expr e) (rest.map fun x => (x.1, g.expr x.2)) =
      g.expr (Expr.ofOperands pending e rest) := by
  induction rest generalizing pending e with
  | nil =>
    rw [List.map_nil, Expr.ofOperands, Pending.complete_moved hg]
    rfl
  | cons first rest ih =>
    obtain ⟨op, f⟩ := first
    rw [List.map_cons, Expr.ofOperands, Pending.complete_moved hg]
    exact ih ((_, op) :: _) f

omit hg in
/-- An operand is followed by the other operators and operands. -/
lemma Part.operand_moved {chain : List (BinaryOp × Expr)} {op? : Option BinaryOp} {first? : Option Expr} {ps : List Part}
    (later : ∀ chain op? first?, operation [] (chain.map fun x => (x.1, g.expr x.2)) op? (first?.map g.expr)
      (ps.map g.part) = g.answer g.expr (operation [] chain op? first? ps)) (e : Expr) :
    (match op?, first?.map g.expr with
      | some op, some _ => operation [] ((op, g.expr e) :: chain.map fun x => (x.1, g.expr x.2)) none
          (first?.map g.expr) (ps.map g.part)
      | _, _ => operation [] (chain.map fun x => (x.1, g.expr x.2)) none (some (g.expr e)) (ps.map g.part)) =
      g.answer g.expr (match op?, first? with
        | some op, some _ => operation [] ((op, e) :: chain) none first? ps
        | _, _ => operation [] chain none (some e) ps) := by
  cases op? with
  | none => exact later chain none (some e)
  | some op =>
    cases first? with
    | none => exact later chain none (some e)
    | some first => exact later ((op, e) :: chain) none (some first)

lemma Part.operation_moved (pending : List (UnaryOp × Position)) (chain : List (BinaryOp × Expr))
    (op? : Option BinaryOp) (first? : Option Expr) (ps : List Part) :
    operation (pending.map fun x => (x.1, g.position x.2)) (chain.map fun x => (x.1, g.expr x.2)) op?
        (first?.map g.expr) (ps.map g.part) = g.answer g.expr (operation pending chain op? first? ps) := by
  induction ps generalizing pending chain op? first? with
  | nil =>
    cases first? with
    | none => rfl
    | some e =>
      show Except.ok (Expr.ofOperands [] (g.expr e) (chain.map fun x => (x.1, g.expr x.2)).reverse) = _
      rw [← List.map_reverse]
      exact congrArg Except.ok (Expr.ofOperands_moved hg [] e chain.reverse)
  | cons p ps ih =>
    have operand := @Part.operand_moved g chain op? first? ps (ih [])
    cases p with
    | unaryOp op p => exact ih ((op, p) :: pending) chain op? first?
    | binaryOp op => exact ih [] chain (some op) first?
    | expr e =>
      have here := operand (pending.foldl (fun e (op, p) => .ofPrefix op p e) e)
      rw [Expr.foldl_moved hg] at here
      exact here
    | reference r =>
      have here := operand (pending.foldl (fun e (op, p) => .ofPrefix op p e) ⟨.reference r, r.position⟩)
      rw [Expr.foldl_moved hg] at here
      cases r
      exact here
    | _ => rfl

/-! ### Blocks -/

/-- Two texts in a row join wherever they stand. -/
lemma Node.join?_moved {m n : Node} (ht : m.position.span.stop = n.position.span.start) :
    (g.node m).join? (g.node n) = (m.join? n).map g.node := by
  have place := hg.stretch m.position n.position
  have touch := hg.touch ht
  obtain ⟨mk, mp⟩ := m
  obtain ⟨nk, np⟩ := n
  cases mk with
  | text s =>
    cases nk with
    | text t =>
      have here : Node.join? ⟨.text s, mp⟩ ⟨.text t, np⟩ = some ⟨.text (s ++ t), mp.to np⟩ := if_pos ht
      have there : Node.join? (g.node ⟨.text s, mp⟩) (g.node ⟨.text t, np⟩) =
          some ⟨.text (s ++ t), (g.position mp).to (g.position np)⟩ := if_pos touch
      rw [here, there, ← place]
      rfl
    | _ => rfl
  | _ => rfl

lemma Block.Tiles.joinTexts_moved {cs : List Char} {quoted : Bool} {lo hi : Nat} {b : Block} (ht : b.Tiles lo hi)
    (hn : ∀ n ∈ b, Node.Faithful cs quoted n) :
    Stencil.joinTexts (b.map g.node) = (Stencil.joinTexts b).map g.node := by
  induction ht with
  | nil => rfl
  | @cons n b stop lt rest ih =>
    have later : ∀ m ∈ b, Node.Faithful cs quoted m := fun m hm => hn m (List.mem_cons_of_mem _ hm)
    have tiles := (rest.joinTexts later).tiles
    rw [List.map_cons]
    unfold Stencil.joinTexts
    rw [ih later]
    cases hj : Stencil.joinTexts b with
    | nil => rfl
    | cons m ms =>
      rw [hj] at tiles
      have touch : n.position.span.stop = m.position.span.start := by
        generalize n.position.span.stop = start at tiles
        cases tiles with
        | cons _ _ => rfl
      rw [List.map_cons]
      dsimp only
      rw [Node.join?_moved hg touch]
      cases m' : n.join? m <;> rfl

end

/-! ### Rules -/

section

variable {g : Relocation} {A B : Site} {inner inner' : Site → List Char → Except Failure Block} {c d : Cursor}

/-- What the match of a rule stands for, moves with its parts. Blocks, whose texts join, and strings in double
quotes, whose content is read again, are left out. -/
theorem Rule.meaning_moved (hg : g.Rigid) (hc : g.Carries A B) {r : Rule} (hr : r ≠ .block ∧ r ≠ .dqString)
    (parts : List Part) :
    r.meaning B inner' c d (parts.map g.part) = g.answer g.part (r.meaning A inner c d parts) := by
  have place := hc.cursors c d
  have node (kind : NodeKind) : Except.ok (Part.node ⟨g.nodeKind kind, B.position c d⟩) =
      g.answer g.part (.ok (.node ⟨kind, A.position c d⟩)) := by
    rw [← place]
    rfl
  have expr (kind : ExprKind) : Except.ok (Part.expr ⟨g.exprKind kind, B.position c d⟩) =
      g.answer g.part (.ok (.expr ⟨kind, A.position c d⟩)) := by
    rw [← place]
    rfl
  have segment (kind : SegmentKind) : Except.ok (Part.segment ⟨g.segmentKind kind, B.position c d⟩) =
      g.answer g.part (.ok (.segment ⟨kind, A.position c d⟩)) := by
    rw [← place]
    rfl
  -- What is made of the answer of an earlier step.
  have made {α β : Type} {h : α → β} {x : Except Failure β} {y : Except Failure α} (hx : x = g.answer h y)
      {k : α → Except Failure Part} {k' : β → Except Failure Part} (hk : ∀ z, k' (h z) = g.answer g.part (k z)) :
      x >>= k' = g.answer g.part (y >>= k) := by
    rw [hx]
    exact g.bind_answer hk y
  have exprs (ps : List Part) : (ps.map g.part).mapM Part.toExpr = g.answer (List.map g.expr) (ps.mapM Part.toExpr) :=
    g.mapM_answer (Part.toExpr_moved g) ps
  cases r with
  | block => exact absurd rfl hr.1
  | dqString => exact absurd rfl hr.2
  -- marks, words and operators
  | ending | elseHead | endMarker | quiet | rawContent | macroName | ident | dqInner | sqInner | opOr | opAnd | opEq
  | opNe | opLe | opGe | opLt | opGt | opAdd | opSub | opMul | opDiv | opMod => rfl
  | opNot =>
    show Except.ok (Part.unaryOp .not (B.position c d)) = .ok (.unaryOp .not (g.position (A.position c d)))
    rw [place]
  | opNeg =>
    show Except.ok (Part.unaryOp .neg (B.position c d)) = .ok (.unaryOp .neg (g.position (A.position c d)))
    rw [place]
  -- texts and comments
  | text | stray => exact node (.text _)
  | lineComment | blockComment => exact node .comment
  | rawBlock =>
    rcases parts with _ | ⟨p, _ | ⟨q, ps⟩⟩
    · rfl
    · cases p with
      | word content start => exact node (.raw _)
      | _ => rfl
    · cases p <;> rfl
  | unterminated => exact congrArg Except.error (hc.fault c d _)
  | escaped => exact node (.escaped _)
  -- directives
  | template =>
    rcases parts with _ | ⟨p, ps⟩
    · rfl
    · cases p <;> rfl
  | ifDirective => exact made (Part.conditional_moved g parts) node
  | ifHead | elseifHead => exact made (Part.soleExpr_moved g _ parts) fun _ => rfl
  | elseifBranch =>
    rcases parts with _ | ⟨p, _ | ⟨q, _ | ⟨x, ps⟩⟩⟩
    · rfl
    · cases p <;> rfl
    · cases p with
      | expr e => cases q <;> rfl
      | _ => rfl
    · cases p with
      | expr e => cases q <;> rfl
      | _ => rfl
  | elseBranch =>
    rcases parts with _ | ⟨p, _ | ⟨q, _ | ⟨x, ps⟩⟩⟩
    · rfl
    · rfl
    · cases q <;> rfl
    · cases q <;> rfl
  | foreachDirective => exact made (Part.loop_moved g parts) node
  | foreachHead =>
    rcases parts with _ | ⟨p, _ | ⟨q, _ | ⟨x, ps⟩⟩⟩
    · rfl
    · cases p <;> rfl
    · cases p with
      | word var start => exact made (Part.toExpr_moved g q) fun _ => rfl
      | _ => rfl
    · cases p <;> rfl
  | loopVar =>
    rcases parts with _ | ⟨p, _ | ⟨q, ps⟩⟩
    · rfl
    · cases p <;> rfl
    · cases p <;> rfl
  | setDirective => exact made (Part.assignment_moved g parts) node
  | macroDirective =>
    refine made ?_ node
    rw [← place]
    exact Part.definition_moved g hc _ parts
  | macroHead =>
    rcases parts with _ | ⟨p, params⟩
    · rfl
    · cases p with
      | word name start =>
        refine made (g.mapM_answer (Part.toParam_moved g) params) fun qs => ?_
        show Except.ok (Part.macroHead _ _) = Except.ok (Part.macroHead _ _)
        rw [Relocation.paramList_eq]
      | _ => rfl
  | macroParam =>
    show Part.parameter (B.position c d) _ = _
    rw [← place]
    exact Part.parameter_moved g _ parts
  | parseDirective => exact made (Part.soleExpr_moved g _ parts) fun e => node (.parse e)
  | includeDirective =>
    refine made (exprs parts) fun es => ?_
    rw [← Relocation.exprList_eq]
    exact node (.inclusion es)
  | evaluateDirective => exact made (Part.soleExpr_moved g _ parts) fun e => node (.evaluate e)
  | stopDirective => exact node .stop
  | breakDirective =>
    rcases parts with _ | ⟨p, ps⟩
    · exact node (.leave _)
    · cases p <;> exact node (.leave _)
  -- macro calls
  | blockMacroCall => exact made (Part.blockCall_moved g _ parts) node
  | blockCallHead => exact made (Part.call_moved g parts) fun _ => rfl
  | macroCall => exact made (Part.call_moved g parts) fun call => node (.macroCall ⟨call.1, call.2, none, _⟩)
  | macroArgs =>
    refine made (g.mapM_answer (Part.toArg_moved g) parts) fun as => ?_
    show Except.ok (Part.args _) = Except.ok (Part.args _)
    rw [Relocation.argumentList_eq]
  | namedArg =>
    rcases parts with _ | ⟨p, _ | ⟨q, _ | ⟨x, ps⟩⟩⟩
    · rfl
    · cases p <;> rfl
    · cases p with
      | word name start => exact made (Part.toExpr_moved g q) fun _ => rfl
      | _ => rfl
    · cases p <;> rfl
  | positionalArg => exact made (Part.soleExpr_moved g _ parts) fun _ => rfl
  | bareWord => exact expr (.bareWord _)
  -- expressions
  | expr => exact made (Part.operation_moved hg [] [] none none parts) fun _ => rfl
  | range =>
    rcases parts with _ | ⟨p, _ | ⟨q, _ | ⟨x, ps⟩⟩⟩
    · rfl
    · rfl
    · exact made (Part.toExpr_moved g p) fun lower =>
        made (Part.toExpr_moved g q) fun upper => expr (.range lower upper)
    · rfl
  | list =>
    refine made (exprs parts) fun es => ?_
    rw [← Relocation.exprList_eq]
    exact expr (.list es)
  | map =>
    refine made (g.mapM_answer (Part.toEntry_moved g) parts) fun es => ?_
    rw [← Relocation.entryList_eq]
    exact expr (.map es)
  | mapEntry =>
    rcases parts with _ | ⟨p, _ | ⟨q, _ | ⟨x, ps⟩⟩⟩
    · rfl
    · rfl
    · exact made (Part.toExpr_moved g p) fun _ => made (Part.toExpr_moved g q) fun _ => rfl
    · rfl
  | sqString =>
    rcases parts with _ | ⟨p, _ | ⟨q, ps⟩⟩
    · rfl
    · cases p with
      | word content start => exact expr (.literal _)
      | _ => rfl
    · cases p <;> rfl
  | number =>
    unfold Rule.meaning
    dsimp only
    split
    · exact expr (.literal _)
    · exact congrArg Except.error (hc.fault c d _)
  | boolean | nullLit => exact expr (.literal _)
  -- references
  | reference =>
    refine made ?_ fun _ => rfl
    rw [← place]
    exact Part.referenceOf_moved g _ _ parts
  | formal => exact made (Part.pathOf_moved g parts) fun _ => rfl
  | methodCall =>
    rcases parts with _ | ⟨p, as⟩
    · rfl
    · cases p with
      | word name start =>
        refine made (exprs as) fun es => ?_
        rw [← Relocation.exprList_eq]
        exact segment (.method _ es)
      | _ => rfl
  | property =>
    rcases parts with _ | ⟨p, _ | ⟨q, ps⟩⟩
    · rfl
    · cases p with
      | word name start => exact segment (.property _)
      | _ => rfl
    · cases p <;> rfl
  | index => exact made (Part.soleExpr_moved g _ parts) fun e => segment (.index e)

end

end Stencil
