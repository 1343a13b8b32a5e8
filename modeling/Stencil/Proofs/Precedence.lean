import Stencil.Proofs.Reading.Matching
import Stencil.Proofs.Reading.Operands
import Stencil.Render.Node

/-!
# Which operators bind tighter

Operators and operands of an expression make one tree: that in which `*` stands below `+`, `+` below `<` and so on,
and operators of one layer group to the left. Main statement: `Tree.layered_of_readTree`.
-/

namespace Stencil

/-! ### Operations -/

/-- A word of an expression: an operator in front of an operand, one between operands, or an operand. -/
inductive Token where
  | before (op : UnaryOp) (start : Position)
  | between (op : BinaryOp)
  | operand (e : Expr)

/-- Operands under operators. -/
inductive Operation where
  | operand (e : Expr)
  | prefixed (op : UnaryOp) (start : Position) (t : Operation)
  | infixed (op : BinaryOp) (left right : Operation)

/-- The operators between operands, the loosest first. -/
def BinaryOp.layers : List (List BinaryOp) :=
  [[or], [and], [eq, ne], [lt, le, gt, ge], [add, sub], [mul, div, mod]]

lemma BinaryOp.mem_layers (op : BinaryOp) : op ∈ layers.flatten := by
  cases op <;> decide

lemma BinaryOp.nodup_layers : layers.flatten.Nodup := by
  decide

namespace Operation

/-- Operators and operands from left to right. -/
def tokens : Operation → List Token
  | operand e => [.operand e]
  | prefixed op start t => .before op start :: t.tokens
  | infixed op left right => left.tokens ++ .between op :: right.tokens

/-- Whether operators bind by layers, given the loosest first: one between operands has on its left what its own layer
and tighter ones bind, and on its right what tighter ones bind. Operators in front of an operand bind tightest. -/
inductive Layered : List (List BinaryOp) → Operation → Prop
  | operand (e : Expr) : Layered [] (operand e)
  | prefixed (op : UnaryOp) (start : Position) {t} : Layered [] t → Layered [] (prefixed op start t)
  | tighter {ops layers t} : Layered layers t → Layered (ops :: layers) t
  | infixed {op ops layers left right} : op ∈ ops → Layered (ops :: layers) left → Layered layers right →
    Layered (ops :: layers) (infixed op left right)

/-- The expression with a minus worked out in front of a number. -/
def expr : Operation → Expr
  | operand e => e
  | prefixed op start t => .ofPrefix op start t.expr
  | infixed op left right => .ofInfix op left.expr right.expr

/-- The expression with each operator as it is written. -/
def plain : Operation → Expr
  | operand e => e
  | prefixed op start t => ⟨.unary op t.plain, start.to t.plain.position⟩
  | infixed op left right => .ofInfix op left.plain right.plain

/-! ### One tree only -/

/-- Lists are cut alike at their last elements of a kind. -/
lemma eq_of_append_cons {α : Type} {P : α → Prop} {as bs cs ds : List α} {x y : α}
    (h : as ++ x :: bs = cs ++ y :: ds) (hx : P x) (hy : P y) (hb : ∀ z ∈ bs, ¬ P z) (hd : ∀ z ∈ ds, ¬ P z) :
    as = cs ∧ x = y ∧ bs = ds := by
  obtain ⟨between, rfl, later⟩ | ⟨between, rfl, later⟩ := List.append_eq_append_iff.mp h
  · cases between with
    | nil =>
      obtain ⟨rfl, rfl⟩ := List.cons.inj later
      exact ⟨(List.append_nil as).symm, rfl, rfl⟩
    | cons z between =>
      obtain ⟨rfl, rfl⟩ := List.cons.inj later
      exact absurd hy (hb y (List.mem_append_right _ List.mem_cons_self))
  · cases between with
    | nil =>
      obtain ⟨rfl, rfl⟩ := List.cons.inj later
      exact ⟨List.append_nil cs, rfl, rfl⟩
    | cons z between =>
      obtain ⟨rfl, rfl⟩ := List.cons.inj later
      exact absurd hx (hd x (List.mem_append_right _ List.mem_cons_self))

variable {ops : List BinaryOp} {layers : List (List BinaryOp)} {t t' : Operation}

/-- All operators between operands are of the layers. -/
lemma Layered.mem (h : Layered layers t) {op : BinaryOp} (ho : .between op ∈ t.tokens) : op ∈ layers.flatten := by
  induction h with
  | operand e => simp [tokens] at ho
  | prefixed op' start _ ih =>
    simp only [tokens, List.mem_cons, reduceCtorEq, false_or] at ho
    exact ih ho
  | tighter _ ih => exact List.mem_append_right _ (ih ho)
  | infixed hop _ _ ihl ihr =>
    simp only [tokens, List.mem_append, List.mem_cons, Token.between.injEq] at ho
    obtain before | rfl | after := ho
    · exact ihl before
    · exact List.mem_append_left _ hop
    · exact List.mem_append_right _ (ihr after)

/-- An operator of the loosest layer is not among the tighter ones. -/
lemma Layered.not_mem (h : Layered layers t) (distinct : (ops :: layers).flatten.Nodup) :
    ∀ x ∈ t.tokens, ¬ ∃ op ∈ ops, x = .between op := by
  rintro x hx ⟨op, hop, rfl⟩
  exact (List.nodup_append.mp distinct).2.2 op hop op (h.mem hx) rfl

lemma mem_tokens_infixed (op : BinaryOp) (left right : Operation) :
    .between op ∈ (infixed op left right).tokens :=
  List.mem_append_right _ List.mem_cons_self

/-- The words of an expression tell its tree. -/
theorem Layered.unique (h : Layered layers t) (h' : Layered layers t') (distinct : layers.flatten.Nodup)
    (same : t.tokens = t'.tokens) : t = t' := by
  induction h generalizing t' with
  | operand e =>
    cases h' with
    | operand e' =>
      cases same
      rfl
    | prefixed => cases same
  | prefixed op start _ ih =>
    cases h' with
    | operand => cases same
    | prefixed op' start' h' =>
      obtain ⟨first, others⟩ := List.cons.inj same
      cases first
      rw [ih h' distinct others]
  | tighter h ih =>
    cases h' with
    | tighter h' => exact ih h' (List.nodup_append.mp distinct).2.1 same
    | @infixed op' _ _ left' right' hop _ _ =>
      have listed := mem_tokens_infixed op' left' right'
      rw [← same] at listed
      exact absurd ⟨_, hop, rfl⟩ (h.not_mem distinct _ listed)
  | @infixed op ops layers left right hop hl hr ihl ihr =>
    cases h' with
    | tighter h' =>
      have listed := mem_tokens_infixed op left right
      rw [same] at listed
      exact absurd ⟨_, hop, rfl⟩ (h'.not_mem distinct _ listed)
    | infixed hop' hl' hr' =>
      obtain ⟨before, cut, after⟩ := eq_of_append_cons same ⟨_, hop, rfl⟩ ⟨_, hop', rfl⟩
        (hr.not_mem distinct) (hr'.not_mem distinct)
      cases cut
      rw [ihl hl' distinct before, ihr hr' (List.nodup_append.mp distinct).2.1 after]

/-! ### Reading from left to right -/

/-- The operand that stands first, with the operators in front of it. -/
def first : Operation → Operation
  | infixed _ left _ => left.first
  | t => t

/-- The operands that follow, with the operators in front of them, each behind an operator between operands. -/
def rest : Operation → List (BinaryOp × Operation)
  | infixed op left right => left.rest ++ (op, right.first) :: right.rest
  | _ => []

lemma Layered.first_eq (h : Layered [] t) : t.first = t ∧ t.rest = [] := by
  cases h with
  | operand => exact ⟨rfl, rfl⟩
  | prefixed => exact ⟨rfl, rfl⟩

lemma Layered.of_tightest (h : Layered [] t) (layers : List (List BinaryOp)) : Layered layers t := by
  induction layers with
  | nil => exact h
  | cons ops layers ih => exact .tighter ih

/-- A further operand finds its place in a tree. -/
lemma Layered.extend (h : Layered layers t) {op : BinaryOp} (ho : op ∈ layers.flatten) {f : Operation}
    (hf : Layered [] f) : ∃ t', Layered layers t' ∧ t'.first = t.first ∧ t'.rest = t.rest ++ [(op, f)] ∧
      t'.tokens = t.tokens ++ .between op :: f.tokens := by
  -- It becomes the right side of the last operator that is looser than its own, or of the whole tree.
  have whole {t : Operation} {ops : List BinaryOp} {layers : List (List BinaryOp)} (h : Layered (ops :: layers) t)
      (ho : op ∈ ops) : ∃ t', Layered (ops :: layers) t' ∧ t'.first = t.first ∧ t'.rest = t.rest ++ [(op, f)] ∧
        t'.tokens = t.tokens ++ .between op :: f.tokens := by
    refine ⟨.infixed op t f, .infixed ho h (hf.of_tightest layers), rfl, ?_, rfl⟩
    rw [rest, hf.first_eq.1, hf.first_eq.2]
  induction h with
  | operand => cases ho
  | prefixed => cases ho
  | tighter h ih =>
    obtain loosest | later := List.mem_append.mp ho
    · exact whole (.tighter h) loosest
    · obtain ⟨t', layered, first, rest, tokens⟩ := ih later
      exact ⟨t', .tighter layered, first, rest, tokens⟩
  | @infixed op' ops layers left right hop hl hr ihl ihr =>
    obtain loosest | later := List.mem_append.mp ho
    · exact whole (.infixed hop hl hr) loosest
    · obtain ⟨right', layered, first, rest, tokens⟩ := ihr later
      refine ⟨.infixed op' left right', .infixed hop hl layered, rfl, ?_, ?_⟩
      · simp only [Operation.rest, first, rest, List.append_assoc, List.cons_append]
      · simp only [Operation.tokens, tokens, List.append_assoc, List.cons_append]

/-- Operators of the layers and operands behind them make a tree. -/
lemma Layered.extendAll (h : Layered layers t) {fs : List (BinaryOp × Operation)}
    (hf : ∀ f ∈ fs, f.1 ∈ layers.flatten ∧ Layered [] f.2) :
    ∃ t', Layered layers t' ∧ t'.first = t.first ∧ t'.rest = t.rest ++ fs ∧
      t'.tokens = t.tokens ++ fs.flatMap fun f => .between f.1 :: f.2.tokens := by
  induction fs generalizing t with
  | nil => exact ⟨t, h, rfl, (List.append_nil _).symm, (List.append_nil _).symm⟩
  | cons f fs ih =>
    obtain ⟨⟨known, tight⟩, later⟩ := List.forall_mem_cons.mp hf
    obtain ⟨u, layered, first, rest, tokens⟩ := h.extend known tight
    obtain ⟨t', layered', first', rest', tokens'⟩ := ih layered later
    refine ⟨t', layered', first'.trans first, ?_, ?_⟩
    · rw [rest', rest, List.append_assoc]
      rfl
    · rw [tokens', tokens, List.append_assoc]
      rfl

/-- Layers whose operators have the levels from one on, one after the other. -/
def Leveled : Nat → List (List BinaryOp) → Prop
  | _, [] => True
  | n, ops :: layers => (∀ op ∈ ops, op.level = n) ∧ Leveled (n + 1) layers

/-- Pending operators that bind more loosely are not completed. -/
lemma complete_of_lt {pending : Pending} {n : Nat} (h : ∀ x ∈ pending, x.2.level < n) (e : Expr) :
    pending.complete n e = (pending, e) := by
  cases pending with
  | nil => rfl
  | cons x pending =>
    have looser := h x List.mem_cons_self
    rw [Pending.complete, if_neg (Nat.not_le.mpr looser)]

/-- Reading the operands of a tree from left to right is as good as having its expression as an operand: what is
pending afterwards comes to the same for whatever binds no more tightly than the tree does. -/
theorem Layered.reads (h : Layered layers t) {n : Nat} (leveled : Leveled n layers) {pending : Pending}
    (looser : ∀ x ∈ pending, x.2.level < n) (more : List (BinaryOp × Expr)) :
    ∃ waiting e, Expr.ofOperands pending t.first.expr (t.rest.map (fun f => (f.1, f.2.expr)) ++ more) =
        Expr.ofOperands waiting e more ∧
      ∀ m ≤ n, waiting.complete m e = pending.complete m t.expr := by
  induction h generalizing n pending more with
  | operand e => exact ⟨pending, e, rfl, fun _ _ => rfl⟩
  | @prefixed op start t h ih => exact ⟨pending, _, rfl, fun _ _ => rfl⟩
  | tighter h ih =>
    obtain ⟨waiting, e, run, same⟩ := ih leveled.2 (fun x hx => Nat.lt_succ_of_lt (looser x hx)) more
    exact ⟨waiting, e, run, fun m hm => same m (Nat.le_succ_of_le hm)⟩
  | @infixed op ops layers left right hop hl hr ihl ihr =>
    have level : op.level = n := leveled.1 op hop
    obtain ⟨waiting, e, run, same⟩ := ihl leveled looser
      ((op, right.first.expr) :: right.rest.map (fun f => (f.1, f.2.expr)) ++ more)
    -- The operator completes the left side, and waits with it for the right side.
    have step : Expr.ofOperands waiting e
        ((op, right.first.expr) :: right.rest.map (fun f => (f.1, f.2.expr)) ++ more) =
          Expr.ofOperands ((left.expr, op) :: pending) right.first.expr
            (right.rest.map (fun f => (f.1, f.2.expr)) ++ more) := by
      rw [List.cons_append, Expr.ofOperands, level, same n (Nat.le_refl n), complete_of_lt looser]
    have tighter : ∀ x ∈ (left.expr, op) :: pending, x.2.level < n + 1 :=
      List.forall_mem_cons.mpr ⟨level ▸ Nat.lt_succ_self _, fun x hx => Nat.lt_succ_of_lt (looser x hx)⟩
    obtain ⟨waiting', e', run', same'⟩ := ihr leveled.2 tighter more
    refine ⟨waiting', e', ?_, fun m hm => ?_⟩
    · rw [← run', ← step, ← run]
      simp only [first, rest, List.map_append, List.map_cons, List.append_assoc, List.cons_append]
    · rw [same' m (Nat.le_succ_of_le hm), Pending.complete, if_pos (level ▸ hm)]
      rfl

lemma leveled_layers : Leveled 1 BinaryOp.layers := by
  simp [BinaryOp.layers, Leveled, BinaryOp.level]

/-- What is read from left to right is the expression of the tree. -/
lemma Layered.ofOperands_eq (h : Layered BinaryOp.layers t) :
    Expr.ofOperands [] t.first.expr (t.rest.map fun f => (f.1, f.2.expr)) = t.expr := by
  have none : ∀ x ∈ ([] : Pending), x.2.level < 1 := nofun
  obtain ⟨waiting, e, run, same⟩ := h.reads leveled_layers none []
  rw [List.append_nil] at run
  rw [run, Expr.ofOperands, same 0 (Nat.zero_le 1)]
  rfl

/-! ### Values -/

lemma position_ofPrefix (op : UnaryOp) (start : Position) (e : Expr) :
    (Expr.ofPrefix op start e).position = start.to e.position := by
  unfold Expr.ofPrefix
  split
  · split <;> rfl
  · rfl
  · rfl

lemma position_plain (t : Operation) : t.plain.position = t.expr.position := by
  induction t with
  | operand e => rfl
  | prefixed op start t ih => rw [plain, expr, position_ofPrefix, ih]
  | infixed op left right ihl ihr =>
    show left.plain.position.to right.plain.position = left.expr.position.to right.expr.position
    rw [ihl, ihr]

lemma length_tokens_pos (t : Operation) : 0 < t.tokens.length := by
  cases t with
  | operand e => exact Nat.one_pos
  | prefixed op start t => exact Nat.succ_pos _
  | infixed op left right => exact List.length_pos_of_mem (mem_tokens_infixed op left right)

/-- A minus that is worked out has the value that it would have otherwise. -/
lemma eval_ofPrefix (depth : Nat) (lenient : Bool) (op : UnaryOp) (start : Position) (e : Expr) :
    (Interpreter.ofDepth (depth + 2)).eval lenient (.ofPrefix op start e) =
      (Interpreter.ofDepth (depth + 2)).eval lenient ⟨.unary op e, start.to e.position⟩ := by
  obtain ⟨kind, position⟩ := e
  unfold Expr.ofPrefix
  dsimp only
  split
  · next n =>
    split
    · rfl
    · next other =>
      have negative (env : RenderEnv) (s : RenderState) :
          (Interpreter.ofDepth (depth + 2)).eval lenient
            ⟨.unary .neg ⟨.literal (.int n), position⟩, start.to position⟩ env s =
          Render.orFail (start.to position) (Value.negate s.store (.int n)) env s := rfl
      funext env s
      rw [negative, Value.negate, int64?_neg other]
      rfl
  · rfl
  · rfl

/-- The value of an operation does not depend on whether a minus is worked out in front of a number. -/
theorem eval_plain (t : Operation) {depth : Nat} (deep : t.tokens.length ≤ depth) (lenient : Bool) :
    (Interpreter.ofDepth depth).eval lenient t.expr = (Interpreter.ofDepth depth).eval lenient t.plain := by
  induction t generalizing depth lenient with
  | operand e => rfl
  | prefixed op start t ih =>
    have some : 0 < t.tokens.length := t.length_tokens_pos
    rw [tokens, List.length_cons] at deep
    obtain ⟨depth, rfl⟩ : ∃ d, depth = d + 2 := ⟨depth - 2, by omega⟩
    have room : t.tokens.length ≤ depth + 1 := by omega
    have same := ih room
    rw [expr, eval_ofPrefix]
    show (Interpreter.ofDepth (depth + 1)).evaluate lenient _ = (Interpreter.ofDepth (depth + 1)).evaluate lenient _
    rw [plain, position_plain]
    cases op with
    | not => simp only [Interpreter.evaluate, same]
    | neg => simp only [Interpreter.evaluate, Interpreter.value, Interpreter.refuseNull, same, position_plain]
  | infixed op left right ihl ihr =>
    rw [tokens, List.length_append, List.length_cons] at deep
    obtain ⟨depth, rfl⟩ : ∃ d, depth = d + 1 := ⟨depth - 1, by omega⟩
    have rooml : left.tokens.length ≤ depth := by omega
    have roomr : right.tokens.length ≤ depth := by omega
    have samel := ihl rooml
    have samer := ihr roomr
    show (Interpreter.ofDepth depth).evaluate lenient (.ofInfix op left.expr right.expr) =
      (Interpreter.ofDepth depth).evaluate lenient (.ofInfix op left.plain right.plain)
    cases op <;> simp only [Expr.ofInfix, Interpreter.evaluate, Interpreter.logical, Interpreter.operation,
      Interpreter.refuseNull, samel, samer, position_plain]

end Operation

/-! ### Words of the text -/

/-- How an operator in front of an operand is written. -/
def UnaryOp.spellings : UnaryOp → List String
  | not => ["!", "not"]
  | neg => ["-"]

/-- How an operator between operands is written. -/
def BinaryOp.spellings : BinaryOp → List String
  | or => ["||", "or"]
  | and => ["&&", "and"]
  | eq => ["==", "eq"]
  | ne => ["!=", "ne"]
  | lt => ["<", "lt"]
  | le => ["<=", "le"]
  | gt => [">", "gt"]
  | ge => [">=", "ge"]
  | op => [op.symbol]

def Rule.unaryOp? : Rule → Option UnaryOp
  | opNot => some .not
  | opNeg => some .neg
  | _ => none

/-- Which word of an expression a match stands for: an operator that is spelled there, or the operand that the match
means, which may stand in parentheses. -/
inductive Token.Read (site : Site) (inner : Site → List Char → Except Failure Block) : Tree Rule → Token → Prop
  | before {r c d ts op} : r.unaryOp? = some op → String.ofList (c.upTo d) ∈ op.spellings →
    Read site inner (.node r c d ts) (.before op (site.position c d))
  | between {r c d ts op} : r.binaryOp? = some op → String.ofList (c.upTo d) ∈ op.spellings →
    Read site inner (.node r c d ts) (.between op)
  | operand {t part e} : t.rule ∈ Rule.values → t.eval (Rule.meaning site inner) = .ok part →
    part.toExpr = .ok e → Read site inner t (.operand e)

/-- A pattern of a symbol or a word reads one of them. -/
lemma Pattern.spells_symbolOrWord {symbol word : String} {q : Pattern} {c d : Cursor}
    (h : (Pattern.alt (lit symbol) (.seq (lit word) (.absent q))).run c = some d) :
    String.ofList (c.upTo d) ∈ [symbol, word] := by
  obtain ⟨cs, reach, spells⟩ := spells_of_run h
  rw [reach.upTo_eq]
  obtain rfl | ⟨_, _, rfl, rfl, rfl⟩ := spells
  · rw [String.ofList_toList]
    exact List.mem_cons_self
  · rw [List.append_nil, String.ofList_toList]
    exact List.mem_cons_of_mem _ List.mem_cons_self

lemma Pattern.spells_lit {symbol : String} {c d : Cursor} (h : (lit symbol).run c = some d) :
    String.ofList (c.upTo d) ∈ [symbol] := by
  obtain ⟨cs, reach, rfl⟩ := spells_of_run h
  rw [reach.upTo_eq, String.ofList_toList]
  exact List.mem_cons_self

namespace Rule

variable {site : Site} {inner : Site → List Char → Except Failure Block} {r : Rule} {c d : Cursor}
  {ts : List (Tree Rule)}

lemma of_word_node {p : Pattern} (hp : body r = .word p) (hd : Peg.Derives body (.rule r) c d [.node r c d ts]) :
    p.run c = some d ∧ ts = [] := by
  obtain ⟨run, single⟩ := hd.of_word hp
  cases single
  exact ⟨run, rfl⟩

lemma spelled_unary {op : UnaryOp} (h : r.unaryOp? = some op)
    (hd : Peg.Derives body (.rule r) c d [.node r c d ts]) : String.ofList (c.upTo d) ∈ op.spellings := by
  cases r <;> cases h
  case opNeg => exact Pattern.spells_lit (of_word_node rfl hd).1
  case opNot =>
    obtain ⟨cs, reach, spells⟩ := Pattern.spells_of_run (of_word_node rfl hd).1
    rw [reach.upTo_eq]
    obtain ⟨_, _, rfl, rfl, rfl⟩ | ⟨_, _, rfl, rfl, rfl⟩ := spells
    · exact List.mem_cons_self
    · exact List.mem_cons_of_mem _ List.mem_cons_self

lemma spelled_binary {op : BinaryOp} (h : r.binaryOp? = some op)
    (hd : Peg.Derives body (.rule r) c d [.node r c d ts]) : String.ofList (c.upTo d) ∈ op.spellings := by
  cases r <;> cases h
  case opAdd | opSub | opMul | opDiv | opMod => exact Pattern.spells_lit (of_word_node rfl hd).1
  all_goals exact Pattern.spells_symbolOrWord (of_word_node rfl hd).1

/-- What a match of an operand means is an expression. -/
lemma exists_toExpr {t : Tree Rule} {part : Part} (hr : t.rule ∈ values)
    (h : t.eval (meaning site inner) = .ok part) : ∃ e, part.toExpr = .ok e := by
  obtain ⟨r, c, d, ts⟩ := t
  rw [Tree.eval] at h
  obtain ⟨parts, -, h⟩ := ok_of_bind h
  simp only [values, Tree.rule, List.mem_cons, List.not_mem_nil, or_false] at hr
  obtain rfl | rfl | rfl | rfl | rfl | rfl | rfl | rfl | rfl | rfl := hr
  · obtain ⟨e, -, h⟩ := ok_of_bind h
    cases h
    exact ⟨_, rfl⟩
  · simp only [meaning] at h
    split at h
    · obtain ⟨lower, -, h⟩ := ok_of_bind h
      obtain ⟨upper, -, h⟩ := ok_of_bind h
      cases h
      exact ⟨_, rfl⟩
    · cases h
  · obtain ⟨items, -, h⟩ := ok_of_bind h
    cases h
    exact ⟨_, rfl⟩
  · obtain ⟨entries, -, h⟩ := ok_of_bind h
    cases h
    exact ⟨_, rfl⟩
  · simp only [meaning] at h
    split at h
    · obtain ⟨kind, -, h⟩ := ok_of_bind h
      cases h
      exact ⟨_, rfl⟩
    · cases h
  · simp only [meaning] at h
    split at h
    · cases h
      exact ⟨_, rfl⟩
    · cases h
  · simp only [meaning] at h
    split at h
    · cases h
      exact ⟨_, rfl⟩
    · cases h
  · cases h
    exact ⟨_, rfl⟩
  · cases h
    exact ⟨_, rfl⟩
  · obtain ⟨q, -, h⟩ := ok_of_bind h
    cases h
    exact ⟨_, rfl⟩

lemma exists_unaryOp (hr : r ∈ unary) : ∃ op, r.unaryOp? = some op := by
  simp only [unary, List.mem_cons, List.not_mem_nil, or_false] at hr
  obtain rfl | rfl := hr
  · exact ⟨_, rfl⟩
  · exact ⟨_, rfl⟩

lemma exists_binaryOp (hr : r ∈ binary) : ∃ op, r.binaryOp? = some op := by
  have all : ∀ r ∈ binary, r.binaryOp?.isSome = true := by decide
  exact Option.isSome_iff_exists.mp (all r hr)

lemma meaning_unary {op : UnaryOp} (h : r.unaryOp? = some op) (parts : List Part) :
    meaning site inner r c d parts = .ok (.unaryOp op (site.position c d)) := by
  cases r <;> cases h <;> rfl

lemma meaning_binary {op : BinaryOp} (h : r.binaryOp? = some op) (parts : List Part) :
    meaning site inner r c d parts = .ok (.binaryOp op) := by
  cases r <;> cases h <;> rfl

end Rule

/-- A match stands for one word. -/
lemma Token.rightUnique_read (site : Site) (inner : Site → List Char → Except Failure Block) :
    Relator.RightUnique (Read site inner) := by
  intro t a b ha hb
  have apart : ∀ r ∈ Rule.values, r.unaryOp? = none ∧ r.binaryOp? = none := by decide
  have separate (r : Rule) (op : UnaryOp) (op' : BinaryOp) : r.unaryOp? = some op → r.binaryOp? = some op' → False := by
    cases r <;> rintro ⟨⟩ ⟨⟩
  cases ha with
  | before hr =>
    cases hb with
    | before hr' =>
      rw [hr] at hr'
      cases hr'
      rfl
    | between hr' => exact (separate _ _ _ hr hr').elim
    | operand hv => exact nomatch hr.symm.trans (apart _ hv).1
  | between hr =>
    cases hb with
    | before hr' => exact (separate _ _ _ hr' hr).elim
    | between hr' =>
      rw [hr] at hr'
      cases hr'
      rfl
    | operand hv => exact nomatch hr.symm.trans (apart _ hv).2
  | operand hv eval expr =>
    cases hb with
    | before hr => exact nomatch hr.symm.trans (apart _ hv).1
    | between hr => exact nomatch hr.symm.trans (apart _ hv).2
    | operand _ eval' expr' =>
      rw [eval] at eval'
      cases eval'
      rw [expr] at expr'
      cases expr'
      rfl

namespace Tree

variable {site : Site} {inner : Site → List Char → Except Failure Block} {ts : List (Tree Rule)} {parts : List Part}

/-- Whether each tree was read by its rule. -/
def Derived (ts : List (Tree Rule)) : Prop := ∀ t ∈ ts, Peg.Derives Rule.body (.rule t.rule) t.start t.stop [t]

/-- An operand with the operators in front of it is read as one, and these are applied from the inside out. -/
lemma Operand.reads (h : Operand ts) (derived : Derived ts)
    (made : evalAll (Rule.meaning site inner) ts = .ok parts) :
    ∃ f, Operation.Layered [] f ∧ List.Forall₂ (Token.Read site inner) ts f.tokens ∧
      ∀ pending chain op? first? rest, Part.operation pending chain op? first? (parts ++ rest) =
        let e := pending.foldl (fun e x => .ofPrefix x.1 x.2 e) f.expr
        match op?, first? with
        | some op, some _ => Part.operation [] ((op, e) :: chain) none first? rest
        | _, _ => Part.operation [] chain none (some e) rest := by
  induction h generalizing parts with
  | value hr =>
    obtain ⟨p, ps, first, others, rfl⟩ := exists_of_evalAll_cons made
    cases others
    obtain ⟨e, he⟩ := Rule.exists_toExpr hr first
    refine ⟨.operand e, .operand e, .cons (.operand hr first he) .nil, fun pending chain op? first? rest => ?_⟩
    cases p <;> cases he
    · rfl
    · rfl
  | @unary t ts hr _ ih =>
    obtain ⟨r, c, d, us⟩ := t
    obtain ⟨here, later⟩ := List.forall_mem_cons.mp derived
    obtain ⟨p, ps, first, others, rfl⟩ := exists_of_evalAll_cons made
    obtain ⟨op, hop⟩ : ∃ op, r.unaryOp? = some op := Rule.exists_unaryOp hr
    obtain ⟨_, -, first⟩ := ok_of_bind first
    rw [Rule.meaning_unary hop] at first
    cases first
    obtain ⟨f, layered, read, run⟩ := ih later others
    exact ⟨.prefixed op (site.position c d) f, .prefixed op _ layered,
      .cons (.before hop (Rule.spelled_unary hop here)) read,
      fun pending chain op? first? rest => run ((op, site.position c d) :: pending) chain op? first? rest⟩

/-- Operands behind operators are read in order. -/
lemma Operands.reads (h : Operands ts) (derived : Derived ts)
    (made : evalAll (Rule.meaning site inner) ts = .ok parts) :
    ∃ fs : List (BinaryOp × Operation), (∀ f ∈ fs, Operation.Layered [] f.2) ∧
      List.Forall₂ (Token.Read site inner) ts (fs.flatMap fun f => .between f.1 :: f.2.tokens) ∧
      ∀ chain first, Part.operation [] chain none (some first) parts =
        .ok (Expr.ofOperands [] first (chain.reverse ++ fs.map fun f => (f.1, f.2.expr))) := by
  induction h generalizing parts with
  | nil =>
    cases made
    refine ⟨[], nofun, .nil, fun chain first => ?_⟩
    rw [List.map_nil, List.append_nil]
    rfl
  | @binary t ts us hr operand _ ih =>
    obtain ⟨r, c, d, vs⟩ := t
    obtain ⟨here, later⟩ := List.forall_mem_cons.mp derived
    obtain ⟨front, back⟩ := List.forall_mem_append.mp later
    obtain ⟨p, ps, first, others, rfl⟩ := exists_of_evalAll_cons made
    obtain ⟨op, hop⟩ : ∃ op, r.binaryOp? = some op := Rule.exists_binaryOp hr
    obtain ⟨_, -, first⟩ := ok_of_bind first
    rw [Rule.meaning_binary hop] at first
    cases first
    obtain ⟨as, bs, hts, hus, rfl⟩ := evalAll_append _ others
    obtain ⟨f, layered, read, run⟩ := operand.reads front hts
    obtain ⟨fs, all, reads, runs⟩ := ih back hus
    refine ⟨(op, f) :: fs, List.forall_mem_cons.mpr ⟨layered, all⟩,
      .cons (.between hop (Rule.spelled_binary hop here)) (List.rel_append read reads), fun chain first => ?_⟩
    have step : Part.operation [] chain none (some first) (.binaryOp op :: (as ++ bs)) =
        Part.operation [] ((op, f.expr) :: chain) none (some first) bs := run [] chain (some op) (some first) bs
    rw [step, runs, List.reverse_cons, List.append_assoc]
    rfl

/-- **Operators bind by layers.** Whatever text is read, the operators and operands of an expression in it are in
order the words of a tree in which operators bind by layers and group to the left, and that tree is the only one. The
expression stands for it, and its value is that of the tree with every operator as it is written. -/
theorem layered_of_readTree {text : List Char} {tree : Tree Rule} (read : readTree text = .ok tree) {c d : Cursor}
    (inside : tree.Holds (.node .expr c d ts)) (made : evalAll (Rule.meaning site inner) ts = .ok parts) :
    ∃ t : Operation, t.Layered BinaryOp.layers ∧ List.Forall₂ (Token.Read site inner) ts t.tokens ∧
      (∀ t' : Operation, t'.Layered BinaryOp.layers → List.Forall₂ (Token.Read site inner) ts t'.tokens → t' = t) ∧
      (Tree.node .expr c d ts).eval (Rule.meaning site inner) = .ok (.expr t.expr) ∧
      ∀ depth ≥ t.tokens.length, ∀ lenient,
        (Interpreter.ofDepth depth).eval lenient t.expr = (Interpreter.ofDepth depth).eval lenient t.plain := by
  obtain ⟨place, whole⟩ := inside.derived read
  obtain ⟨us, vs, rfl, operand, operands⟩ := expression_of_derives whole
  have derived : Derived (us ++ vs) := fun t listed =>
    (whole.holds place _ (List.mem_singleton_self _) t (.child listed .self)).2
  obtain ⟨front, back⟩ := List.forall_mem_append.mp derived
  obtain ⟨ps, qs, hus, hvs, rfl⟩ := evalAll_append _ made
  obtain ⟨f, tight, words, run⟩ := operand.reads front hus
  obtain ⟨fs, all, others, runs⟩ := operands.reads back hvs
  have known : ∀ f ∈ fs, f.1 ∈ BinaryOp.layers.flatten ∧ Operation.Layered [] f.2 := fun f hf =>
    ⟨BinaryOp.mem_layers f.1, all f hf⟩
  obtain ⟨t, layered, first, rest, tokens⟩ := (tight.of_tightest BinaryOp.layers).extendAll known
  rw [tight.first_eq.1] at first
  rw [tight.first_eq.2, List.nil_append] at rest
  have wording : List.Forall₂ (Token.Read site inner) (us ++ vs) t.tokens := tokens ▸ List.rel_append words others
  refine ⟨t, layered, wording, fun t' layered' wording' => ?_, ?_, fun depth deep lenient => t.eval_plain deep lenient⟩
  · have same := List.right_unique_forall₂' (Token.rightUnique_read site inner) wording' wording
    exact layered'.unique layered BinaryOp.nodup_layers same
  · have value : Part.operation [] [] none none (ps ++ qs) = .ok t.expr := by
      have whole : Part.operation [] [] none none (ps ++ qs) = Part.operation [] [] none (some f.expr) qs :=
        run [] [] none none qs
      rw [whole, runs, ← layered.ofOperands_eq, first, rest]
      rfl
    rw [eval, made]
    show (do return Part.expr (← Part.operation [] [] none none (ps ++ qs))) = _
    rw [value]
    rfl

/-- An expression with operators of several layers, in front of operands and between them. -/
theorem layered_of_readTree_mixed :
    let text := "#set($x = -1 - !$y * (2 + 3) lt 4 or $z)".toList
    let meaning := Rule.meaning (.ofSource ⟨"t", String.ofList text⟩) (readBlock 1)
    ∃ tree c d ts parts, (readTree text = .ok tree ∧ tree.Holds (.node .expr c d ts) ∧
        evalAll meaning ts = .ok parts) ∧
      ∃ t : Operation, t.Layered BinaryOp.layers ∧
        List.Forall₂ (Token.Read (.ofSource ⟨"t", String.ofList text⟩) (readBlock 1)) ts t.tokens ∧
        (∀ t' : Operation, t'.Layered BinaryOp.layers →
          List.Forall₂ (Token.Read (.ofSource ⟨"t", String.ofList text⟩) (readBlock 1)) ts t'.tokens → t' = t) ∧
        (Tree.node .expr c d ts).eval meaning = .ok (.expr t.expr) ∧
        ∀ depth ≥ t.tokens.length, ∀ lenient,
          (Interpreter.ofDepth depth).eval lenient t.expr = (Interpreter.ofDepth depth).eval lenient t.plain := by
  intro text meaning
  -- The expression is the second part of the directive, which is the first node of the block.
  have made : ((readTree text).toOption.bind fun tree => tree.children.head?.bind fun block =>
      block.children.head?.bind fun directive => directive.children[1]?.bind fun t =>
        if t.rule = .expr ∧ (evalAll meaning t.children).isOk then some t else none).isSome := by
    decide +kernel
  obtain ⟨found, made⟩ := Option.isSome_iff_exists.mp made
  obtain ⟨tree, read, made⟩ := Option.bind_eq_some_iff.mp made
  obtain ⟨block, hblock, made⟩ := Option.bind_eq_some_iff.mp made
  obtain ⟨directive, hdirective, made⟩ := Option.bind_eq_some_iff.mp made
  obtain ⟨⟨r, c, d, ts⟩, ht, made⟩ := Option.bind_eq_some_iff.mp made
  obtain ⟨⟨rfl, ok⟩, -⟩ := Option.ite_none_right_eq_some.mp made
  have inside : tree.Holds (.node .expr c d ts) :=
    .child (List.mem_of_mem_head? hblock) (.child (List.mem_of_mem_head? hdirective)
      (.child (List.mem_of_getElem? ht) .self))
  cases outcome : readTree text with
  | error refusal =>
    rw [outcome] at read
    cases read
  | ok t =>
    rw [outcome] at read
    obtain rfl := Option.some.inj read
    cases parts : evalAll meaning ts with
    | error f =>
      rw [show evalAll meaning (Tree.node .expr c d ts).children = .error f from parts] at ok
      cases ok
    | ok ps => exact ⟨t, c, d, ts, ps, ⟨rfl, inside, parts⟩, layered_of_readTree outcome inside parts⟩

end Tree

end Stencil
