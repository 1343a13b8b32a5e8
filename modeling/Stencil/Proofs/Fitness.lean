import Stencil.Proofs.Violations

/-!
# Trees fit for rendering

Nothing in a compiled template is a word without quotes in the place of a value, an assignment to a method call or
a `#break` with a label that no scope answers to. Main statements: `Template.Compiled.fit`, what the words of a
template may stand for comes from the grammar and is kept by gobbling, and the rest is what compiling checks.
-/

namespace Stencil

/-! ### Bare words in parsed trees -/

namespace Rule

variable {site : Site} {inner : Site → List Char → Except Failure Block}

lemma meets_number_meaning {c d : Cursor} {ps : List Part} :
    Meets (fun _ => True) number.Makes (number.meaning site inner c d ps) := by
  simp only [meaning]
  cases Literal.ofNumber (c.upTo d) with
  | ok l => exact ⟨_, rfl, Expr.valued_literal _ _⟩
  | error f => exact trivial

/-- Every rule makes parts of its kind, if the words of what it reads in turn are arguments. -/
lemma meets_match (hi : ∀ site text, Meets (fun _ => True) Block.Orderly (inner site text)) {text : List Char}
    {r : Rule} {c d : Cursor} {ps : List Part} (m : Grammar.Match body (meaning site inner) Makes text r c d ps) :
    Meets (fun _ => True) r.Makes (r.meaning site inner c d ps) := by
  by_cases hr : r ∈ [unterminated, number, dqString]
  · simp only [List.mem_cons, List.not_mem_nil, or_false] at hr
    rcases hr with rfl | rfl | rfl
    · exact trivial
    · exact meets_number_meaning
    · obtain ⟨w, rfl, -⟩ := exists_quoted m
      exact meets_quoted fun _ _ _ => hi _ _
  · exact meets_meaning hr fun g hg => rows_of_body hg ▸ m.filled g hg

/-- What a text is read as stands for a block whose words are arguments, if anything. -/
lemma meets_template (site : Site) (inner : Site → List Char → Except Failure Block) {text : List Char}
    {t : Tree Rule} (ht : readTree text = .ok t)
    (hi : ∀ site text', Meets (fun _ => True) Block.Orderly (inner site text')) :
    Meets (fun _ => True) template.Makes (t.eval (meaning site inner)) :=
  meets_eval ht fun _ m => meets_match hi m

end Rule

/-- Whatever is read as a block has words in the place of arguments only. -/
lemma meets_readBlock_orderly (depth : Nat) (site : Site) (text : List Char) :
    Meets (fun _ => True) Block.Orderly (readBlock depth site text) := by
  induction depth generalizing site text with
  | zero => exact trivial
  | succ depth ih =>
    exact meets_readBlock_succ (fun _ _ => trivial) fun t ht => Rule.meets_template site (readBlock depth) ht ih

/-! ### Gobbling -/

namespace Gobbling

lemma stripBlock_eq (spans : List Span) (b : Block) : stripBlock spans b = b.filterMap (stripNode spans) := by
  induction b with
  | nil => rfl
  | cons n b ih =>
    rw [stripBlock]
    cases hn : stripNode spans n with
    | none => rw [List.filterMap_cons_none hn]; exact ih
    | some m => rw [List.filterMap_cons_some hn]; exact congrArg (m :: ·) ih

lemma stripBranches_eq (spans : List Span) (bs : List Branch) :
    stripBranches spans bs = bs.map fun b => ⟨b.condition, stripBlock spans b.body⟩ := by
  induction bs with
  | nil => rfl
  | cons b bs ih =>
    obtain ⟨condition, body⟩ := b
    exact congrArg (⟨condition, stripBlock spans body⟩ :: ·) ih

/-- What is left of a node has the expressions that it had, and what is left of its blocks. -/
structure Stripped (spans : List Span) (k k' : NodeKind) : Prop where
  exprs : k'.subexprs = k.subexprs
  isCall : k'.isCall = k.isCall
  blocks : k'.subblocks = k.subblocks.map (stripBlock spans)

lemma stripped_of_stripKind {spans : List Span} {offset : Nat} {k k' : NodeKind}
    (h : stripKind spans offset k = some k') : Stripped spans k k' := by
  have kept (o : Option Block) : (stripOption spans o).toList = o.toList.map (stripBlock spans) := by
    cases o <;> rfl
  cases k with
  | text s =>
    rw [stripKind] at h
    split at h
    · cases h
    · cases h
      exact ⟨rfl, rfl, rfl⟩
  | conditional branches otherwise =>
    cases h
    refine ⟨?_, rfl, ?_⟩
    · show (stripBranches spans branches).map (·.condition) = branches.map (·.condition)
      rw [stripBranches_eq, List.map_map]
      rfl
    · show (stripBranches spans branches).map (·.body) ++ (stripOption spans otherwise).toList =
        (branches.map (·.body) ++ otherwise.toList).map (stripBlock spans)
      rw [stripBranches_eq, List.map_map, List.map_append, List.map_map, kept]
      rfl
  | loop var e body otherwise =>
    cases h
    exact ⟨rfl, rfl, congrArg (stripBlock spans body :: ·) (kept otherwise)⟩
  | macroCall c =>
    obtain ⟨name, args, body, literal⟩ := c
    cases h
    exact ⟨rfl, rfl, kept body⟩
  | macroDef d =>
    obtain ⟨name, params, body, source, q⟩ := d
    cases h
    exact ⟨rfl, rfl, rfl⟩
  | _ =>
    cases h
    exact ⟨rfl, rfl, rfl⟩

/-- Gobbling leaves words where they are. -/
theorem orderly_stripNode {spans : List Span} : ∀ {n : Node}, n.Orderly → ∀ m ∈ stripNode spans n, m.Orderly
  | ⟨kind, p⟩, .intro here exprs blocks => by
    intro m hm
    obtain ⟨k', hk, rfl⟩ := Option.map_eq_some_iff.mp (show (stripKind spans p.span.start kind).map (⟨·, p⟩) = some m from hm)
    have same := stripped_of_stripKind hk
    refine .intro ?_ ?_ ?_
    · show k'.isCall ∨ ∀ e ∈ k'.subexprs, e.isWord = false
      rw [same.exprs, same.isCall]
      exact here
    · show ∀ e ∈ k'.subexprs, e.Orderly
      rw [same.exprs]
      exact exprs
    · show ∀ b ∈ k'.subblocks, ∀ m ∈ b, m.Orderly
      rw [same.blocks]
      intro b' hb' m hm
      obtain ⟨b, hb, rfl⟩ := List.mem_map.mp hb'
      rw [stripBlock_eq] at hm
      obtain ⟨n, hn, hm⟩ := List.mem_filterMap.mp hm
      exact orderly_stripNode (blocks b hb n hn) m hm

end Gobbling

lemma Block.Orderly.gobble {b : Block} (h : b.Orderly) (policy : GobblingPolicy) (cs : List Char) (m : MarkerSpans) :
    Block.Orderly (b.gobble policy cs m) := by
  unfold Block.gobble
  split
  · exact h
  · intro m hm
    rw [Gobbling.stripBlock_eq] at hm
    obtain ⟨n, hn, hm⟩ := List.mem_filterMap.mp hm
    exact Gobbling.orderly_stripNode (h n hn) m hm

/-- In a template that parses, words without quotes stand in the place of arguments only. -/
theorem orderly_of_parse {s : Source} {policy : GobblingPolicy} {b : Block} (h : parse s policy = .ok b) :
    b.Orderly := by
  obtain ⟨root, spans, read, rfl⟩ := parse_eq_ok_iff.mp h
  have whole := meets_readBlock_orderly (stringDepth s.text.toList + 1) (.ofSource s) s.text.toList
  rw [readBlock_of_parseTree read] at whole
  exact Block.Orderly.gobble whole policy _ _

/-! ### Fit trees -/

/-- Whether a node is an assignment to a method call or a `#break` with a label that no scope answers to. -/
def NodeKind.isUnfit : NodeKind → Bool
  | assign target _ => target.lastCall?.isSome
  | leave (.unknown _) => true
  | _ => false

/-- Nodes that can be rendered, with expressions that have values. -/
structure NodeKind.Fit (k : NodeKind) : Prop where
  notUnfit : k.isUnfit = false
  noWord : ∀ e ∈ k.subexprs, e.isWord = false

abbrev Node.Fit (n : Node) : Prop := n.Everywhere NodeKind.Fit ExprKind.Orderly

abbrev Expr.Fit (x : Expr) : Prop := x.Everywhere NodeKind.Fit ExprKind.Orderly

abbrev Block.Fit (b : Block) : Prop := b.Everywhere NodeKind.Fit ExprKind.Orderly

lemma Spot.mem_all_of_part {s t u : Spot} (ht : t ∈ s.parts) (hu : u ∈ t.all) : u ∈ s.all := by
  rw [all_eq]
  exact List.mem_cons_of_mem _ (List.mem_flatMap.mpr ⟨t, ht, hu⟩)

lemma Spot.self_mem_all (s : Spot) : s ∈ s.all := by
  rw [all_eq]
  exact List.mem_cons_self ..

/-- A node is fit where it is allowed and words are arguments only. -/
lemma Node.kind_fit {n : Node} {e : Enclosure} (h : n.kind.Orderly) (ha : Spot.Allowed ⟨e, .node n⟩) :
    n.kind.Fit where
  notUnfit := by
    obtain ⟨k, p⟩ := n
    cases k with
    | assign target value =>
      have none : target.lastCall? = none := ha
      exact congrArg Option.isSome none
    | leave scope =>
      cases scope with
      | unknown label => exact absurd rfl (ha.2 label)
      | _ => rfl
    | _ => rfl
  noWord := by
    obtain ⟨k, p⟩ := n
    rcases h with call | h
    · cases k with
      | macroCall c =>
        intro x hx
        obtain ⟨a, harg, rfl⟩ := List.mem_map.mp (show x ∈ c.args.map (·.value) from hx)
        exact ha.1 a harg
      | _ => cases call
    · exact h

/-- A node that is allowed stands in no macro if it defines one. -/
lemma Spot.parts_of_allowed {e : Enclosure} {n : Node} (ha : Spot.Allowed ⟨e, .node n⟩) :
    parts ⟨e, .node n⟩ = (n.kind.operands.map fun x => ⟨e.inside n.kind, .expr x⟩) ++
      n.kind.subblocks.flatMap fun b => b.map fun m => ⟨e.inside n.kind, .node m⟩ := by
  have entered : (e.inMacro && n.kind.isDefinition) = false := by
    obtain ⟨kind, p⟩ := n
    cases kind with
    | macroDef d =>
      have outside : e.inMacro = false := ha.1
      rw [outside]
      rfl
    | _ => exact Bool.and_false _
  show (if e.inMacro && n.kind.isDefinition then [] else _) = _
  rw [entered]
  rfl

lemma NodeKind.mem_subexprs_of_operand {k : NodeKind} {x : Expr} (h : x ∈ k.operands) : x ∈ k.subexprs := by
  cases k with
  | loop var iterable body otherwise =>
    obtain rfl := List.mem_singleton.mp (show x ∈ [iterable] from h)
    exact List.mem_cons_self ..
  | _ => exact h

lemma NodeKind.mem_subexprs {k : NodeKind} {x : Expr} (h : x ∈ k.subexprs) :
    x ∈ k.operands ∨ ∃ y ∈ k.operands, x ∈ y.kind.exprs := by
  cases k with
  | loop var iterable body otherwise =>
    rcases List.mem_cons.mp (show x ∈ iterable :: iterable.kind.exprs from h) with rfl | hx
    · exact .inl (List.mem_singleton_self x)
    · exact .inr ⟨iterable, List.mem_singleton_self _, hx⟩
  | _ => exact .inl h

mutual

/-- A tree is fit where everything in it is allowed and words are arguments only. -/
theorem Node.fit_of : ∀ {n : Node} {e : Enclosure}, n.Orderly → (∀ s ∈ Spot.all ⟨e, .node n⟩, s.Allowed) → n.Fit
  | n, e, .intro here exprs blocks, ha => by
    have parts := Spot.parts_of_allowed (ha _ (Spot.self_mem_all _))
    have operand {x : Expr} (ho : x ∈ n.kind.operands) : x.Fit := by
      refine Expr.fit_of (exprs x (NodeKind.mem_subexprs_of_operand ho)) (e := e.inside n.kind) fun s hs =>
        ha s (Spot.mem_all_of_part ?_ hs)
      rw [parts]
      exact List.mem_append_left _ (List.mem_map_of_mem ho)
    refine .intro (Node.kind_fit here (ha _ (Spot.self_mem_all _))) (fun x hx => ?_) fun b hb m hm => ?_
    · rcases NodeKind.mem_subexprs hx with ho | ⟨y, hy, hxy⟩
      · exact operand ho
      · exact (operand hy).exprs x hxy
    · refine Node.fit_of (blocks b hb m hm) (e := e.inside n.kind) fun s hs => ha s (Spot.mem_all_of_part ?_ hs)
      rw [parts]
      exact List.mem_append_right _ (List.mem_flatMap.mpr ⟨b, hb, List.mem_map_of_mem hm⟩)

theorem Expr.fit_of : ∀ {x : Expr} {e : Enclosure}, x.Orderly → (∀ s ∈ Spot.all ⟨e, .expr x⟩, s.Allowed) → x.Fit
  | x, e, .intro here exprs blocks, ha => by
    refine .intro here (fun y hy => ?_) fun b hb m hm => ?_
    · refine Expr.fit_of (exprs y hy) (e := e) fun s hs => ha s (Spot.mem_all_of_part ?_ hs)
      exact List.mem_append_left _ (List.mem_map_of_mem hy)
    · refine Node.fit_of (blocks b hb m hm) (e := e.quoted) fun s hs => ha s (Spot.mem_all_of_part ?_ hs)
      exact List.mem_append_right _ (List.mem_flatMap.mpr ⟨b, hb, List.mem_map_of_mem hm⟩)

end

/-! ### Compiled templates -/

/-- Macros whose body and whose defaults can be rendered. -/
structure MacroDef.Fit (d : MacroDef) : Prop where
  noWord : ∀ q ∈ d.params, ∀ e ∈ q.fallback, e.isWord = false
  fallback : ∀ q ∈ d.params, ∀ e ∈ q.fallback, e.Fit
  body : Block.Fit d.body

/-- Templates that can be rendered, with macros that can be called. -/
structure Template.Fit (t : Template) : Prop where
  root : Block.Fit t.root
  macros : ∀ e ∈ t.macros.entries, e.2.Fit

/-- Whether some text compiles as a template. -/
def Template.Compiled (t : Template) : Prop := ∃ unit s policy, compile unit s policy = .ok t

lemma Template.compiled_of_compile {u : CodeUnit} {s : Source} {policy : GobblingPolicy} {t : Template}
    (h : compile u s policy = .ok t) : t.Compiled :=
  ⟨u, s, policy, h⟩

lemma Node.fit_definition {d : MacroDef} {p : Position} (h : Node.Fit ⟨.macroDef d, p⟩) : d.Fit where
  noWord q hq e he := h.kind.noWord e (List.mem_flatMap.mpr ⟨q, hq, Option.mem_toList.mpr he⟩)
  fallback q hq e he := h.exprs e (List.mem_flatMap.mpr ⟨q, hq, Option.mem_toList.mpr he⟩)
  body := h.blocks d.body (List.mem_singleton_self _)

/-- What passes from a place to the places directly in it holds of all places in it. -/
lemma Spot.forall_all {P : Spot → Prop} (hp : ∀ {s t}, P s → t ∈ s.parts → P t) {s : Spot} (hs : P s) :
    ∀ u ∈ s.all, P u := by
  induction hk : s.size using Nat.strongRecOn generalizing s with
  | ind k ih =>
    subst hk
    intro u hu
    rw [all_eq] at hu
    rcases List.mem_cons.mp hu with rfl | hu
    · exact hs
    · obtain ⟨t, ht, hu⟩ := List.mem_flatMap.mp hu
      exact ih t.size (size_parts ht) (hp hs ht) rfl u hu

def Piece.Fit : Piece → Prop
  | .node n => n.Fit
  | .expr x => x.Fit

lemma Spot.fit_part {s t : Spot} (hs : s.piece.Fit) (ht : t ∈ s.parts) : t.piece.Fit := by
  have within := piece_of_part ht
  obtain ⟨_, piece⟩ := s
  obtain ⟨_, part⟩ := t
  cases within with
  | operand hx => exact Node.Everywhere.exprs hs _ (NodeKind.mem_subexprs_of_operand hx)
  | subblock hb hm => exact Node.Everywhere.blocks hs _ hb _ hm
  | expr hy => exact Expr.Everywhere.exprs hs _ hy
  | block hb hm => exact Expr.Everywhere.blocks hs _ hb _ hm

lemma Block.fit_spots {b : Block} (h : Block.Fit b) : ∀ s ∈ b.spots, s.piece.Fit := by
  intro s hs
  obtain ⟨n, hn, hs⟩ := List.mem_flatMap.mp hs
  have here : Piece.Fit (.node n) := h n hn
  exact Spot.forall_all (P := fun s => s.piece.Fit) Spot.fit_part here s hs

/-- A compiled template is fit, and so are its macros. -/
theorem Template.Compiled.fit {t : Template} (h : t.Compiled) : t.Fit := by
  obtain ⟨unit, s, policy, h⟩ := h
  have formed := wellFormed_of_compile h
  have root : Block.Fit t.root := fun n hn =>
    Node.fit_of (orderly_of_parse (parse_of_compile h) n hn) fun s hs => formed s (List.mem_flatMap.mpr ⟨n, hn, hs⟩)
  refine ⟨root, forall_macros_of_compile h fun spot hs d p here => ?_⟩
  have fit := Block.fit_spots root spot hs
  rw [here] at fit
  exact Node.fit_definition fit

end Stencil
