import Stencil.Proofs.Copies
import Stencil.Proofs.Fitness
import Stencil.Proofs.Jumps
import Stencil.Proofs.Prose
import Stencil.Proofs.Reading.Assignments
import Stencil.Proofs.Verbatim

/-!
# Strings as templates

A string in double quotes stands for the template that it holds: where the template neither jumps nor defines macros,
the value of the string is what a render of the template writes there, with the same effects and the same errors. Main
statement: `Quoted.means_template`.
-/

namespace Stencil

variable {c d e : Cursor} {depth : Nat} {cs : List Char}

/-! ### The content of a string -/

namespace Quoted

/-- The literal of a text: it stands in double quotes, with a backslash before each quote in it. -/
def literal (cs : List Char) : List Char := '"' :: (escape cs ++ ['"'])

lemma head?_escape (cs : List Char) : ∀ x ∈ (escape cs).head?, x ≠ '"' := by
  rintro x hx rfl
  obtain ⟨ds, hds⟩ := List.head?_eq_some_iff.mp hx
  exact escape_ne_quote_cons cs ds hds

lemma escape_ne_nil {x : Char} : escape (x :: cs) ≠ [] := by
  rw [escape]
  split <;> exact List.cons_ne_nil _ _

lemma length_le_escape (cs : List Char) : cs.length ≤ (escape cs).length := by
  have back := length_unescape_le 0 (escape cs)
  rwa [unescape_escape] at back

/-- What is read of the content of a string at a time: a quote after a backslash or another character. -/
def piece : Pattern := .alt (.lit "\\\"") (.seq (.absent (.lit "\"")) .any)

lemma run_piece_quote (h : c.Reaches d ['\\', '"']) : piece.run c = some d :=
  Pattern.run_left (Pattern.run_word h)

/-- A backslash is read alone where no quote follows it. -/
lemma run_piece_other {x : Char} (h : c.Reaches d [x]) (hx : x ≠ '"') (hd : ∀ y ∈ d.rest.head?, x = '\\' → y ≠ '"') :
    piece.run c = some d := by
  have noPair : (Pattern.lit "\\\"").run c = none := by
    by_cases backslash : x = '\\'
    · subst backslash
      have noQuote : (Pattern.lit "\"").run d = none :=
        Pattern.run_eq_none rfl fun y hy hm => hd y hy rfl (List.mem_singleton.mp hm)
      have first : c.next? (· == '\\') = some d := Pattern.run_one h (beq_self_eq_true '\\')
      show (c.next? (· == '\\')).bind (·.word? ['"']) = none
      rw [first]
      exact noQuote
    · exact Pattern.run_eq_none rfl (h.head fun hm => backslash (List.mem_singleton.mp hm))
  have noQuote : (Pattern.lit "\"").run c = none :=
    Pattern.run_eq_none rfl (h.head fun hm => hx (List.mem_singleton.mp hm))
  exact Pattern.run_right noPair (Pattern.run_seq (Pattern.run_absent noQuote) (Pattern.run_one h rfl))

lemma run_piece_closing (h : d.Reaches e ['"']) : piece.run d = none := by
  have noPair : (Pattern.lit "\\\"").run d = none := Pattern.run_eq_none rfl (h.head (by decide))
  refine Pattern.run_right noPair (Pattern.run_seq_eq_none ?_)
  show (if ((Pattern.lit "\"").run d).isSome then none else some d) = none
  rw [show (Pattern.lit "\"").run d = some e from Pattern.run_word h]
  rfl

/-- The content of a string ends at the quote that closes it, if it does not end with a backslash. -/
lemma run_content (hl : cs.getLast? ≠ some '\\') (h : c.Reaches d (escape cs)) (hd : d.Reaches e ['"']) :
    (Pattern.many piece).run c = some d := by
  have bounded : ∀ bound : List Char, cs.length ≤ bound.length → Cursor.repeated piece.run bound c = d := by
    induction cs generalizing c with
    | nil =>
      intro bound _
      obtain rfl := h.eq_of_nil
      cases bound with
      | nil => rfl
      | cons x bound => simp only [Cursor.repeated, run_piece_closing hd]
    | cons x cs ih =>
      intro bound hb
      obtain ⟨b, first, later⟩ : ∃ b, piece.run c = some b ∧ b.Reaches d (escape cs) := by
        rw [escape] at h
        by_cases quote : x = '"'
        · rw [if_pos quote] at h
          obtain ⟨b, here, later⟩ := Cursor.Reaches.split (show c.Reaches d (['\\', '"'] ++ escape cs) from h)
          exact ⟨b, run_piece_quote here, later⟩
        · rw [if_neg quote] at h
          obtain ⟨b, here, later⟩ := Cursor.Reaches.split (show c.Reaches d ([x] ++ escape cs) from h)
          refine ⟨b, run_piece_other here quote fun y hy backslash => ?_, later⟩
          cases cs with
          | nil => exact absurd (congrArg some backslash) hl
          | cons z cs =>
            rw [later.1, List.head?_append_of_ne_nil _ escape_ne_nil] at hy
            exact head?_escape _ y hy
      have last : cs.getLast? ≠ some '\\' := by
        cases cs with
        | nil => exact fun h => by cases h
        | cons z cs => rwa [List.getLast?_cons_cons] at hl
      cases bound with
      | nil => cases hb
      | cons y bound =>
        simp only [Cursor.repeated, first]
        exact ih last later bound (Nat.le_of_succ_le_succ hb)
  have enough : cs.length ≤ c.rest.length := by
    have escaped := length_le_escape cs
    rw [h.1, List.length_append]
    omega
  exact congrArg some (bounded c.rest enough)

end Quoted

namespace Rule

/-- The tree of a string in double quotes, as an expression. -/
def quotation (c a b d : Cursor) : Tree Rule := .node expr c d [.node dqString c d [.node dqInner a b []]]

/-- The literal of a text is read as a string of the text as it is written there. -/
lemma reads_quotation (hl : cs.getLast? ≠ some '\\') (h : c.Reaches d (Quoted.literal cs)) (hd : d.Closes) :
    ∃ a b, a.Reaches b (Quoted.escape cs) ∧ (body.matcher (depth + 3) expr).Reads c d [quotation c a b d] := by
  obtain ⟨a, opened, ha⟩ := Cursor.Reaches.split (show c.Reaches d (['"'] ++ (_ ++ _)) from h)
  obtain ⟨b, content, closed⟩ := ha.split
  refine ⟨a, b, content, ?_⟩
  have inner : (body.matcher (depth + 1) dqInner).Reads a b [.node dqInner a b []] := by
    exact reads_word rfl (Quoted.run_content hl content closed)
  have string : (body.matcher (depth + 2) dqString).Reads c d [.node dqString c d [.node dqInner a b []]] :=
    reads_between body_dqString opened inner closed
  have first : ∀ x ∈ c.rest.head?, x ∈ ['"'] := opened.head (List.mem_singleton_self _)
  have front : ∀ q ∈ [opNot, opNeg, range, list, map], (body.matcher (depth + 2) q).Fails c :=
    fails_of_opensOff first (by decide)
  have noParen : ∀ x ∈ c.rest.head?, x ∉ ['('] := fun x hx => List.mem_singleton.mp (first x hx) ▸ by decide
  exact reads_sole rfl front noParen string hd

/-- A string stands for what it is read as. -/
lemma eval_quotation {a b : Cursor} {w : List Char} {site : Site} {inner : Site → List Char → Except Failure Block}
    {kind : ExprKind} (h : a.Reaches b w) (hk : ExprKind.ofQuoted site inner w a.offset = .ok kind) :
    (quotation c a b d).eval (meaning site inner) = .ok (.expr ⟨kind, site.position c d⟩) := by
  have string : (Tree.node dqString c d [.node dqInner a b []]).eval (meaning site inner) =
      .ok (.expr ⟨kind, site.position c d⟩) := by
    show (ExprKind.ofQuoted site inner (a.upTo b) a.offset >>= fun k => pure (Part.expr ⟨k, site.position c d⟩)) = _
    rw [h.upTo_eq, hk]
    rfl
  rw [quotation, Tree.eval, Tree.evalAll, string]
  rfl

end Rule

/-! ### The content as a template -/

/-- Nodes that are texts have these texts. -/
lemma Block.join_texts {b : Block} {texts : List String} (h : b.mapM Node.text? = some texts) :
    (∀ n ∈ b, n.isText) ∧ String.join texts = b.verbatim := by
  induction b generalizing texts with
  | nil =>
    cases h
    exact ⟨nofun, rfl⟩
  | cons n b ih =>
    rw [List.mapM_cons] at h
    obtain ⟨text, here, h⟩ := Option.bind_eq_some_iff.mp h
    obtain ⟨others, later, h⟩ := Option.bind_eq_some_iff.mp h
    obtain rfl := Option.some.inj h
    obtain ⟨isTexts, joined⟩ := ih later
    obtain ⟨kind, p⟩ := n
    cases kind with
    | text s =>
      obtain rfl := Option.some.inj here
      refine ⟨List.forall_mem_cons.mpr ⟨rfl, isTexts⟩, ?_⟩
      rw [String.join_cons, joined, verbatim, verbatim, List.map_cons, String.join_cons]
      rfl
    | _ => cases here

/-- What comes after a place in a text is in the text. -/
lemma Cursor.mem_of_mem_places {offset : Nat} (hc : c ∈ places offset cs) : ∀ x ∈ c.rest, x ∈ cs := by
  induction cs generalizing offset with
  | nil => cases hc
  | cons x cs ih =>
    rcases List.mem_cons.mp hc with rfl | hc
    · exact fun y hy => hy
    · exact fun y hy => List.mem_cons_of_mem x (ih hc y hy)

/-- Only marks of references and directives are escaped. -/
lemma Rule.fails_escaped (h : ∀ x ∈ c.rest, x ≠ '$' ∧ x ≠ '#') : (body.matcher depth escaped).Fails c := by
  cases depth with
  | zero => exact fun _ => rfl
  | succ depth =>
    obtain ⟨after, hbody, opens⟩ : ∃ after : Pattern, body escaped = .word (.seq (.lit "\\") after) ∧
        after.openers = some ['$', '#'] := ⟨_, rfl, rfl⟩
    refine fails_word hbody ?_
    cases hd : (Pattern.lit "\\").run c with
    | none => exact Pattern.run_seq_eq_none hd
    | some d =>
      obtain ⟨w, hw⟩ := Pattern.run_reaches hd
      refine Pattern.run_seq hd (Pattern.run_eq_none opens fun x hx hm => ?_)
      obtain ⟨noDollar, noHash⟩ := h x (by rw [hw.1]; exact List.mem_append_right _ (List.mem_of_mem_head? hx))
      simp [noDollar, noHash] at hm

/-- In a text without marks of references and directives, no construct starts. -/
lemma isPlain_of_unmarked (h : ∀ x ∈ cs, x ≠ '$' ∧ x ≠ '#') : IsPlain cs := by
  intro c hc hm
  have unmarked : ∀ x ∈ c.rest, x ≠ '$' ∧ x ≠ '#' := fun x hx => h x (Cursor.mem_of_mem_places hc x hx)
  generalize openRules cs - 2 = depth
  have backslash : ∀ x ∈ c.rest.head?, x ∈ ['\\'] := by
    intro x hx
    have marked : x ∈ Rule.marks := by
      unfold Cursor.atMark at hm
      rw [Option.mem_def.mp hx] at hm
      exact List.contains_iff_mem.mp hm
    obtain ⟨noDollar, noHash⟩ := unmarked x (List.mem_of_mem_head? hx)
    simpa [Rule.marks, noDollar, noHash] using marked
  have noHash : ∀ x ∈ c.rest.head?, x ∉ ['#'] := fun x hx => List.mem_singleton.mp (backslash x hx) ▸ by decide
  have noEnd : Rule.blockEnd.run c = none := Pattern.run_eq_none rfl noHash
  have noWord : (Pattern.lit "#" ++ Rule.keyword).run c = none := Pattern.run_eq_none rfl noHash
  have others : ∀ q ∈ Rule.constructs.filter (· ≠ .escaped), (Rule.body.matcher depth q).Fails c :=
    Rule.fails_of_opensOff backslash (by decide)
  unfold Rule.startsAt
  rw [noEnd, noWord]
  refine List.any_eq_false.mpr fun q hq => ?_
  have fails : (Rule.body.matcher depth q).Fails c := by
    by_cases escape : q = .escaped
    · exact escape ▸ Rule.fails_escaped unmarked
    · exact others q (List.mem_filter.mpr ⟨hq, decide_eq_true escape⟩)
  rw [fails .none]
  exact Bool.false_ne_true

namespace Quoted

variable {unit : CodeUnit} {name : String} {t : Template} {site : Site} {k : Nat}

/-- The text of a compiled template is read as its nodes, wherever it stands, where strings may be nested deep
enough. -/
lemma readBlock_of_compile (ht : Template.compile unit ⟨name, String.ofList cs⟩ .none = .ok t)
    (hk : cs.length + 2 ≤ k) (site : Site) :
    readBlock k site cs = .ok ((Relocation.into site ⟨name, String.ofList cs⟩).block t.root) := by
  obtain ⟨s, hs, rfl⟩ := Source.exists_ofList name cs
  rw [← hs] at ht ⊢
  obtain ⟨spans, parsed⟩ := parseTree_of_parse (Template.parse_of_compile ht)
  have here := readBlock_mono hk (readBlock_of_parseTree parsed)
  have carries : (Relocation.into site s).Carries (.ofSource s) site := Relocation.carries_into
  rw [readBlock_moved Relocation.rigid_into _ k rfl (Site.regular_ofSource s) carries, here]
  rfl

/-- A string of the text of a template is read as the text where the template has texts only, and as the template's
nodes otherwise. -/
lemma ofQuoted_escape (ht : Template.compile unit ⟨name, String.ofList cs⟩ .none = .ok t) (hk : cs.length + 2 ≤ k)
    (hs : directory site.source.name = directory name) (start : Nat) :
    (∀ n ∈ t.root, n.isText) ∧ t.root.verbatim = String.ofList cs ∧
        ExprKind.ofQuoted site (readBlock k) (escape cs) start = .ok (.literal (.str (String.ofList cs))) ∨
      ∃ g : Relocation, g.Near ∧
        ExprKind.ofQuoted site (readBlock k) (escape cs) start = .ok (.interpolated (g.block t.root)) := by
  have parsed := Template.parse_of_compile ht
  have whole (texts : ∀ n ∈ t.root, n.isText) : t.root.verbatim = String.ofList cs := by
    obtain ⟨spans, tree⟩ := parseTree_of_parse parsed
    have verbatim : ∀ n ∈ t.root, n.isVerbatim t.macros .empty := fun n hn => Node.isVerbatim_of_isText (texts n hn)
    exact (fills_of_parseTree tree).verbatim_eq verbatim
  have content := unescape_escape start cs
  unfold ExprKind.ofQuoted
  rcases hu : unescape start (escape cs) with ⟨unescaped, origins⟩
  rw [hu] at content
  obtain rfl : unescaped = cs := content
  dsimp only
  split
  · next unmarked =>
    left
    have plain : IsPlain (Source.mk name (String.ofList unescaped)).text.toList := by
      rw [String.toList_ofList]
      exact isPlain_of_unmarked (by simpa using unmarked)
    obtain ⟨b, same, texts⟩ := parse_of_plain plain
    obtain rfl : b = t.root := Except.ok.inj (same.symm.trans parsed)
    exact ⟨texts, whole texts, rfl⟩
  · obtain ⟨g, near, hg⟩ : ∃ g : Relocation, g.Near ∧
        g = .into (site.within origins) ⟨name, String.ofList unescaped⟩ := ⟨_, Relocation.near_into hs, rfl⟩
    rw [readBlock_of_compile ht hk (site.within origins), ← hg]
    dsimp only [bind, Except.bind]
    rw [g.mapM_text?_block]
    cases ht : t.root.mapM Node.text? with
    | none => exact .inr ⟨g, near, rfl⟩
    | some texts =>
      obtain ⟨isTexts, joined⟩ := Block.join_texts ht
      refine .inl ⟨isTexts, whole isTexts, ?_⟩
      rw [← whole isTexts, ← joined]
      rfl

end Quoted

/-! ### What a string is worth -/

/-- The text that a render writes, as a value. -/
def Render.written (m : Render Flow) : Render Value := do
  let (_, text) ← m.captured
  return .str text

/-- A block of texts writes these, and leaves the state as it is. -/
lemma Interpreter.written_texts {b : Block} (hb : ∀ n ∈ b, n.isText) (depth : Nat) (env : RenderEnv)
    (s : RenderState) : Render.written ((ofDepth (depth + 1)).render b) env s = .ok (.str b.verbatim) s := by
  have all : (ofDepth (depth + 1)).render b env { s with sink := .empty } =
      .ok .next { s with sink := .text ("" ++ b.verbatim) } := by
    refine (ofDepth depth).block_writes (fun n hn w => ?_) ""
    have isText := hb n hn
    obtain ⟨kind, p⟩ := n
    cases kind with
    | text t => exact (ofDepth depth).node_text rfl t p
    | _ => cases isText
  rw [Render.written, Render.bind_apply, Render.captured_apply, all, String.empty_append]
  rfl

/-! ### What is found in code that stays -/

/-- Nodes that do not jump and define no macro. -/
structure NodeKind.Calm (k : NodeKind) : Prop where
  stays : k.jump? = none
  plain : k.isDefinition = false

abbrev Node.Calm (n : Node) : Prop := n.Everywhere NodeKind.Calm fun _ => True

abbrev Expr.Calm (x : Expr) : Prop := x.Everywhere NodeKind.Calm fun _ => True

abbrev Block.Calm (b : Block) : Prop := b.Everywhere NodeKind.Calm fun _ => True

/-- What is found is the same whatever encloses it, and no definition is among it. -/
structure Steady (f : Enclosure → Multiset Finding) : Prop where
  same : ∀ e e', f e = f e'
  faults : ∀ e d, Finding.definition d ∉ f e

namespace Steady

variable {f g : Enclosure → Multiset Finding}

lemma add (hf : Steady f) (hg : Steady g) : Steady fun e => f e + g e where
  same e e' := congrArg₂ (· + ·) (hf.same e e') (hg.same e e')
  faults e d hd := (Multiset.mem_add.mp hd).elim (hf.faults e d) (hg.faults e d)

lemma sum {α : Type} {f : Enclosure → α → Multiset Finding} {xs : List α} (h : ∀ x ∈ xs, Steady fun e => f e x) :
    Steady fun e => (xs.map (f e)).sum := by
  induction xs with
  | nil => exact ⟨fun _ _ => rfl, fun _ _ => Multiset.notMem_zero _⟩
  | cons x xs ih =>
    obtain ⟨here, later⟩ := List.forall_mem_cons.mp h
    simp only [List.map_cons, List.sum_cons]
    exact here.add (ih later)

/-- What is found is the same in a string, too. -/
lemma quoted (hf : Steady f) : Steady fun e => f e.quoted :=
  ⟨fun e e' => hf.same e.quoted e'.quoted, fun e => hf.faults e.quoted⟩

/-- A node that stays is judged by itself. -/
lemma findings {n : Node} (hn : n.kind.Calm) : Steady fun e => (Spot.findings ⟨e, .node n⟩ : Multiset Finding) := by
  obtain ⟨kind, p⟩ := n
  obtain ⟨stays, plain⟩ := hn
  constructor
  · intro e e'
    cases kind with
    | stop => cases stays
    | leave scope => cases stays
    | macroDef d => cases plain
    | _ => rfl
  · intro e d hd
    have none : Spot.definition? ⟨e, .node ⟨kind, p⟩⟩ = none := by
      cases kind with
      | macroDef d => cases plain
      | _ => rfl
    rw [Multiset.mem_coe, Spot.findings, none] at hd
    simp at hd

end Steady

mutual

/-- What is found in code that stays depends on nothing around it: by induction on the code. -/
lemma Node.Calm.steady : ∀ {n : Node}, n.Calm → Steady fun e => n.tally e
  | n, .intro here exprs blocks => by
    have inside (e : Enclosure) : e.inside n.kind = e := Enclosure.inside_of_not here.plain
    have whole : (fun e => n.tally e) = fun e => (Spot.findings ⟨e, .node n⟩ : Multiset Finding) +
        ((n.kind.operands.map (Expr.tally e)).sum + (n.kind.subblocks.map (Block.tally e)).sum) := by
      funext e
      rw [Node.tally_eq (by rw [here.plain, Bool.and_false]), inside]
    have operands : Steady fun e => (n.kind.operands.map (Expr.tally e)).sum :=
      Steady.sum fun x hx => Expr.Calm.steady (exprs x (NodeKind.mem_subexprs_of_operand hx))
    have inner : Steady fun e => (n.kind.subblocks.map (Block.tally e)).sum :=
      Steady.sum fun b hb => Steady.sum fun m hm => Node.Calm.steady (blocks b hb m hm)
    rw [whole]
    exact (Steady.findings here).add (operands.add inner)

lemma Expr.Calm.steady : ∀ {x : Expr}, x.Calm → Steady fun e => x.tally e
  | x, .intro _ exprs blocks => by
    have parts : Steady fun e => (x.kind.exprs.map (Expr.tally e)).sum :=
      Steady.sum fun y hy => Expr.Calm.steady (exprs y hy)
    have inner : Steady fun e => (x.kind.blocks.map (Block.tally e)).sum :=
      Steady.sum fun b hb => Steady.sum fun m hm => Node.Calm.steady (blocks b hb m hm)
    rw [funext fun e => x.tally_eq]
    exact parts.add inner.quoted

end

/-- Where nothing is wrong with a template that stays, nothing is found in it wherever it stands. -/
lemma Template.findings_of_calm {unit : CodeUnit} {s : Source} {policy : GobblingPolicy} {t : Template}
    (ht : compile unit s policy = .ok t) (hc : t.root.Calm) (e : Enclosure) : blockFindings e t.root = [] := by
  have steady : Steady fun e => Block.tally e t.root := Steady.sum fun n hn => Node.Calm.steady (hc n hn)
  have walk (e : Enclosure) : (blockFindings e t.root : Multiset Finding) = Block.tally e t.root :=
    tallied_block fun n _ => (tallied_of_size (sizeOf n + 1)).2 e n (Nat.lt_succ_self _)
  have clean := (macros_of_compile ht).1
  refine List.eq_nil_iff_forall_not_mem.mpr fun f hf => ?_
  rw [← Multiset.mem_coe, walk, steady.same e ⟨false, false⟩] at hf
  cases f with
  | definition d => exact steady.faults _ d hf
  | fault f =>
    rw [← walk, Multiset.mem_coe] at hf
    have reported : f ∈ Finding.faults (blockFindings ⟨false, false⟩ t.root) := List.mem_filterMap.mpr ⟨_, hf, rfl⟩
    rw [clean] at reported
    cases reported

/-! ### Strings and templates -/

/-- An expression means a template. It breaks no rule, wherever it stands. And wherever it is evaluated, its value is
the text that a render of the template's nodes writes there; the state is then the same as after that render, but for
choices of members that are remembered for places in the code; and where either fails, both do, for the same reason
told of other places. A state may remember any choices, as long as none of them is wrong. -/
structure Expr.MeansTemplate (e : Expr) (t : Template) : Prop where
  flawless : ∀ enclosure, Expr.findings enclosure e = []
  evaluates : ∀ depth lenient env s, RenderState.Recalls env.types s → (Copying.pairing env.types).Agree
    ((Interpreter.ofDepth (depth + 2)).eval lenient e env s)
    (Render.written ((Interpreter.ofDepth (depth + 1)).render t.root) env s)

namespace Expr

variable {t : Template} {p : Position}

/-- A text means a template of texts that spell it. -/
lemma meansTemplate_text (ht : ∀ n ∈ t.root, n.isText) :
    MeansTemplate ⟨.literal (.str t.root.verbatim), p⟩ t where
  flawless _ := rfl
  evaluates depth lenient env s hs := by
    rw [Interpreter.written_texts ht]
    exact .ok _ ⟨rfl, rfl, rfl, rfl, hs, hs⟩

/-- Code that is put into a string means the template that it comes from, as long as it stays. -/
lemma meansTemplate_interpolated {unit : CodeUnit} {s : Source} {policy : GobblingPolicy} {g : Relocation}
    (ht : Template.compile unit s policy = .ok t) (hc : t.root.Calm) (hg : g.Near) :
    MeansTemplate ⟨.interpolated (g.block t.root), p⟩ t where
  flawless e := by
    show blockFindings e.quoted (g.nodeList t.root) = []
    rw [Relocation.nodeList_findings, Template.findings_of_calm ht hc]
    rfl
  evaluates depth lenient env s hs := by
    have near (i : Bool) : (Copying.pair g .stay i).Near := by
      cases i
      · exact hg
      · exact Relocation.near_stay
    have both := (Copying.agrees env.types (depth + 1) (Copying.Around.of_env env) near).2 t.root
    have written : (Copying.pace env.types).Holds (fun _ => env) fun i =>
        Render.written ((Interpreter.ofDepth (depth + 1)).render ((Copying.pair g .stay i).block t.root)) :=
      (Copying.pace env.types).holds_bind ((Copying.pace env.types).holds_captured both) fun x =>
        (Copying.pace env.types).holds_pure _
    have agree : (Copying.pairing env.types).Agree
        (Render.written ((Interpreter.ofDepth (depth + 1)).render (g.block t.root)) env s)
        (Render.written ((Interpreter.ofDepth (depth + 1)).render (Relocation.stay.block t.root)) env s) :=
      written ⟨rfl, rfl, rfl, rfl, hs, hs⟩
    have stays : Relocation.stay.block t.root = t.root := Relocation.nodeList_stay _
    rwa [stays] at agree

end Expr

namespace Quoted

/-- The literal of a template's text is an expression that means the template, where the text does not end with a
backslash and the template neither jumps nor defines macros. It is read as such wherever an expression may end after it,
in any template of the same directory; and a template that assigns it to a variable compiles, whatever is gobbled. -/
theorem means_template {unit : CodeUnit} {name : String} {cs : List Char} {t : Template}
    (hl : cs.getLast? ≠ some '\\') (ht : Template.compile unit ⟨name, String.ofList cs⟩ .none = .ok t)
    (hc : t.root.Calm) :
    (∀ {c d depth}, c.Reaches d (literal cs) → d.Closes → 3 ≤ depth →
      ∃ u, (Rule.body.matcher depth .expr).Reads c d [u] ∧
        ∀ site k, directory site.source.name = directory name → cs.length + 2 ≤ k →
          ∃ e, u.eval (Rule.meaning site (readBlock k)) = .ok (.expr e) ∧ e.MeansTemplate t) ∧
    ∀ unit other policy, directory other = directory name →
      ∃ u r e p, Template.compile unit ⟨other, String.ofList (assigning (literal cs))⟩ policy = .ok u ∧
        u.root = [⟨.assign r e, p⟩] ∧ r.root = "x" ∧ r.segments = [] ∧ e.MeansTemplate t := by
  have reads {c d depth} (h : c.Reaches d (literal cs)) (hd : d.Closes) (hn : 3 ≤ depth) :
      ∃ u, (Rule.body.matcher depth .expr).Reads c d [u] ∧
        ∀ site k, directory site.source.name = directory name → cs.length + 2 ≤ k →
          ∃ e, u.eval (Rule.meaning site (readBlock k)) = .ok (.expr e) ∧ e.MeansTemplate t := by
    obtain ⟨below, rfl⟩ := Nat.exists_eq_add_of_le' hn
    obtain ⟨a, b, content, read⟩ := @Rule.reads_quotation _ _ below _ hl h hd
    refine ⟨_, read, fun site k hs hk => ?_⟩
    rcases ofQuoted_escape ht hk hs a.offset with ⟨texts, verbatim, kind⟩ | ⟨g, near, kind⟩
    · rw [← verbatim] at kind
      exact ⟨_, Rule.eval_quotation content kind, Expr.meansTemplate_text texts⟩
    · exact ⟨_, Rule.eval_quotation content kind, Expr.meansTemplate_interpolated ht hc near⟩
  refine ⟨reads, fun unit other policy hs => ?_⟩
  have long : cs.length + 2 ≤ stringDepth (assigning (literal cs)) := by
    have whole := length_le_assigning (literal cs)
    have escaped := length_le_escape cs
    have quotes : (literal cs).length = (escape cs).length + 2 := by
      rw [literal, List.length_cons, List.length_append]
      rfl
    unfold stringDepth
    omega
  have spelled : Rule.Spelled (.ofSource ⟨other, String.ofList (assigning (literal cs))⟩)
      (readBlock (stringDepth (assigning (literal cs)))) 3 (literal cs) fun e => e.MeansTemplate t := by
    refine ⟨⟨'"', _, rfl, by decide⟩, fun h hd hn => ?_⟩
    obtain ⟨u, read, means⟩ := reads h hd hn
    obtain ⟨e, value, meaning⟩ := means (.ofSource ⟨other, String.ofList (assigning (literal cs))⟩) _ hs long
    exact ⟨u, e, read, value, meaning⟩
  have room : 3 + 3 ≤ openRules (assigning (literal cs)) := by
    unfold openRules
    omega
  obtain ⟨r, e, p, parsed, root, segments, means⟩ := parse_assigning policy spelled room
  exact ⟨_, r, e, p, Template.compile_assignment parsed segments (means.flawless _) unit, rfl, root, segments, means⟩

/-- A template with a string in it and with quotes of its own. -/
def quoting : List Char := "#set($y = \"<$x>\")\"$y\"".toList

example : literal quoting = "\"#set($y = \\\"<$x>\\\")\\\"$y\\\"\"".toList := by decide +kernel

/-- Whether a template is an assignment of a string with a reference in it, and a reference in quotes. -/
def isQuoting : Except TemplateError Template → Bool
  | .ok ⟨_, [⟨.assign r ⟨.interpolated [⟨.text _, _⟩, ⟨.reference x, _⟩, ⟨.text _, _⟩], _⟩, _⟩, ⟨.text _, _⟩,
      ⟨.reference y, _⟩, ⟨.text _, _⟩], _, _⟩ => r.segments.isEmpty && x.segments.isEmpty && y.segments.isEmpty
  | _ => false

lemma calm_of_isQuoting {t : Template} (h : isQuoting (.ok t)) : t.root.Calm := by
  have text (s : String) (p : Position) : Node.Calm ⟨.text s, p⟩ := .intro ⟨rfl, rfl⟩ nofun nofun
  have noExprs {r : Reference} (hr : r.segments = []) : ∀ e ∈ r.exprs, e.Calm := by
    rw [Reference.exprs, hr]
    exact nofun
  have reference {r : Reference} (hr : r.segments = []) (p : Position) : Node.Calm ⟨.reference r, p⟩ :=
    .intro ⟨rfl, rfl⟩ (noExprs hr) nofun
  unfold isQuoting at h
  split at h
  · next r _ _ x _ _ _ _ _ _ _ y _ _ _ _ _ heq =>
    obtain ⟨⟨hr, hx⟩, hy⟩ : (r.segments = [] ∧ x.segments = []) ∧ y.segments = [] := by simpa using h
    obtain rfl := Except.ok.inj heq
    refine List.forall_mem_cons.mpr ⟨.intro ⟨rfl, rfl⟩ (List.forall_mem_cons.mpr ⟨?_, noExprs hr⟩) nofun, ?_⟩
    · refine .intro trivial nofun (List.forall_mem_singleton.mpr ?_)
      exact List.forall_mem_cons.mpr ⟨text _ _, List.forall_mem_cons.mpr ⟨reference hx _,
        List.forall_mem_singleton.mpr (text _ _)⟩⟩
    · exact List.forall_mem_cons.mpr ⟨text _ _, List.forall_mem_cons.mpr ⟨reference hy _,
        List.forall_mem_singleton.mpr (text _ _)⟩⟩
  · cases h

theorem means_template_quoting : quoting.getLast? ≠ some '\\' ∧
    ∃ t, Template.compile .inline ⟨"t", String.ofList quoting⟩ .none = .ok t ∧ t.root.Calm ∧
      ∃ u r e p, Template.compile .inline ⟨"t", String.ofList (assigning (literal quoting))⟩ .structured = .ok u ∧
        u.root = [⟨.assign r e, p⟩] ∧ r.root = "x" ∧ r.segments = [] ∧ e.MeansTemplate t := by
  have last : quoting.getLast? ≠ some '\\' := by decide +kernel
  have shape : isQuoting (Template.compile .inline ⟨"t", String.ofList quoting⟩ .none) = true := by decide +kernel
  cases ht : Template.compile .inline ⟨"t", String.ofList quoting⟩ .none with
  | error e =>
    rw [ht] at shape
    cases shape
  | ok t =>
    rw [ht] at shape
    have calm := calm_of_isQuoting shape
    exact ⟨last, t, rfl, calm, (means_template last ht calm).2 .inline "t" .structured rfl⟩

end Quoted

end Stencil
