import Stencil.Proofs.Reading.Expressions
import Stencil.Template

/-!
# Assignments

A template of nothing but an assignment is read as the assignment of what the text of its value is read as. Main
statements: `parse_assigning`, such a template parses wherever its value is read, whatever is gobbled; and
`Template.compile_assignment`, it compiles where its value breaks no rule.
-/

namespace Stencil

/-- A tree means a reference to a variable. -/
def Tree.Refers (u : Tree Rule) (name : String) : Prop :=
  ∀ site inner, ∃ r, u.eval (Rule.meaning site inner) = .ok (.reference r) ∧ r.root = name ∧ r.segments = []

/-- A tree is an assignment to a variable, and the tree of its value is of a kind. -/
def Tree.Assigns (t : Tree Rule) (name : String) (Q : Tree Rule → Prop) : Prop :=
  ∃ c d u v, t = .node .setDirective c d [u, v] ∧ u.Refers name ∧ Q v

/-- The text that assigns what another text stands for to a variable. -/
def assigning (w : List Char) : List Char := "#set($x = ".toList ++ w ++ [')']

lemma length_le_assigning (w : List Char) : w.length ≤ (assigning w).length := by
  have inside : w.Sublist (assigning w) :=
    (List.sublist_append_right "#set($x = ".toList w).trans (List.sublist_append_left _ [')'])
  exact inside.length_le

namespace Rule

variable {c d e : Cursor} {depth need : Nat} {site : Site} {inner : Site → List Char → Except Failure Block}
  {w : List Char} {P : Expr → Prop} {Q : Tree Rule → Prop}

/-- A text is read by the rule of expressions wherever one may end after it, given how many rules may be open. -/
structure Legible (need : Nat) (w : List Char) (Q : Tree Rule → Prop) : Prop where
  visible : ∃ x xs, w = x :: xs ∧ x ∉ blankChars
  reads : ∀ {c d depth}, c.Reaches d w → d.Closes → need ≤ depth →
    ∃ t, (body.matcher depth expr).Reads c d [t] ∧ Q t

/-- A text is read as an expression wherever one may end after it, given how many rules may be open. -/
structure Spelled (site : Site) (inner : Site → List Char → Except Failure Block) (need : Nat) (w : List Char)
    (P : Expr → Prop) : Prop where
  visible : ∃ x xs, w = x :: xs ∧ x ∉ blankChars
  reads : ∀ {c d depth}, c.Reaches d w → d.Closes → need ≤ depth →
    ∃ t e, (body.matcher depth expr).Reads c d [t] ∧ t.eval (meaning site inner) = .ok (.expr e) ∧ P e

lemma Spelled.legible (h : Spelled site inner need w P) :
    Legible need w fun t => ∃ e, t.eval (meaning site inner) = .ok (.expr e) ∧ P e where
  visible := h.visible
  reads hr hd hn := by
    obtain ⟨t, e, read, value⟩ := h.reads hr hd hn
    exact ⟨t, read, e, value⟩

/-- A dollar and a letter are read as a reference where a blank follows. -/
lemma reads_target (h : c.Reaches d "$x".toList) (hd : ∀ x ∈ d.rest.head?, x ∈ [' ']) :
    ∃ u, (body.matcher (depth + 2) reference).Reads c d [u] ∧ u.Refers "x" := by
  obtain ⟨b, dollar, letter⟩ := Cursor.Reaches.split (show c.Reaches d (['$'] ++ ['x']) from h)
  obtain ⟨suffix, hbody, hopens⟩ : ∃ suffix, body reference = .phrase (.seq (.seq (.token (.lit "$"))
      (.opt (.rule quiet))) (.alt (.rule formal) (.seq (.rule ident) (.many suffix)))) ∧
      suffix.openers (body.openers 2) = some ['.', '.', '['] := ⟨_, rfl, rfl⟩
  have opening : (Matcher.token (.lit "$") : Matcher Rule).Reads c b [] :=
    Matcher.reads_token (Pattern.run_word dollar)
  have noMark : ∀ q ∈ [quiet, formal], (body.matcher (depth + 1) q).Fails b :=
    fails_of_opensOff (letter.head (List.mem_singleton_self _)) (by decide)
  have loud : (Matcher.opt (body.matcher (depth + 1) quiet)).Reads b b [] :=
    Matcher.Fails.opt (noMark quiet (List.mem_cons_self ..))
  have noFormal : (body.matcher (depth + 1) formal).Fails b :=
    noMark formal (List.mem_cons_of_mem _ (List.mem_singleton_self _))
  have name : (body.matcher (depth + 1) ident).Reads b d [.node ident b d []] := by
    have apart : ∀ x ∈ [' '], (x.isAlphanum || x == '_') = false := forall_mem_of_all (by decide)
    exact reads_word rfl (Pattern.run_seq (Pattern.run_one letter rfl)
      (Pattern.run_many_one (.refl d) nofun fun x hx => apart x (hd x hx)))
  have noSuffix : (suffix.matcher (body.matcher (depth + 1))).Fails d := by
    have apart : ∀ x ∈ [' '], x ∉ ['.', '.', '['] := forall_mem_of_all (by decide)
    exact fails_of_openers hopens fun x hx => apart x (hd x hx)
  have noSuffixes : ((Peg.many suffix).matcher (body.matcher (depth + 1))).Reads d d [] := noSuffix.repeated d.rest
  refine ⟨.node reference c d [.node ident b d []], ?_, fun site inner => ?_⟩
  · exact reads_phrase hbody ((opening.seq loud).seq (Matcher.Reads.right noFormal (name.seq noSuffixes)))
  · refine ⟨⟨"x", false, [], String.ofList (c.upTo d), site.position c d⟩, ?_, rfl, rfl⟩
    have word : (Tree.node ident b d []).eval (meaning site inner) = .ok (.word ['x'] b.offset) := by
      show Except.ok (Part.word (b.upTo d) _) = _
      rw [letter.upTo_eq]
    rw [Tree.eval, Tree.evalAll, Tree.evalAll, word]
    rfl

/-- An assignment is read where its value is. -/
lemma reads_assigning (hw : Legible need w Q) (hn : need ≤ depth + 2) (h : c.Reaches d (assigning w)) :
    ∃ u t, (body.matcher (depth + 3) setDirective).Reads c d [.node setDirective c d [u, t]] ∧ u.Refers "x" ∧
      Q t := by
  obtain ⟨set, spaces, hbody, hset, hspaces⟩ : ∃ set spaces, body setDirective =
      .phrase (.seq (.seq (.seq (.seq (.seq (.seq (.token set) (.token spaces)) (.token (.lit "("))) gap)
        (.seq (.seq (.seq (.seq (.rule reference) gap) (.token (.lit "="))) gap) (.rule expr))) gap)
        (.token (.lit ")"))) ∧
      set = .seq (.lit "#") (.alt (.lit "\x7bset\x7d") (.seq (.lit "set")
        (.absent (.one fun c => c.isAlphanum || c == '_')))) ∧
      spaces = .many (.one fun c => c == ' ' || c == '\t') := ⟨_, _, rfl, rfl, rfl⟩
  obtain ⟨c₈, before, closing⟩ := h.split
  obtain ⟨c₇, head, value⟩ := before.split
  obtain ⟨c₁, hash, h₁⟩ := Cursor.Reaches.split (show c.Reaches c₇ (['#'] ++ "set($x = ".toList) from head)
  obtain ⟨c₂, word, h₂⟩ := Cursor.Reaches.split (show c₁.Reaches c₇ ("set".toList ++ "($x = ".toList) from h₁)
  obtain ⟨c₃, paren, h₃⟩ := Cursor.Reaches.split (show c₂.Reaches c₇ (['('] ++ "$x = ".toList) from h₂)
  obtain ⟨c₄, target, h₄⟩ := Cursor.Reaches.split (show c₃.Reaches c₇ ("$x".toList ++ " = ".toList) from h₃)
  obtain ⟨c₅, blank, h₅⟩ := Cursor.Reaches.split (show c₄.Reaches c₇ ([' '] ++ "= ".toList) from h₄)
  obtain ⟨c₆, equals, blank'⟩ := Cursor.Reaches.split (show c₅.Reaches c₇ (['='] ++ " ".toList) from h₅)
  obtain ⟨x, xs, hx, visible⟩ := hw.visible
  obtain ⟨t, read, means⟩ := hw.reads value (closing.closes (by decide)) hn
  obtain ⟨u, readTarget, refers⟩ := @reads_target _ _ depth target (blank.head (by decide))
  rw [hx] at value
  have noGap {c : Cursor} (hc : ∀ x ∈ c.rest.head?, x ∉ blankChars) :
      (gap.matcher (body.matcher (depth + 2))).Reads c c [] := reads_no_gap hc
  have oneBlank {c d : Cursor} (hcd : c.Reaches d [' ']) (hd : ∀ x ∈ d.rest.head?, x ∉ blankChars) :
      (gap.matcher (body.matcher (depth + 2))).Reads c d [] := reads_gap hcd (forall_mem_of_all (by decide)) hd
  have symbol {v : List Char} {c d : Cursor} (hcd : c.Reaches d v) :
      (Matcher.token (.word v) : Matcher Rule).Reads c d [] := Matcher.reads_token (Pattern.run_word hcd)
  have directive : (Matcher.token set : Matcher Rule).Reads c c₂ [] := by
    have noBrace : (Pattern.lit "\x7bset\x7d").run c₁ = none :=
      @Pattern.run_eq_none _ ['\x7b'] rfl c₁ (Cursor.Reaches.head word (by decide))
    have whole : (Pattern.seq (.lit "set") (.absent (.one fun c => c.isAlphanum || c == '_'))).run c₁ = some c₂ :=
      Pattern.run_seq (Pattern.run_word word) (Pattern.run_absent (Pattern.run_one_eq_none (paren.head rfl)))
    rw [hset]
    exact Matcher.reads_token (Pattern.run_seq (Pattern.run_word hash) (Pattern.run_right noBrace whole))
  have noSpace : (Matcher.token spaces : Matcher Rule).Reads c₂ c₂ [] := by
    rw [hspaces]
    exact Matcher.reads_token (Pattern.run_many_one (.refl c₂) nofun (paren.head rfl))
  have start := ((directive.seq noSpace).seq (symbol paren)).seq (noGap (target.head (by decide)))
  have inside := (((readTarget.seq (oneBlank blank (equals.head (by decide)))).seq (symbol equals)).seq
    (oneBlank blank' (value.head visible))).seq read
  have all := ((start.seq inside).seq (noGap (closing.head (by decide)))).seq (symbol closing)
  exact ⟨u, t, reads_phrase hbody all, refers, means⟩

/-! ### Templates of one node -/

/-- A template of one node. -/
def templateOf (c d : Cursor) (t : Tree Rule) : Tree Rule :=
  .node template c d [.node block c d [t], .node ending d d []]

/-- The first of the rules of nodes that does not fail is read, where no block ends. -/
lemma reads_node {r : Rule} {front back : List Rule} {t : Tree Rule} (hs : nodes = front ++ r :: back)
    (noEnd : blockEnd.run c = none) (hf : ∀ q ∈ front, (body.matcher depth q).Fails c)
    (hr : (body.matcher depth r).Reads c d [t]) : (item.matcher (body.matcher depth)).Reads c d [t] := by
  have absent : (Pattern.absent blockEnd).run c = some c := Pattern.run_absent noEnd
  have chosen : ((Peg.choice rawBlock nodes.tail).matcher (body.matcher depth)).Reads c d [t] :=
    Peg.reads_choice hs hf hr
  exact (Matcher.reads_token absent).seq chosen

/-- A text that is read as one node is read as a template of nothing else. -/
lemma readTree_of_item {text : List Char} {t : Tree Rule} (hdepth : openRules text = depth + 2) (nonempty : text ≠ [])
    (whole : (Cursor.start text).Reaches d text)
    (read : (item.matcher (body.matcher depth)).Reads (.start text) d [t]) :
    readTree text = .ok (templateOf (.start text) d t) := by
  have atEnd : d.rest = [] := List.self_eq_append_right.mp whole.1
  have noMore : (item.matcher (body.matcher depth)).Fails d := fails_item depth atEnd
  have items : (Matcher.repeated (item.matcher (body.matcher depth)) text).Reads (.start text) d [t] := by
    cases text with
    | nil => exact absurd rfl nonempty
    | cons x xs => exact read.repeated_cons (noMore.repeated xs) x
  exact readTree_of_read hdepth items atEnd

/-- A template of one node means this node. -/
lemma eval_templateOf {t : Tree Rule} {n : Node} (h : t.eval (meaning site inner) = .ok (.node n)) :
    (templateOf c d t).eval (meaning site inner) = .ok (.block [n]) := by
  have block : (Tree.node Rule.block c d [t]).eval (meaning site inner) = .ok (.block [n]) := by
    rw [Tree.eval, Tree.evalAll, h]
    rfl
  rw [templateOf, Tree.eval, Tree.evalAll, block]
  rfl

/-- A template of one node fails as this node does. -/
lemma eval_templateOf_eq_error {t : Tree Rule} {f : Failure} (h : t.eval (meaning site inner) = .error f) :
    (templateOf c d t).eval (meaning site inner) = .error f := by
  have block : (Tree.node Rule.block c d [t]).eval (meaning site inner) = .error f := by
    rw [Tree.eval, Tree.evalAll, h]
    rfl
  rw [templateOf, Tree.eval, Tree.evalAll, block]
  rfl

/-- A text is a template of one node where the first rule that does not fail reads it to its end. -/
lemma exists_readTree {text : List Char} {r : Rule} {front back : List Rule} (hs : nodes = front ++ r :: back)
    (nonempty : text ≠ []) (noEnd : blockEnd.run (.start text) = none)
    (hf : ∀ depth, ∀ q ∈ front, (body.matcher (depth + 3) q).Fails (.start text))
    (hr : ∀ {c d depth}, c.Reaches d text → openRules text = depth + 5 →
      ∃ t, (body.matcher (depth + 3) r).Reads c d [t] ∧ Q t) :
    ∃ c d t, readTree text = .ok (templateOf c d t) ∧ Q t := by
  obtain ⟨depth, hdepth⟩ : ∃ depth, openRules text = depth + 5 :=
    ⟨8 * (text.length + 2) - 5, by unfold openRules; omega⟩
  obtain ⟨d, whole⟩ : ∃ d, (Cursor.start text).Reaches d text :=
    ⟨⟨utf8Length text, []⟩, (List.append_nil text).symm, (Nat.zero_add _).symm⟩
  obtain ⟨t, read, means⟩ := hr whole hdepth
  exact ⟨_, d, t, readTree_of_item hdepth nonempty whole (reads_node hs noEnd (hf depth) read), means⟩

/-! ### Templates of an assignment -/

/-- None of the constructs that are tried before starts with the word of an assignment. -/
lemma fails_before_assignment (offset : Nat) (rest : List Char) :
    ∀ q ∈ [rawBlock, blockComment, lineComment, unterminated, escaped, ifDirective, foreachDirective],
      (body.matcher (depth + 3) q).Fails ⟨offset, '#' :: 's' :: rest⟩ := by
  intro q hq
  simp only [List.mem_cons, List.not_mem_nil, or_false] at hq
  rcases hq with rfl | rfl | rfl | rfl | rfl | rfl | rfl <;> exact fun _ => rfl

/-- The text of an assignment is read as a template of nothing else. -/
lemma readTree_assigning (hw : Legible need w Q) (hn : need + 3 ≤ openRules (assigning w)) :
    ∃ c d t, readTree (assigning w) = .ok (templateOf c d t) ∧ t.Assigns "x" Q := by
  refine @exists_readTree _ _ setDirective _ (nodes.drop 8) rfl (List.cons_ne_nil _ _) rfl
    (fun depth => @fails_before_assignment depth 0 ("et($x = ".toList ++ w ++ [')'])) fun {c d depth} h hdepth => ?_
  obtain ⟨u, v, read, refers, means⟩ := @reads_assigning _ _ depth _ _ _ hw (by omega) h
  exact ⟨_, read, c, d, u, v, rfl, refers, means⟩

/-- An assignment means what its value does. -/
lemma eval_assigns {name : String} {t : Tree Rule} {e : Expr}
    (h : t.Assigns name fun u => u.eval (meaning site inner) = .ok (.expr e)) :
    ∃ r p, t.eval (meaning site inner) = .ok (.node ⟨.assign r e, p⟩) ∧ r.root = name ∧ r.segments = [] := by
  obtain ⟨c, d, u, v, rfl, refers, value⟩ := h
  obtain ⟨r, target, root, segments⟩ := refers site inner
  refine ⟨r, site.position c d, ?_, root, segments⟩
  rw [Tree.eval, Tree.evalAll, Tree.evalAll, Tree.evalAll, target, value]
  rfl

/-- An assignment fails where its value does. -/
lemma eval_assigns_eq_error {name : String} {t : Tree Rule} {f : Failure}
    (h : t.Assigns name fun u => u.eval (meaning site inner) = .error f) :
    t.eval (meaning site inner) = .error f := by
  obtain ⟨c, d, u, v, rfl, refers, value⟩ := h
  obtain ⟨r, target, -, -⟩ := refers site inner
  rw [Tree.eval, Tree.evalAll, Tree.evalAll, Tree.evalAll, target, value]
  rfl

end Rule

/-- An assignment in a template of nothing else is kept, whatever is gobbled. -/
lemma gobble_assignment (policy : GobblingPolicy) (cs : List Char) (spans : MarkerSpans) (r : Reference) (e : Expr)
    (p : Position) : Block.gobble policy cs spans [⟨.assign r e, p⟩] = [⟨.assign r e, p⟩] := by
  unfold Block.gobble
  split <;> rfl

section Parse

variable {text : List Char} {name : String} {c d : Cursor} {t : Tree Rule}

/-- A text that is read as a template of one node parses as this node, where gobbling keeps it. -/
lemma parse_templateOf {n : Node} {policy : GobblingPolicy} (read : readTree text = .ok (Rule.templateOf c d t))
    (h : t.eval (Rule.meaning (.ofSource ⟨name, String.ofList text⟩) (readBlock (stringDepth text))) = .ok (.node n))
    (kept : ∀ spans, Block.gobble policy text spans [n] = [n]) :
    parse ⟨name, String.ofList text⟩ policy = .ok [n] := by
  obtain ⟨s, hs, rfl⟩ := Source.exists_ofList name text
  rw [← hs] at h ⊢
  rw [parse_of_parseTree (parseTree_eq_ok_iff.mpr ⟨_, read, rfl, Rule.eval_templateOf h⟩), kept]

/-- A text that is read as a template of one node fails to parse as this node fails. -/
lemma parse_templateOf_eq_error {f : Failure} {policy : GobblingPolicy}
    (read : readTree text = .ok (Rule.templateOf c d t))
    (h : t.eval (Rule.meaning (.ofSource ⟨name, String.ofList text⟩) (readBlock (stringDepth text))) = .error f) :
    parse ⟨name, String.ofList text⟩ policy = .error (.single (f.inSource ⟨name, String.ofList text⟩)) := by
  obtain ⟨s, hs, rfl⟩ := Source.exists_ofList name text
  rw [← hs] at h ⊢
  exact parse_eq_error_iff.mpr ⟨f, parseTree_eq_error read (Rule.eval_templateOf_eq_error h), rfl⟩

end Parse

/-- The text of an assignment parses as the assignment of what its value is read as, whatever is gobbled. -/
theorem parse_assigning {w : List Char} {name : String} {need : Nat} {P : Expr → Prop} (policy : GobblingPolicy)
    (hw : Rule.Spelled (.ofSource ⟨name, String.ofList (assigning w)⟩) (readBlock (stringDepth (assigning w))) need w P)
    (hn : need + 3 ≤ openRules (assigning w)) :
    ∃ r e p, parse ⟨name, String.ofList (assigning w)⟩ policy = .ok [⟨.assign r e, p⟩] ∧ r.root = "x" ∧
      r.segments = [] ∧ P e := by
  obtain ⟨c, d, t, read, c', d', u, v, rfl, refers, e, value, means⟩ := Rule.readTree_assigning hw.legible hn
  obtain ⟨r, p, node, root, segments⟩ := Rule.eval_assigns ⟨c', d', u, v, rfl, refers, value⟩
  exact ⟨r, e, p, parse_templateOf read node fun spans => gobble_assignment policy _ spans r e p, root, segments,
    means⟩

/-- A template of an assignment compiles where its value breaks no rule. -/
lemma Template.compile_assignment {s : Source} {policy : GobblingPolicy} {r : Reference} {e : Expr} {p : Position}
    (hp : parse s policy = .ok [⟨.assign r e, p⟩]) (hr : r.segments = []) (he : Expr.findings ⟨false, false⟩ e = [])
    (unit : CodeUnit) : compile unit s policy = .ok ⟨s, [⟨.assign r e, p⟩], Macros.ofDefs [], unit⟩ := by
  have clean : blockFindings ⟨false, false⟩ [⟨.assign r e, p⟩] = [] := by
    obtain ⟨root, isQuiet, segments, literal, q⟩ := r
    obtain rfl : segments = [] := hr
    show Expr.findings ⟨false, false⟩ e ++ [] = []
    rw [he, List.append_nil]
  refine compile_eq_ok_iff.mpr ⟨hp, ?_, ?_⟩
  · rw [clean]
    rfl
  · rw [clean]
    rfl

end Stencil
