import Stencil.Proofs.Reading.Assignments

/-!
# Arguments

A template of nothing but a call with one argument is read as the call with what the text of its argument is read as.
Main statement: `Rule.readTree_calling`.
-/

namespace Stencil

variable {c d : Cursor} {depth : Nat}

/-- The text that calls a macro with what another text stands for. -/
def calling (w : List Char) : List Char := "#m(".toList ++ w ++ [')']

/-- A tree is a call of a macro with one argument, and the tree of its value is of a kind. -/
inductive Tree.Calls (name : List Char) (Q : Tree Rule → Prop) : Tree Rule → Prop
  | intro {b e : Cursor} {u : Tree Rule} (c d a a' s s' : Cursor) (called : b.Reaches e name) (value : Q u) :
    Calls name Q (.node .macroCall c d [.node .macroName b e [],
      .node .macroArgs a a' [.node .positionalArg s s' [u]]])

namespace Rule

variable {site : Site} {inner : Site → List Char → Except Failure Block} {w : List Char} {Q : Tree Rule → Prop}

/-- An argument of a call, with or without a name before it: an operand without operators, or a bare word. -/
def argument : Peg Rule := .alt (.choice range operands.tail) (.rule bareWord)

lemma body_positionalArg : body positionalArg = .phrase argument := rfl

lemma body_namedArg : body namedArg =
    .phrase (.seq (.seq (.seq (.seq (.rule ident) gap) (.token (.lit "="))) gap) argument) := rfl

/-- The name of the macro that is called, in braces or not. -/
def callee : Peg Rule :=
  .alt (.seq (.seq (.token (.lit "\x7b")) (.rule macroName)) (.token (.lit "\x7d"))) (.rule macroName)

/-- What stands between two arguments. -/
def divider : Peg Rule :=
  .alt (.seq (.seq gap (.token (.lit ","))) gap)
    (.token (.several (.one fun c => c == ' ' || c == '\t' || c == '\r' || c == '\n')))

lemma body_macroArgs : body macroArgs = .phrase (.opt (.seq (.choice namedArg [positionalArg])
    (.many (.seq divider (.choice namedArg [positionalArg]))))) := rfl

lemma body_macroCall : body macroCall =
    .phrase (.seq (.seq (.seq (.seq (.seq (.seq (.token (.lit "#")) callee) (.token (.lit "("))) gap)
      (.rule macroArgs)) gap) (.token (.lit ")"))) := rfl

lemma fails_ident (hc : ∀ x ∈ c.rest.head?, (x.isAlpha || x == '_') = false) : (body.matcher depth ident).Fails c := by
  cases depth with
  | zero => exact fun _ => rfl
  | succ depth => exact fails_word rfl (Pattern.run_seq_eq_none (Pattern.run_one_eq_none hc))

/-- No further argument comes before what ends the list of them. -/
lemma fails_divider {e : Cursor} (h : d.Reaches e [')']) : (divider.matcher (body.matcher depth)).Fails d := by
  have noGap : (gap.matcher (body.matcher depth)).Reads d d [] := reads_no_gap (h.head (by decide))
  have noComma : (Matcher.token (.lit ",") : Matcher Rule).Fails d :=
    Matcher.fails_token (Pattern.run_eq_none rfl (h.head (P := (· ∉ [','])) (by decide)))
  exact (noGap.seq_fails noComma).seq.alt
    (Matcher.fails_token (Pattern.run_seq_eq_none (Pattern.run_one_eq_none (h.head rfl))))

/-- A text is read as an argument without a name, where the arguments end after it. -/
structure Passed (depth : Nat) (w : List Char) (Q : Tree Rule → Prop) : Prop where
  starts : ∃ x xs, w = x :: xs ∧ x ∉ blankChars ∧ (x.isAlpha || x == '_') = false
  reads : ∀ {c d}, c.Reaches d w → d.Closes → ∃ t, (argument.matcher (body.matcher depth)).Reads c d [t] ∧ Q t

/-- An argument is read as all arguments of a call. -/
lemma reads_macroArgs {e : Cursor} (hw : Passed depth w Q) (h : c.Reaches d w) (hd : d.Reaches e [')']) :
    ∃ t, (body.matcher (depth + 2) macroArgs).Reads c d [.node macroArgs c d [.node positionalArg c d [t]]] ∧ Q t := by
  obtain ⟨x, xs, hx, -, unnamed⟩ := hw.starts
  obtain ⟨t, read, means⟩ := hw.reads h (hd.closes (by decide))
  rw [hx] at h
  have noName : (body.matcher (depth + 1) namedArg).Fails c :=
    fails_phrase body_namedArg (fails_ident (h.head unnamed)).seq.seq.seq.seq
  have positional : (body.matcher (depth + 1) positionalArg).Reads c d [.node positionalArg c d [t]] :=
    reads_phrase body_positionalArg read
  have chosen : ((Peg.choice namedArg [positionalArg]).matcher (body.matcher (depth + 1))).Reads c d
      [.node positionalArg c d [t]] := .right noName positional
  have noMore : ((Peg.many (.seq divider (.choice namedArg [positionalArg]))).matcher
      (body.matcher (depth + 1))).Reads d d [] := Matcher.Fails.repeated (Matcher.Fails.seq (fails_divider hd)) d.rest
  exact ⟨t, reads_phrase body_macroArgs (chosen.seq noMore).opt, means⟩

/-- A call is read where its argument is. -/
lemma reads_calling (hw : Passed depth w Q) (h : c.Reaches d (calling w)) :
    ∃ t, (body.matcher (depth + 3) macroCall).Reads c d [t] ∧ t.Calls ['m'] Q := by
  obtain ⟨c₄, before, closing⟩ := h.split
  obtain ⟨c₃, head, value⟩ := before.split
  obtain ⟨c₁, hash, h₁⟩ := Cursor.Reaches.split (show c.Reaches c₃ (['#'] ++ "m(".toList) from head)
  obtain ⟨c₂, letter, paren⟩ := Cursor.Reaches.split (show c₁.Reaches c₃ (['m'] ++ ['(']) from h₁)
  obtain ⟨x, xs, hx, visible, -⟩ := hw.starts
  obtain ⟨t, args, means⟩ := reads_macroArgs hw value closing
  rw [hx] at value
  have symbol {v : List Char} {c d : Cursor} (hcd : c.Reaches d v) :
      (Matcher.token (.word v) : Matcher Rule).Reads c d [] := Matcher.reads_token (Pattern.run_word hcd)
  have noGap {c : Cursor} (hc : ∀ x ∈ c.rest.head?, x ∉ blankChars) :
      (gap.matcher (body.matcher (depth + 2))).Reads c c [] := reads_no_gap hc
  have noBrace : (Matcher.token (.lit "\x7b") : Matcher Rule).Fails c₁ :=
    Matcher.fails_token (Pattern.run_eq_none rfl (letter.head (P := (· ∉ ['\x7b'])) (by decide)))
  have name : (body.matcher (depth + 2) macroName).Reads c₁ c₂ [.node macroName c₁ c₂ []] := by
    have noKeyword : keyword.run c₁ = none := by
      obtain ⟨offset, rest⟩ := c₁
      obtain ⟨rfl, -⟩ := h₁
      rfl
    exact reads_word rfl (Pattern.run_seq (Pattern.run_absent noKeyword) (Pattern.run_seq
      (Pattern.run_one letter rfl) (Pattern.run_many_one (.refl c₂) nofun (paren.head rfl))))
  have called : (callee.matcher (body.matcher (depth + 2))).Reads c₁ c₂ [.node macroName c₁ c₂ []] :=
    Matcher.Reads.right noBrace.seq.seq name
  have start := (((symbol hash).seq called).seq (symbol paren)).seq (noGap (value.head visible))
  have all := ((start.seq args).seq (noGap (closing.head (by decide)))).seq (symbol closing)
  exact ⟨_, reads_phrase body_macroCall all, .intro c d c₃ c₄ c₃ c₄ letter means⟩

/-- None of the constructs that are tried before a call starts with a name. -/
lemma fails_before_call (offset : Nat) (rest : List Char) : ∀ q ∈ [rawBlock, blockComment, lineComment, unterminated,
      escaped, ifDirective, foreachDirective, setDirective, macroDirective, parseDirective, includeDirective,
      evaluateDirective, stopDirective, breakDirective, blockMacroCall],
    (body.matcher (depth + 3) q).Fails ⟨offset, '#' :: 'm' :: '(' :: rest⟩ := by
  intro q hq
  simp only [List.mem_cons, List.not_mem_nil, or_false] at hq
  rcases hq with rfl | rfl | rfl | rfl | rfl | rfl | rfl | rfl | rfl | rfl | rfl | rfl | rfl | rfl | rfl <;>
    exact fun _ => rfl

/-- The text of a call is read as a template of nothing else. -/
lemma readTree_calling (hw : ∀ depth, Passed (depth + 1) w Q) :
    ∃ c d t, readTree (calling w) = .ok (templateOf c d t) ∧ t.Calls ['m'] Q := by
  refine @exists_readTree _ _ macroCall _ (nodes.drop 16) rfl (List.cons_ne_nil _ _) rfl
    (fun depth => @fails_before_call depth 0 (w ++ [')'])) fun {c d depth} h hdepth => ?_
  obtain ⟨depth, rfl⟩ : ∃ k, depth = k + 1 := ⟨depth - 1, by unfold openRules at hdepth; omega⟩
  exact reads_calling (hw depth) h

/-- A call means one with the value of its argument. -/
lemma eval_calls {name : List Char} {t : Tree Rule} {e : Expr}
    (h : t.Calls name fun u => u.eval (meaning site inner) = .ok (.expr e)) :
    ∃ literal p, t.eval (meaning site inner) =
      .ok (.node ⟨.macroCall ⟨String.ofList name, [⟨none, e⟩], none, literal⟩, p⟩) := by
  cases h with
  | @intro b e' u c d a a' s s' called value =>
    have word : (Tree.node macroName b e' []).eval (meaning site inner) = .ok (.word name b.offset) := by
      show Except.ok (Part.word (b.upTo e') _) = _
      rw [called.upTo_eq]
    have positional : (Tree.node positionalArg s s' [u]).eval (meaning site inner) = .ok (.arg ⟨none, e⟩) := by
      rw [Tree.eval, Tree.evalAll, value]
      rfl
    have args : (Tree.node macroArgs a a' [.node positionalArg s s' [u]]).eval (meaning site inner) =
        .ok (.args [⟨none, e⟩]) := by
      rw [Tree.eval, Tree.evalAll, positional]
      rfl
    refine ⟨String.ofList (c.upTo d), site.position c d, ?_⟩
    rw [Tree.eval, Tree.evalAll, word, Tree.evalAll, args]
    rfl

/-- A call fails where its argument does. -/
lemma eval_calls_eq_error {name : List Char} {t : Tree Rule} {f : Failure}
    (h : t.Calls name fun u => u.eval (meaning site inner) = .error f) : t.eval (meaning site inner) = .error f := by
  cases h with
  | @intro b e u c d a a' s s' called value =>
    have positional : (Tree.node positionalArg s s' [u]).eval (meaning site inner) = .error f := by
      rw [Tree.eval, Tree.evalAll, value]
      rfl
    have args : (Tree.node macroArgs a a' [.node positionalArg s s' [u]]).eval (meaning site inner) = .error f := by
      rw [Tree.eval, Tree.evalAll, positional]
      rfl
    rw [Tree.eval, Tree.evalAll, Tree.evalAll, args]
    rfl

end Rule

/-- A call in a template of nothing else is kept, whatever is gobbled. -/
lemma gobble_call (policy : GobblingPolicy) (cs : List Char) (spans : MarkerSpans) (name literal : String)
    (as : List Argument) (p : Position) : Block.gobble policy cs spans [⟨.macroCall ⟨name, as, none, literal⟩, p⟩] =
      [⟨.macroCall ⟨name, as, none, literal⟩, p⟩] := by
  unfold Block.gobble
  split <;> rfl

end Stencil
