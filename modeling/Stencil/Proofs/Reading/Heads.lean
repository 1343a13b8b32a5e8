import Stencil.Proofs.Reading.Wholes

/-!
# Heads of blocks

The heads of the directives that open a block end with a parenthesis, and what comes after that is none of their
business. Main statement: `Rule.goes_head_extend`, a text that is the head of a block is read as one in front of any
other text.
-/

namespace Stencil

variable {c d e : Cursor} {r : Rule}

namespace Rule

/-- The heads of the directives that are open until their end. -/
def blockHeads : List Rule := [ifHead, foreachHead, macroHead]

/-- A directive and what stands in parentheses after it. -/
def headed (p q : Pattern) (arg : Peg Rule) : Peg Rule :=
  .seq (.seq (.seq (.seq (.seq (.seq (.token p) (.token q)) (.token (.lit "("))) gap) arg) gap) (.token (.lit ")"))

/-- A name behind its mark, in braces or not. -/
def named : Peg Rule :=
  .seq (.token (.lit "$"))
    (.alt (.seq (.seq (.token (.lit "\x7b")) (.rule ident)) (.token (.lit "\x7d"))) (.rule ident))

/-- The value that a parameter has where nothing is passed for it. -/
def fallback : Peg Rule := .seq (.seq (.seq gap (.token (.lit "="))) gap) (.rule expr)

lemma body_ifHead : ∃ p q, body ifHead = .phrase (headed p q (.rule expr)) := ⟨_, _, rfl⟩

lemma body_foreachHead : ∃ p q w, body foreachHead =
    .phrase (headed p q (.seq (.seq (.seq (.seq (.rule loopVar) gap) (.token w)) gap) (.rule expr))) := ⟨_, _, _, rfl⟩

lemma body_macroHead : ∃ p q, body macroHead =
    .phrase (headed p q (.seq (.rule macroName) (.many (.rule macroParam)))) := ⟨_, _, rfl⟩

lemma body_loopVar : body loopVar = .phrase named := rfl

lemma body_macroParam : body macroParam =
    .phrase (.seq (.seq (.seq gap (.opt (.seq (.token (.lit ",")) gap))) named) (.opt fallback)) := rfl

/-! ### What is in a head is read as a whole -/

lemma goes_named (h : Spans named c d) : goes named c = some d := by
  obtain ⟨c₁, mark, name⟩ := spans_seq.mp h
  rcases spans_alt.mp name with braced | plain
  · obtain ⟨c₃, braced, close⟩ := spans_seq.mp braced
    obtain ⟨c₂, start, name⟩ := spans_seq.mp braced
    exact goes_both mark.goes_token
      (goes_left (goes_both (goes_both start.goes_token (name.goes_word rfl)) close.goes_token) _)
  · have noBrace : goes (.seq (.seq (.token (.lit "\x7b")) (.rule ident)) (.token (.lit "\x7d"))) c₁ = none :=
      @goes_eq_none_of_openers _ c₁ 0 ['\x7b'] rfl (apart_of_ident plain (by decide))
    exact goes_both mark.goes_token ((goes_right noBrace _).trans (plain.goes_word rfl))

/-- Where the parameters of a macro are over, there is no other parameter, and no value of one. -/
lemma goes_macroParam_eq_none (hd : d.Shut) :
    goes (.rule macroParam) d = none ∧ goes (.seq gap (.token (.lit "="))) d = none := by
  obtain ⟨f, w, reach, blank, x, hx, next⟩ := hd
  have other : ∀ x ∈ [')', ']', '\x7d'], x ∉ blankChars ∧ x ∉ [','] ∧ x ∉ ['$'] ∧ x ∉ ['='] :=
    forall_mem_of_all (by decide)
  obtain ⟨visible, notComma, notMark, notSign⟩ := other x hx
  have blanks : goes gap d = some f := goes_gap reach blank (forall_mem_of_eq_some next visible)
  have noComma : goes (.seq (.token (.lit ",")) gap) f = none :=
    @goes_eq_none_of_openers _ f 0 _ rfl (forall_mem_of_eq_some next notComma)
  have noName : goes named f = none := @goes_eq_none_of_openers _ f 0 _ rfl (forall_mem_of_eq_some next notMark)
  refine ⟨?_, goes_gap_token_eq_none reach blank next visible rfl notSign⟩
  rw [goes_phrase body_macroParam]
  exact goes_seq_of_none ((goes_after (goes_both blanks (goes_skipped noComma)) _).trans noName) _

/-- Where an expression would be over behind a parameter and no value follows, the parameter is read as a whole; and it
starts at such a place. -/
lemma goes_macroParam (h : Spans (.rule macroParam) c d) (ends : d.Ends)
    (noValue : goes (.seq gap (.token (.lit "="))) d = none) : goes (.rule macroParam) c = some d ∧
      d.rest.length < c.rest.length ∧ c.Ends ∧ goes (.seq gap (.token (.lit "="))) c = none := by
  obtain ⟨c₃, h, value⟩ := spans_seq.mp ((spans_phrase body_macroParam).mp h)
  obtain ⟨c₂, h, name⟩ := spans_seq.mp h
  obtain ⟨c₁, blanks, comma⟩ := spans_seq.mp h
  obtain ⟨⟨x, hx, mark⟩, taken⟩ := @Spans.opened _ c₂ c₃ 0 _ name rfl
  obtain rfl := List.mem_singleton.mp hx
  have le₁ := blanks.length_le
  have le₂ := comma.length_le
  have le₃ := value.length_le
  have valued : goes (.opt fallback) c₃ = some d := by
    rcases spans_opt.mp value with rfl | value
    · exact goes_skipped (goes_seq_of_none (goes_seq_of_none noValue _) _)
    · obtain ⟨d₃, value, inner⟩ := spans_seq.mp value
      obtain ⟨d₂, value, blanks'⟩ := spans_seq.mp value
      obtain ⟨d₁, blanks, sign⟩ := spans_seq.mp value
      exact goes_taken (goes_both (goes_both (goes_both blanks.goes_token sign.goes_token) blanks'.goes_token)
        (goes_expr inner ends))
  obtain ⟨w, reach, blank⟩ := reaches_of_spans_gap blanks
  -- A comma or the mark of the parameter comes after the blanks.
  have separated : goes (.opt (.seq (.token (.lit ",")) gap)) c₁ = some c₂ ∧
      ∃ x ∈ [',', '$'], c₁.rest.head? = some x := by
    rcases spans_opt.mp comma with rfl | comma
    · refine ⟨goes_skipped (@goes_eq_none_of_openers _ _ 0 [','] rfl ?_), '$', by decide, mark⟩
      exact forall_mem_of_eq_some mark (by decide)
    · obtain ⟨f, comma, blanks'⟩ := spans_seq.mp comma
      exact ⟨goes_taken (goes_both comma.goes_token blanks'.goes_token), ',', by decide, head_of_spans_lit rfl comma⟩
  obtain ⟨separated, y, hy, next⟩ := separated
  have other : ∀ x ∈ [',', '$'], x ∈ '$' :: closers ∧ x ∉ blankChars ∧ x ∉ ['='] := forall_mem_of_all (by decide)
  refine ⟨?_, by omega, ⟨c₁, w, reach, blank, .inl ⟨y, (other y hy).1, next⟩⟩,
    goes_gap_token_eq_none reach blank next (other y hy).2.1 rfl (other y hy).2.2⟩
  rw [goes_phrase body_macroParam]
  exact goes_both (goes_both (goes_both blanks.goes_token separated) (goes_named name)) valued

/-- The parameters of a macro are read up to the parenthesis behind them. -/
lemma goes_params (h : Spans (.many (.rule macroParam)) c d) (hd : d.Shut) :
    goes (.many (.rule macroParam)) c = some d := by
  obtain ⟨noMore, noValue⟩ := goes_macroParam_eq_none hd
  have all : goes (.many (.rule macroParam)) c = some d ∧ c.Ends ∧ goes (.seq gap (.token (.lit "="))) c = none := by
    refine h.rounds (P := fun b => goes (.many (.rule macroParam)) b = some d ∧ b.Ends ∧
      goes (.seq gap (.token (.lit "="))) b = none) ⟨goes_done noMore, hd.ends, noValue⟩ fun {b a} round later => ?_
    obtain ⟨reads, ends, noValue⟩ := later
    obtain ⟨one, shorter, before⟩ := goes_macroParam round ends noValue
    exact ⟨(goes_more one shorter).trans reads, before⟩
  exact all.1

/-- A head is read as a whole where what stands in its parentheses is. -/
lemma goes_headed {p q : Pattern} {arg : Peg Rule} (ha : ∀ {a b : Cursor}, Spans arg a b → b.Shut → goes arg a = some b)
    (h : Spans (headed p q arg) c d) : goes (headed p q arg) c = some d := by
  obtain ⟨c₆, h, close⟩ := spans_seq.mp h
  obtain ⟨c₅, h, gap₂⟩ := spans_seq.mp h
  obtain ⟨c₄, h, inside⟩ := spans_seq.mp h
  obtain ⟨c₃, h, gap₁⟩ := spans_seq.mp h
  obtain ⟨c₂, h, start⟩ := spans_seq.mp h
  obtain ⟨c₁, word, blanks⟩ := spans_seq.mp h
  exact goes_both (goes_both (goes_both (goes_both (goes_both (goes_both word.goes_token blanks.goes_token)
    start.goes_token) gap₁.goes_token) (ha inside (shut_of_gap gap₂ close rfl (by decide)))) gap₂.goes_token)
    close.goes_token

/-- The head of a block is read as a whole. -/
theorem goes_head (hr : r ∈ blockHeads) (h : Spans (.rule r) c d) : goes (.rule r) c = some d := by
  simp only [blockHeads, List.mem_cons, List.not_mem_nil, or_false] at hr
  rcases hr with rfl | rfl | rfl
  · obtain ⟨p, q, hb⟩ := body_ifHead
    rw [goes_phrase hb]
    exact goes_headed (fun inside shut => goes_expr inside shut.ends) ((spans_phrase hb).mp h)
  · obtain ⟨p, q, w, hb⟩ := body_foreachHead
    rw [goes_phrase hb]
    refine goes_headed (fun {a b} inside shut => ?_) ((spans_phrase hb).mp h)
    obtain ⟨a₄, h, iterable⟩ := spans_seq.mp inside
    obtain ⟨a₃, h, gap₂⟩ := spans_seq.mp h
    obtain ⟨a₂, h, word⟩ := spans_seq.mp h
    obtain ⟨a₁, var, gap₁⟩ := spans_seq.mp h
    have name : goes (.rule loopVar) a = some a₁ :=
      (goes_phrase body_loopVar a).trans (goes_named ((spans_phrase body_loopVar).mp var))
    exact goes_both (goes_both (goes_both (goes_both name gap₁.goes_token) word.goes_token) gap₂.goes_token)
      (goes_expr iterable shut.ends)
  · obtain ⟨p, q, hb⟩ := body_macroHead
    rw [goes_phrase hb]
    refine goes_headed (fun inside shut => ?_) ((spans_phrase hb).mp h)
    obtain ⟨a₁, name, params⟩ := spans_seq.mp inside
    exact goes_both (name.goes_word rfl) (goes_params params shut)

/-! ### Other text after a head -/

/-- The rules that are used in heads. -/
def inHeads : List Rule := [loopVar, macroName, macroParam, ident, expr, opNot, opNeg] ++ binaryOperators ++ operands ++
  [mapEntry, dqInner, sqInner, quiet, formal, methodCall, property, index]

lemma inHeads_within : ∀ r ∈ inHeads, r = dqInner ∨ r = sqInner ∨
    (match body r with
      | .word p => p.avoids ')'
      | .phrase g => g.within ')' inHeads) = true := by
  decide +kernel

/-- The words in a head are over before its parenthesis. -/
lemma lasts_of_inHeads (hr : r ∈ inHeads) {p : Pattern} (hb : body r = .word p) : p.Lasts ')' := by
  rcases inHeads_within r hr with rfl | rfl | avoids
  · obtain rfl : Pattern.many (Pattern.quoted '\\' '"' '"') = p := Peg.Body.word.inj hb
    exact Pattern.lasts_quoted (by decide)
  · obtain rfl : Pattern.many (Pattern.quoted '\'' '\'' '\'') = p := Peg.Body.word.inj hb
    exact Pattern.lasts_quoted (by decide)
  · rw [hb] at avoids
    exact Pattern.lasts_of_avoids avoids

lemma within_of_inHeads (hr : r ∈ inHeads) {g : Peg Rule} (hb : body r = .phrase g) : g.within ')' inHeads := by
  rcases inHeads_within r hr with rfl | rfl | inside
  · cases hb
  · cases hb
  · rwa [hb] at inside

lemma exists_headed (hr : r ∈ blockHeads) :
    ∃ p q arg, body r = .phrase (headed p q arg) ∧ (headed p q arg).within ')' inHeads := by
  simp only [blockHeads, List.mem_cons, List.not_mem_nil, or_false] at hr
  rcases hr with rfl | rfl | rfl
  · refine ⟨_, _, .rule expr, rfl, ?_⟩
    decide +kernel
  · refine ⟨_, _, .seq (.seq (.seq (.seq (.rule loopVar) gap) (.token _)) gap) (.rule expr), rfl, ?_⟩
    decide +kernel
  · refine ⟨_, _, .seq (.rule macroName) (.many (.rule macroParam)), rfl, ?_⟩
    decide +kernel

/-- A text that can be derived as the head of a block can be derived as one in front of other text. -/
lemma spans_head_extend (hr : r ∈ blockHeads) (h : Spans (.rule r) c d) (hd : d.rest = []) (more : List Char) :
    Spans (.rule r) (c.extend more) (d.extend more) := by
  obtain ⟨p, q, arg, hb, within⟩ := exists_headed hr
  obtain ⟨inside, -⟩ := (Bool.and_eq_true _ _).mp within
  obtain ⟨e, front, close⟩ := spans_seq.mp ((spans_phrase hb).mp h)
  -- Before its parenthesis, the head is derived in front of other text; the parenthesis is what it is.
  have read := Cursor.word?_reaches (spans_token.mp close)
  obtain ⟨w, reach⟩ := front.reaches
  have before : c.Before ')' := ⟨w, by rw [reach.1, read.1, hd, List.append_nil]; rfl⟩
  have left : e.rest ≠ [] := by
    rw [read.1]
    exact List.cons_ne_nil _ _
  obtain ⟨ts, front⟩ := front
  obtain ⟨us, longer⟩ := front.extend (fun r hr p => lasts_of_inHeads hr) (fun r hr g => within_of_inHeads hr) inside
    before left more
  exact (spans_phrase hb).mpr (spans_seq.mpr
    ⟨e.extend more, ⟨us, longer⟩, spans_token.mpr (Pattern.run_word (read.extend more))⟩)

/-- A text that is the head of a block is read as one in front of other text. -/
theorem goes_head_extend (hr : r ∈ blockHeads) (h : goes (.rule r) c = some d) (hd : d.rest = []) (more : List Char) :
    goes (.rule r) (c.extend more) = some (d.extend more) :=
  goes_head hr (spans_head_extend hr (spans_of_goes h) hd more)

end Rule

end Stencil
