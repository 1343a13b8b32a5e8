import Stencil.Proofs.Reading.Routes

/-!
# Where operands start and end

What is next where an operand is over, which operators are read before and between operands, and what an operand starts
with. Main statements: `Rule.goes_operators`, an operator is read as the one that it is, and `Rule.goes_prefixes`, the
operators before an operand are read up to an operand.
-/

namespace Stencil

variable {g h : Peg Rule} {r : Rule} {p : Pattern} {c d e : Cursor}

/-! ### Places -/

/-- A place where an operand is over: no suffix of a reference is next, nor a parenthesis. -/
def Cursor.Past (c : Cursor) : Prop := (∀ x ∈ c.rest.head?, x ∉ ['(', '[', '.']) ∨ ['.', '.'] <+: c.rest

/-- A place where an expression is over: blanks apart, what closes it is next, a parameter's mark or two dots. -/
def Cursor.Ends (c : Cursor) : Prop :=
  ∃ d gap, c.Reaches d gap ∧ (∀ x ∈ gap, x ∈ Rule.blankChars) ∧
    ((∃ x ∈ '$' :: Rule.closers, d.rest.head? = some x) ∨ ['.', '.'] <+: d.rest)

/-- A place where things with commas between them are over: blanks apart, a bracket is next that closes them. -/
def Cursor.Shut (c : Cursor) : Prop :=
  ∃ d gap, c.Reaches d gap ∧ (∀ x ∈ gap, x ∈ Rule.blankChars) ∧ ∃ x ∈ [')', ']', '\x7d'], d.rest.head? = some x

lemma Cursor.Shut.ends (h : c.Shut) : c.Ends := by
  obtain ⟨d, gap, reaches, blank, x, hx, next⟩ := h
  have closer : ∀ x ∈ [')', ']', '\x7d'], x ∈ '$' :: Rule.closers := forall_mem_of_all (by decide)
  exact ⟨d, gap, reaches, blank, .inl ⟨x, closer x hx, next⟩⟩

/-- The next character after a gap, or a blank. -/
lemma Cursor.Reaches.head_of_gap {gap : List Char} (h : c.Reaches d gap) (hb : ∀ x ∈ gap, x ∈ Rule.blankChars)
    {P : Char → Prop} (blank : ∀ x ∈ Rule.blankChars, P x) (next : ∀ x ∈ d.rest.head?, P x) :
    ∀ x ∈ c.rest.head?, P x := by
  cases gap with
  | nil =>
    obtain rfl := h.eq_of_nil
    exact next
  | cons y gap => exact h.head (blank y (hb y List.mem_cons_self))

lemma Cursor.Ends.past (h : c.Ends) : c.Past := by
  obtain ⟨d, gap, reaches, blank, next⟩ := h
  have blanks : ∀ x ∈ Rule.blankChars, x ∉ ['(', '[', '.'] := forall_mem_of_all (by decide)
  rcases next with ⟨x, hx, next⟩ | dots
  · have closers : ∀ x ∈ '$' :: Rule.closers, x ∉ ['(', '[', '.'] := forall_mem_of_all (by decide)
    left
    exact reaches.head_of_gap blank blanks (forall_mem_of_eq_some next (closers x hx))
  · cases gap with
    | nil =>
      obtain rfl := reaches.eq_of_nil
      exact .inr dots
    | cons y gap => exact .inl (reaches.head (blanks y (blank y List.mem_cons_self)))

namespace Rule

lemma reaches_of_spans_gap (h : Spans gap c d) : ∃ w, c.Reaches d w ∧ ∀ x ∈ w, x ∈ blankChars := by
  obtain ⟨w, reach, pieces, rfl, hpieces⟩ := Pattern.spells_of_run (spans_token.mp h)
  refine ⟨_, reach, fun x hx => ?_⟩
  obtain ⟨piece, hp, hx⟩ := List.mem_flatten.mp hx
  obtain ⟨y, hy, rfl⟩ := hpieces piece hp
  obtain rfl := List.mem_singleton.mp hx
  simpa [blankChars, or_assoc] using hy

/-- After a gap there is no blank. -/
lemma goes_gap {w : List Char} (h : c.Reaches d w) (hw : ∀ x ∈ w, x ∈ blankChars)
    (hd : ∀ x ∈ d.rest.head?, x ∉ blankChars) : goes gap c = some d := by
  have isBlank (x : Char) : (x == ' ' || x == '\t' || x == '\r' || x == '\n') = true ↔ x ∈ blankChars := by
    simp [blankChars, or_assoc]
  refine (goes_token _ c).trans (Pattern.run_many_one h (fun x hx => (isBlank x).mpr (hw x hx)) fun x hx => ?_)
  exact Bool.eq_false_iff.mpr fun hb => hd x hx ((isBlank x).mp hb)

lemma head_of_spans_lit {s : String} {x : Char} {xs : List Char} (hs : s.toList = x :: xs)
    (h : Spans (.token (.lit s)) c d) : c.rest.head? = some x := by
  have read := (Cursor.word?_reaches (spans_token.mp h)).1
  rw [read, hs]
  rfl

/-- What closes an expression ends it, whatever blanks stand before. -/
lemma ends_of_gap {s : String} {x : Char} {xs : List Char} (hg : Spans gap c d) (h : Spans (.token (.lit s)) d e)
    (hs : s.toList = x :: xs) (hx : x ∈ '$' :: closers) : c.Ends := by
  obtain ⟨w, reach, blank⟩ := reaches_of_spans_gap hg
  exact ⟨d, w, reach, blank, .inl ⟨x, hx, head_of_spans_lit hs h⟩⟩

lemma shut_of_gap {s : String} {x : Char} {xs : List Char} (hg : Spans gap c d) (h : Spans (.token (.lit s)) d e)
    (hs : s.toList = x :: xs) (hx : x ∈ [')', ']', '\x7d']) : c.Shut := by
  obtain ⟨w, reach, blank⟩ := reaches_of_spans_gap hg
  exact ⟨d, w, reach, blank, x, hx, head_of_spans_lit hs h⟩

/-- Where an expression is over, no operator follows. -/
lemma goes_step_eq_none (hc : c.Ends) : goes step c = none := by
  obtain ⟨d, w, reaches, blank, next⟩ := hc
  have head : ∃ x ∈ '.' :: '$' :: closers, d.rest.head? = some x := by
    rcases next with ⟨x, hx, next⟩ | ⟨rest, dots⟩
    · exact ⟨x, List.mem_cons_of_mem _ hx, next⟩
    · exact ⟨'.', List.mem_cons_self, by rw [← dots]; rfl⟩
  obtain ⟨x, hx, head⟩ := head
  have apart : ∀ x ∈ '.' :: '$' :: closers, x ∉ blankChars := forall_mem_of_all (by decide)
  have afterGap : goes gap c = some d := goes_gap reaches blank (forall_mem_of_eq_some head (apart x hx))
  obtain ⟨cs, opens, none⟩ : ∃ cs, operators.openers (body.openers 1) = some cs ∧ ∀ x ∈ '.' :: '$' :: closers, x ∉ cs :=
    ⟨_, rfl, forall_mem_of_all (by decide)⟩
  have noOperator : goes operators d = Option.none :=
    goes_eq_none_of_openers opens (forall_mem_of_eq_some head (none x hx))
  exact goes_seq_of_none (goes_seq_of_none (goes_seq_of_none ((goes_after afterGap _).trans noOperator) _) _) _

/-! ### Operators -/

/-- What stands before the first place of a member of a list. -/
lemma exists_takeWhile_ne {α : Type} [DecidableEq α] {a : α} {l : List α} (h : a ∈ l) :
    ∃ back, l = l.takeWhile (· ≠ a) ++ a :: back := by
  induction l with
  | nil => cases h
  | cons b l ih =>
    by_cases same : b = a
    · subst same
      exact ⟨l, by simp⟩
    · obtain ⟨back, split⟩ := ih (List.mem_of_ne_of_mem (Ne.symm same) h)
      refine ⟨back, ?_⟩
      rw [List.takeWhile_cons_of_pos (by simpa using same), List.cons_append, ← split]

/-- The rules of operators between operands. -/
def binaryOperators : List Rule := [opOr, opAnd, opEq, opNe, opLe, opGe, opLt, opGt, opAdd, opSub, opMul, opDiv, opMod]

/-- A symbol that no equals sign follows, or a word in `t`, is not read as the symbol with an equals sign, or as the
word in `e`. -/
lemma run_or_equal_eq_none {x y : Char} {q q' : Pattern} (hxy : x ≠ y)
    (h : (Pattern.alt (.word [x]) (.seq (.word [y, 't']) q)).run c = some d) (hd : ∀ z ∈ d.rest.head?, z ≠ '=') :
    (Pattern.alt (.word [x, '=']) (.seq (.word [y, 'e']) q')).run c = none := by
  obtain ⟨o, rest⟩ := c
  unfold Pattern.run at h
  split at h
  · next e he =>
    obtain rfl := Option.some.inj h
    obtain ⟨rfl, -⟩ : rest = [x] ++ e.rest ∧ _ := Cursor.word?_reaches he
    cases hr : e.rest with
    | nil => simp [Pattern.run, Cursor.word?, Cursor.next?, hxy]
    | cons z zs =>
      have other : z ≠ '=' := hd z (by rw [hr]; rfl)
      simp [Pattern.run, Cursor.word?, Cursor.next?, hxy, other]
  · obtain ⟨e, he, -⟩ := Option.bind_eq_some_iff.mp h
    obtain ⟨rfl, -⟩ : rest = [y, 't'] ++ e.rest ∧ _ := Cursor.word?_reaches he
    simp [Pattern.run, Cursor.word?, Cursor.next?, Ne.symm hxy]

/-- An operator that no equals sign follows is read as it is derived. -/
lemma goes_operators (h : Spans operators c d) (hd : ∀ x ∈ d.rest.head?, x ≠ '=') : goes operators c = some d := by
  obtain ⟨s, hs, hop⟩ := spans_choice h
  have word : ∃ p, body s = .word p := by
    have checked : ∀ s ∈ binaryOperators, (match body s with | .word _ => true | .phrase _ => false) = true := by
      decide +kernel
    have this := checked s hs
    cases hb : body s with
    | word p => exact ⟨p, rfl⟩
    | phrase g =>
      rw [hb] at this
      cases this
  obtain ⟨p, hb⟩ := word
  -- The operators that are tried first open with other characters, but for the two that an equals sign tells apart.
  have checked : ∀ s ∈ binaryOperators, (body.openers 1 s).any (fun cs => (binaryOperators.takeWhile (· ≠ s)).all
      (fun q => opensOff cs q || (s == opLt && q == opLe) || (s == opGt && q == opGe))) = true := by
    decide +kernel
  obtain ⟨cs, ho, all⟩ := (Option.any_eq_true _ _).mp (checked s hs)
  obtain ⟨back, split⟩ := exists_takeWhile_ne hs
  have opens := hop.among (show (Peg.rule s).openers (body.openers 1) = some cs from ho)
  have others : ∀ q ∈ binaryOperators.takeWhile (· ≠ s), goes (.rule q) c = none := by
    intro q hq
    have off := List.all_eq_true.mp all q hq
    simp only [Bool.or_eq_true, Bool.and_eq_true, beq_iff_eq] at off
    rcases off with (off | ⟨rfl, rfl⟩) | ⟨rfl, rfl⟩
    · exact goes_eq_none_of_opensOff opens (List.all_eq_true.mpr (List.forall_mem_singleton.mpr off)) q
        (List.mem_singleton_self q)
    · exact (goes_word rfl c).trans (run_or_equal_eq_none (by decide) ((spans_word rfl).mp hop) hd)
    · exact (goes_word rfl c).trans (run_or_equal_eq_none (by decide) ((spans_word rfl).mp hop) hd)
  exact goes_choice split others (hop.goes_word hb)

/-! ### Operands and the operators before them -/

/-- A number starts with a digit, or with a minus before one; without the minus it is a number too. -/
lemma spans_number (h : Spans (.rule number) c d) : ∃ e w, c.Reaches e w ∧ (w = [] ∨ w = ['-']) ∧
    (∃ x ∈ "0123456789".toList, e.rest.head? = some x) ∧ Spans (.rule number) e d := by
  obtain ⟨after, others, hb⟩ : ∃ after others : Pattern, body number =
      .word (.seq (.seq (.seq (.opt (.lit "-")) (.several (.one Char.isDigit))) after) others) := ⟨_, _, rfl⟩
  obtain ⟨a, h, last⟩ := Option.bind_eq_some_iff.mp ((spans_word hb).mp h)
  obtain ⟨b, h, middle⟩ := Option.bind_eq_some_iff.mp h
  obtain ⟨e, minus, digits⟩ := Option.bind_eq_some_iff.mp h
  have digit : ∃ x ∈ "0123456789".toList, e.rest.head? = some x := by
    obtain ⟨f, one, -⟩ := Option.bind_eq_some_iff.mp digits
    obtain ⟨x, hx, read⟩ := Cursor.next?_reaches one
    exact ⟨x, mem_digits hx, by rw [read.1]; rfl⟩
  have unsigned : (Pattern.lit "-").run e = none := by
    obtain ⟨x, hx, head⟩ := digit
    have other : ∀ x ∈ "0123456789".toList, x ∉ ['-'] := forall_mem_of_all (by decide)
    exact Pattern.run_eq_none rfl (forall_mem_of_eq_some head (other x hx))
  have number_ : Spans (.rule number) e d := (spans_word hb).mpr
    (Pattern.run_seq (Pattern.run_seq (Pattern.run_seq (Pattern.run_opt_of_none unsigned) digits) middle) last)
  cases sign : (Pattern.lit "-").run c with
  | none =>
    have same : some c = some e := (Pattern.run_opt_of_none sign).symm.trans minus
    obtain rfl := Option.some.inj same
    exact ⟨c, [], .refl c, .inl rfl, digit, number_⟩
  | some f =>
    have same : some f = some e := by
      rw [← minus]
      show _ = some (((Pattern.lit "-").run c).getD c)
      rw [sign]
      rfl
    obtain rfl := Option.some.inj same
    exact ⟨f, ['-'], Cursor.word?_reaches sign, .inr rfl, digit, number_⟩

/-- The characters that an operand starts with. -/
def operandOpeners : List Char := "([\x7b\"'tfn$-0123456789".toList

lemma opens_operand (h : Spans operand c d) : ∃ x ∈ operandOpeners, c.rest.head? = some x := by
  rcases spans_alt.mp h with paren | other
  · obtain ⟨⟨x, hx, head⟩, -⟩ := @Spans.opened _ c d 0 _ paren rfl
    obtain rfl := List.mem_singleton.mp hx
    exact ⟨'(', by decide, head⟩
  · obtain ⟨s, hs, hr⟩ := spans_choice other
    have checked : ∀ s ∈ operands, s = number ∨
        (body.openers 3 s).any (fun cs => cs.all (operandOpeners.contains ·)) = true := by
      decide +kernel
    rcases checked s hs with rfl | opens
    · obtain ⟨e, w, reach, rfl | rfl, ⟨x, hx, head⟩, -⟩ := spans_number hr
      · have among : ∀ x ∈ "0123456789".toList, x ∈ operandOpeners := forall_mem_of_all (by decide)
        obtain rfl := reach.eq_of_nil
        exact ⟨x, among x hx, head⟩
      · exact ⟨'-', by decide, by rw [reach.1]; rfl⟩
    · obtain ⟨cs, ho, all⟩ := (Option.any_eq_true _ _).mp opens
      obtain ⟨⟨x, hx, head⟩, -⟩ := hr.opened (show (Peg.rule s).openers (body.openers 3) = some cs from ho)
      exact ⟨x, List.contains_iff_mem.mp (List.all_eq_true.mp all x hx), head⟩

/-- Where neither of the operators before an operand is read, none is. -/
lemma goes_unprefixed (hf : ∀ q ∈ [opNot, opNeg], goes (.rule q) c = none) : goes prefixes c = some c :=
  goes_done (goes_seq_of_none (goes_choice_eq_none hf) _)

/-- The minus of a number is read as an operator, and the digits after it as the operand. -/
lemma goes_prefixes_of_minus (hr : c.Reaches e ['-']) (head : ∀ x ∈ e.rest.head?, x ∈ "0123456789".toList) :
    goes prefixes c = some e := by
  have first : ∀ y ∈ c.rest.head?, y ∈ ['-'] := hr.head (List.mem_singleton_self _)
  have apart : ∀ y ∈ "0123456789".toList, y ∉ blankChars := forall_mem_of_all (by decide)
  have noNot : ∀ q ∈ [opNot], goes (.rule q) c = none := goes_eq_none_of_opensOff first (by decide)
  have neg : goes (.rule opNeg) c = some e := (goes_word rfl c).trans (Pattern.run_word hr)
  have round : goes (.seq (.choice opNot [opNeg]) gap) c = some e :=
    goes_both (goes_choice (show [opNot, opNeg] = [opNot] ++ opNeg :: [] from rfl) noNot neg)
      (goes_gap (.refl e) (List.forall_mem_nil _) fun y hy => apart y (head y hy))
  have shorter : e.rest.length < c.rest.length := by
    rw [hr.1]
    exact Nat.lt_succ_self _
  exact (goes_more round shorter).trans (goes_unprefixed (goes_eq_none_of_opensOff head (by decide)))

/-- The word for nothing starts like an operator, and is none. -/
lemma goes_prefixes_of_null (h : Spans (.rule nullLit) c d) : goes prefixes c = some c := by
  obtain ⟨w, reach, as, bs, rfl, rfl, rfl⟩ := Pattern.spells_of_run ((spans_word rfl).mp h)
  have spelled : c.rest = 'n' :: ("ull".toList ++ d.rest) := reach.1
  have first : ∀ x ∈ c.rest.head?, x ∈ ['n'] :=
    forall_mem_of_eq_some (by rw [spelled]; rfl) (List.mem_singleton_self 'n')
  have noNot : goes (.rule opNot) c = none := by
    refine (goes_word rfl c).trans ?_
    obtain ⟨o, text⟩ := c
    obtain rfl : text = _ := spelled
    rfl
  have noNeg : ∀ q ∈ [opNeg], goes (.rule q) c = none := goes_eq_none_of_opensOff first (by decide)
  exact goes_unprefixed (List.forall_mem_cons.mpr ⟨noNot, noNeg⟩)

/-- Before an operand no operator is read, but for the minus of a number. -/
lemma goes_prefixes_of_operand (h : Spans operand c d) : ∃ e, goes prefixes c = some e ∧ Spans operand e d := by
  have unprefixed {xs : List Char} (first : ∀ x ∈ c.rest.head?, x ∈ xs) (off : [opNot, opNeg].all (opensOff xs)) :
      ∃ e, goes prefixes c = some e ∧ Spans operand e d :=
    ⟨c, goes_unprefixed (goes_eq_none_of_opensOff first off), h⟩
  rcases spans_alt.mp h with paren | other
  · exact unprefixed (@Spans.among _ c d 0 _ paren rfl) (by decide)
  · obtain ⟨s, hs, hr⟩ := spans_choice other
    have checked : ∀ s ∈ operands, s = number ∨ s = nullLit ∨
        (body.openers 3 s).any (fun cs => [opNot, opNeg].all (opensOff cs)) = true := by
      decide +kernel
    rcases checked s hs with rfl | rfl | opens
    · obtain ⟨e, w, reach, rfl | rfl, ⟨x, hx, head⟩, plain⟩ := spans_number hr
      · obtain rfl := reach.eq_of_nil
        exact unprefixed (forall_mem_of_eq_some head hx) (by decide)
      · obtain ⟨ts, plain⟩ := plain
        refine ⟨e, goes_prefixes_of_minus reach (forall_mem_of_eq_some head hx), spans_alt.mpr (.inr ⟨ts, ?_⟩)⟩
        exact .right (.right (.right (.right (.right (.left plain)))))
    · exact ⟨c, goes_prefixes_of_null hr, h⟩
    · obtain ⟨cs, ho, off⟩ := (Option.any_eq_true _ _).mp opens
      exact unprefixed (hr.among (show (Peg.rule s).openers (body.openers 3) = some cs from ho)) off

/-- The operators before an operand are read up to an operand. -/
lemma goes_prefixes (hp : Spans prefixes c e) (ho : Spans operand e d) :
    ∃ f, goes prefixes c = some f ∧ Spans operand f d := by
  refine hp.rounds (P := fun b => ∃ f, goes prefixes b = some f ∧ Spans operand f d) (goes_prefixes_of_operand ho)
    fun {b a} round later => ?_
  obtain ⟨b', op, blanks⟩ := spans_seq.mp round
  obtain ⟨f, reads, operand⟩ := later
  have choice : goes (.choice opNot [opNeg]) b = some b' := by
    rcases spans_alt.mp op with not | neg
    · exact goes_left (not.goes_word rfl) _
    · have noNot : ∀ q ∈ [opNot], goes (.rule q) b = none :=
        goes_eq_none_of_opensOff (@Spans.among _ b b' 1 ['-'] neg rfl) (by decide)
      exact goes_choice (show [opNot, opNeg] = [opNot] ++ opNeg :: [] from rfl) noNot (neg.goes_word rfl)
  have shorter : a.rest.length < b.rest.length :=
    Nat.lt_of_le_of_lt blanks.length_le (@Spans.opened _ b b' 1 _ op rfl).2
  exact ⟨f, (goes_more (goes_both choice blanks.goes_token) shorter).trans reads, operand⟩

end Rule

end Stencil
