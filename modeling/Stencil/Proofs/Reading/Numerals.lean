import Stencil.Proofs.Reading.Expressions

/-!
# Numerals

How an integer in decimal is read. As an operand it is read in two parts, the minus as an operator and the digits as a
number; where there are no operators, it is one number with its sign. Main statements: `Numeral.reads_number` and
`Numeral.eval_number`; `Numeral.reads_operand`, `Numeral.evalAll_trees` and `Numeral.evalAll_trees_eq_error`.
-/

namespace Stencil

variable {c d : Cursor} {depth : Nat}

/-! ### Numerals and their values -/

/-- A numeral: digits, with a minus before them where it is negative. Zeros may lead it. -/
structure Numeral where
  negative : Bool
  digits : List Char
  nonempty : digits ≠ []
  decimal : ∀ x ∈ digits, x.isDigit

lemma Rule.isDigit_toDigits (k : Nat) : ∀ x ∈ Nat.toDigits 10 k, x.isDigit := fun _ hx =>
  Nat.isDigit_of_mem_toDigits (by decide) (by decide) hx

namespace Numeral

def sign (N : Numeral) : List Char := if N.negative then ['-'] else []

def text (N : Numeral) : List Char := N.sign ++ N.digits

def value (N : Numeral) : Int := if N.negative then -(natOfDigits N.digits : Int) else natOfDigits N.digits

/-- The digits of a numeral on their own. -/
def unsigned (N : Numeral) : Numeral := { N with negative := false }

/-- The literal of the value of a numeral, where that is an integer of 64 bits. -/
def literal (N : Numeral) : Except ParseFault Literal :=
  match int64? N.value with
  | some n => .ok (.int n)
  | none => .error .integerOutOfRange

/-- The numeral that an integer is written as. -/
def ofInt (n : Int) : Numeral where
  negative := n < 0
  digits := Nat.toDigits 10 n.natAbs
  nonempty := Nat.toDigits_ne_nil
  decimal := Rule.isDigit_toDigits n.natAbs

lemma text_ofInt (n : Int) : (ofInt n).text = (toString n).toList := by
  cases n with
  | ofNat k =>
    have positive : (ofInt (.ofNat k)).negative = false := decide_eq_false (Int.not_lt.mpr (Int.natCast_nonneg k))
    rw [text, sign, positive]
    exact String.toList_ofList.symm
  | negSucc k =>
    have negative : (ofInt (.negSucc k)).negative = true := decide_eq_true (Int.negSucc_lt_zero k)
    rw [text, sign, negative]
    show _ = ("-" ++ String.ofList (Nat.toDigits 10 (k + 1))).toList
    rw [String.toList_append, String.toList_ofList, String.toList_ofList]
    rfl

lemma value_ofInt (n : Int) : (ofInt n).value = n := by
  have digits : natOfDigits (ofInt n).digits = n.natAbs := Nat.ofDigitChars_toDigits (by decide) (by decide)
  unfold value
  rw [digits]
  show (if decide (n < 0) then _ else _) = n
  by_cases negative : n < 0
  · rw [if_pos (decide_eq_true negative)]
    omega
  · rw [if_neg (by simpa using negative)]
    omega

lemma literal_eq_ok {N : Numeral} {n : Int64} (h : n.toInt = N.value) : N.literal = .ok (.int n) := by
  rw [literal, int64?_eq_some_iff.mpr h]

lemma literal_eq_error {N : Numeral} (h : ∀ n : Int64, n.toInt ≠ N.value) : N.literal = .error .integerOutOfRange := by
  rw [literal, int64?_eq_none_iff.mpr h]

/-! ### The digits of a numeral -/

lemma exists_digits (N : Numeral) : ∃ x xs, N.digits = x :: xs ∧ x.isDigit ∧ ∀ y ∈ xs, y.isDigit := by
  obtain ⟨x, xs, hx⟩ := List.exists_cons_of_ne_nil N.nonempty
  have decimal := N.decimal
  rw [hx] at decimal
  exact ⟨x, xs, hx, List.forall_mem_cons.mp decimal⟩

lemma head_digits (N : Numeral) (h : c.Reaches d N.digits) : ∀ x ∈ c.rest.head?, x ∈ "0123456789".toList := by
  obtain ⟨x, xs, hx, digit, -⟩ := N.exists_digits
  rw [hx] at h
  exact h.head (Rule.mem_digits digit)

/-- A numeral starts with its minus or its first digit. -/
lemma exists_text (N : Numeral) : ∃ x xs, N.text = x :: xs ∧ x ∈ "-0123456789".toList := by
  unfold text sign
  cases N.negative with
  | true => exact ⟨'-', N.digits, rfl, by decide⟩
  | false =>
    obtain ⟨x, xs, hx, digit, -⟩ := N.exists_digits
    exact ⟨x, xs, hx, List.mem_cons_of_mem '-' (Rule.mem_digits digit)⟩

/-- An integer is read from a numeral exactly where its value is one. -/
lemma readInt64?_text (N : Numeral) : readInt64? N.text = int64? N.value := by
  have all : N.digits.all Char.isDigit = true := List.all_eq_true.mpr N.decimal
  have some_ : N.digits.isEmpty = false := List.isEmpty_eq_false_iff.mpr N.nonempty
  obtain ⟨x, xs, hx, digit, -⟩ := N.exists_digits
  unfold readInt64? text sign value
  cases N.negative with
  | true =>
    show (if (N.digits.isEmpty || !N.digits.all Char.isDigit) = true then none else _) = _
    rw [all, some_]
    rfl
  | false =>
    rw [if_neg Bool.false_ne_true, List.nil_append]
    rw [hx] at all some_ ⊢
    split
    next negative ds heq =>
    split at heq
    · next h =>
      obtain rfl := (List.cons.inj h).1
      exact absurd digit (by decide)
    · next h =>
      obtain rfl := (List.cons.inj h).1
      exact absurd digit (by decide)
    · cases heq
      rw [all, some_]
      rfl

/-- A numeral has neither a point nor an exponent. -/
lemma ofNumber_text (N : Numeral) : Literal.ofNumber N.text = N.literal := by
  have whole : N.text.any (fun c => c == '.' || c == 'e' || c == 'E') = false := by
    refine List.any_eq_false.mpr fun x hx hm => ?_
    simp only [Bool.or_eq_true, beq_iff_eq] at hm
    have notDigit : x.isDigit = false := by
      rcases hm with (rfl | rfl) | rfl <;> rfl
    rcases List.mem_append.mp hx with hx | hx
    · have minus : x = '-' := by
        unfold sign at hx
        split at hx
        · exact List.mem_singleton.mp hx
        · cases hx
      subst minus
      simp at hm
    · rw [N.decimal x hx] at notDigit
      cases notDigit
  unfold Literal.ofNumber
  rw [whole, N.readInt64?_text]
  rfl

end Numeral

/-! ### Places -/

def Pattern.digits : Pattern := .several (.one Char.isDigit)

def Pattern.fraction : Pattern := .seq (.lit ".") .digits

def Pattern.exponent : Pattern :=
  .seq (.seq (.alt (.lit "e") (.lit "E")) (.opt (.alt (.lit "+") (.lit "-")))) .digits

lemma Rule.body_number :
    body number = .word (.seq (.seq (.seq (.opt (.lit "-")) .digits) (.opt .fraction)) (.opt .exponent)) := rfl

/-- A place where an integer is over: no digit goes on, and no fraction or exponent follows. -/
structure Cursor.EndsInteger (c : Cursor) : Prop where
  noDigit : ∀ x ∈ c.rest.head?, x.isDigit = false
  noFraction : Pattern.fraction.run c = none
  noExponent : Pattern.exponent.run c = none

lemma Cursor.Closes.endsInteger (h : c.Closes) : c.EndsInteger where
  noDigit := h.head (forall_mem_of_all (by decide))
  noFraction := Pattern.run_eq_none rfl (h.head (P := (· ∉ ['.'])) (forall_mem_of_all (by decide)))
  noExponent := Pattern.run_eq_none rfl (h.head (P := (· ∉ ['e', 'E'])) (forall_mem_of_all (by decide)))

/-! ### Operands -/

/-- Parts that stand for one operand, whatever operators stand before it and wherever it stands between others. -/
def Part.CountAs (parts : List Part) (e : Expr) : Prop :=
  ∀ pending chain op? first? rest,
    operation pending chain op? first? (parts ++ rest) = operation pending chain op? first? (.expr e :: rest)

lemma Part.CountAs.single (e : Expr) : CountAs [.expr e] e := fun _ _ _ _ _ => rfl

/-- An operand without operators is an expression. -/
lemma Part.CountAs.eval_expr {ts : List (Tree Rule)} {parts : List Part} {e : Expr} {site : Site}
    {inner : Site → List Char → Except Failure Block} (h : CountAs parts e)
    (hp : Tree.evalAll (Rule.meaning site inner) ts = .ok parts) :
    (Tree.node .expr c d ts).eval (Rule.meaning site inner) = .ok (.expr e) := by
  have alone : operation [] [] none none parts = .ok e := by
    have whole := h [] [] none none []
    rw [List.append_nil] at whole
    exact whole
  rw [Tree.eval, hp]
  show Except.bind (operation [] [] none none parts) _ = _
  rw [alone]
  rfl

/-- A minus before an integer that has a negative is this negative. -/
lemma Part.CountAs.negative {n : Int64} (hn : n ≠ .minValue) (p q : Position) :
    CountAs [.unaryOp .neg p, .expr ⟨.literal (.int (-n)), q⟩] ⟨.literal (.int n), p.to q⟩ := by
  intro pending chain op? first? rest
  have other : -n ≠ .minValue := neg_ne_minValue hn
  have folded : Expr.ofPrefix .neg p ⟨.literal (.int (-n)), q⟩ = ⟨.literal (.int n), p.to q⟩ := by
    show (if -n = Int64.minValue then _ else Expr.mk (.literal (.int (- -n))) _) = _
    rw [if_neg other, Int64.neg_neg]
  show operation ((.neg, p) :: pending) chain op? first? (.expr ⟨.literal (.int (-n)), q⟩ :: rest) = _
  unfold operation
  dsimp only [toExpr]
  show Except.bind (.ok _) _ = Except.bind (.ok _) _
  dsimp only [Except.bind, List.foldl_cons]
  rw [folded]

namespace Rule

/-- An operator before an operand, with the blanks after it. -/
def leading : Peg Rule := .seq (.choice opNot [opNeg]) gap

/-- Operators are read from one place to another, as a list of trees. -/
inductive Prefixed (depth : Nat) : Cursor → Cursor → List (Tree Rule) → Prop
  | nil (c : Cursor) : Prefixed depth c c []
  | cons {a b c : Cursor} {ts us : List (Tree Rule)} : (leading.matcher (body.matcher depth)).Reads a b ts →
    b.rest.length < a.rest.length → Prefixed depth b c us → Prefixed depth a c (ts ++ us)

/-- What is read where the operators end is read on from where they start. -/
lemma Prefixed.reads {a b : Cursor} {ts us : List (Tree Rule)} (h : Prefixed depth a c us)
    (hc : ∀ bound : List Char, c.rest.length ≤ bound.length →
      (Matcher.repeated (leading.matcher (body.matcher depth)) bound).Reads c b ts) :
    ∀ bound : List Char, a.rest.length ≤ bound.length →
      (Matcher.repeated (leading.matcher (body.matcher depth)) bound).Reads a b (us ++ ts) := by
  induction h with
  | nil c => exact hc
  | cons round further _ ih =>
    intro bound hb
    cases bound with
    | nil => exact absurd (Nat.lt_of_lt_of_le further hb) (Nat.not_lt_zero _)
    | cons x bound =>
      rw [List.append_assoc]
      rw [List.length_cons] at hb
      exact round.repeated_cons (ih hc bound (by omega)) x

end Rule

namespace Numeral

open Rule (body number opNot opNeg gap prefixes operand meaning)

/-! ### As a number -/

/-- A numeral is read as one number. -/
lemma reads_number (N : Numeral) (h : c.Reaches d N.text) (hd : d.EndsInteger) :
    (body.matcher (depth + 1) number).Reads c d [.node number c d []] := by
  obtain ⟨b, before, after⟩ := Cursor.Reaches.split h
  obtain ⟨x, xs, hx, digit, others⟩ := N.exists_digits
  have run : Pattern.digits.run b = some d := by
    rw [hx] at after
    obtain ⟨a, first, rest⟩ := Cursor.Reaches.split (show b.Reaches d ([x] ++ xs) from after)
    exact Pattern.run_seq (Pattern.run_one first digit) (Pattern.run_many_one rest others hd.noDigit)
  have minus : (Pattern.opt (.lit "-")).run c = some b := by
    unfold sign at before
    split at before
    · show some (((Pattern.lit "-").run c).getD c) = some b
      rw [show (Pattern.lit "-").run c = some b from Pattern.run_word before]
      rfl
    · obtain rfl := before.eq_of_nil
      have apart : ∀ x ∈ "0123456789".toList, x ∉ ['-'] := forall_mem_of_all (by decide)
      exact Pattern.run_opt_of_none (Pattern.run_eq_none rfl fun x hx => apart x (N.head_digits after x hx))
  exact Rule.reads_word Rule.body_number (Pattern.run_seq (Pattern.run_seq (Pattern.run_seq minus run)
    (Pattern.run_opt_of_none hd.noFraction)) (Pattern.run_opt_of_none hd.noExponent))

variable {site : Site} {inner : Site → List Char → Except Failure Block}

/-- The number that a numeral is read as stands for its literal. -/
lemma eval_number (N : Numeral) (h : c.Reaches d N.text) :
    (Tree.node number c d []).eval (meaning site inner) =
      match N.literal with
      | .ok l => .ok (.expr ⟨.literal l, site.position c d⟩)
      | .error f => .error (site.fault c d f) := by
  rw [Tree.eval, Tree.evalAll, ← N.ofNumber_text, ← h.upTo_eq]
  rfl

/-! ### As an operand -/

/-- What is read where a numeral is an operand: its minus as an operator, and the digits as a number. -/
def trees (N : Numeral) (c b d : Cursor) : List (Tree Rule) :=
  (if N.negative then [.node opNeg c b []] else []) ++ [.node number b d []]

/-- Where an operand may stand, a numeral is read as its digits behind its minus, which is the last operator before
them. -/
lemma reads_operand {a : Cursor} {os : List (Tree Rule)} (N : Numeral) (ho : Rule.Prefixed (depth + 1) a c os)
    (h : c.Reaches d N.text) (hd : d.EndsInteger) :
    ∃ b ts us, b.Reaches d N.digits ∧ (prefixes.matcher (body.matcher (depth + 1))).Reads a b (os ++ ts) ∧
      (operand.matcher (body.matcher (depth + 1))).Reads b d us ∧ ts ++ us = N.trees c b d := by
  obtain ⟨b, before, after⟩ := Cursor.Reaches.split h
  have first := N.head_digits after
  have number : (body.matcher (depth + 1) number).Reads b d [.node number b d []] :=
    N.unsigned.reads_number after hd
  have front : ∀ q ∈ [Rule.range, .list, .map, .dqString, .sqString], (body.matcher (depth + 1) q).Fails b :=
    Rule.fails_of_opensOff first (by decide)
  have noParen : ∀ x ∈ b.rest.head?, x ∉ ['('] := by
    have apart : ∀ x ∈ "0123456789".toList, x ∉ ['('] := forall_mem_of_all (by decide)
    exact fun x hx => apart x (first x hx)
  have read : (operand.matcher (body.matcher (depth + 1))).Reads b d [.node .number b d []] :=
    Rule.reads_operand rfl front noParen number
  have noPrefix : ∀ q ∈ [opNot, opNeg], (body.matcher (depth + 1) q).Fails b :=
    Rule.fails_of_opensOff first (by decide)
  have noMore (bound : List Char) :
      (Matcher.repeated (Rule.leading.matcher (body.matcher (depth + 1))) bound).Reads b b [] :=
    Matcher.Fails.repeated (Matcher.Fails.seq (Peg.fails_choice noPrefix)) bound
  refine ⟨b, _, _, after, ho.reads (fun bound hb => ?_) a.rest (Nat.le_refl _), read, rfl⟩
  unfold sign at before
  cases hn : N.negative with
  | false =>
    rw [hn] at before
    obtain rfl := before.eq_of_nil
    exact noMore bound
  | true =>
    rw [hn] at before
    have noNot : ∀ q ∈ [opNot], (body.matcher (depth + 1) q).Fails c :=
      Rule.fails_of_opensOff (before.head (List.mem_singleton_self _)) (by decide)
    have neg : (body.matcher (depth + 1) opNeg).Reads c b [.node opNeg c b []] :=
      Rule.reads_word rfl (Pattern.run_word before)
    have noGap : (gap.matcher (body.matcher (depth + 1))).Reads b b [] := by
      have apart : ∀ x ∈ "0123456789".toList, x ∉ Rule.blankChars := forall_mem_of_all (by decide)
      exact Rule.reads_no_gap fun x hx => apart x (first x hx)
    have round : (Rule.leading.matcher (body.matcher (depth + 1))).Reads c b [.node opNeg c b []] :=
      (@Peg.reads_choice _ _ _ _ _ opNot opNeg [opNeg] [opNot] [] rfl noNot neg).seq noGap
    cases bound with
    | nil =>
      rw [before.1] at hb
      cases hb
    | cons x bound => exact round.repeated_cons (noMore bound) x

/-- A numeral is read as an expression where one may end after it. -/
lemma reads_expr (N : Numeral) (h : c.Reaches d N.text) (hd : d.Closes) :
    ∃ b, b.Reaches d N.digits ∧
      (body.matcher (depth + 2) .expr).Reads c d [.node .expr c d (N.trees c b d)] := by
  obtain ⟨b, ts, us, digits, sign, read, trees⟩ := N.reads_operand (.nil c) h hd.endsInteger
  rw [List.nil_append] at sign
  exact ⟨b, digits, trees ▸ Rule.reads_expr sign read hd⟩

/-- The digits of a numeral are in range where its value is a word that has a negative. -/
lemma literal_unsigned {N : Numeral} {n : Int64} (h : n.toInt = N.value) (hn : n ≠ .minValue) :
    N.unsigned.literal = .ok (.int (if N.negative then -n else n)) := by
  refine literal_eq_ok ?_
  unfold value at h
  show _ = (natOfDigits N.digits : Int)
  cases negative : N.negative with
  | true =>
    rw [negative, if_pos rfl] at h
    rw [if_pos rfl, toInt_of_int64? (int64?_neg hn)]
    omega
  | false =>
    rw [negative, if_neg Bool.false_ne_true] at h
    rw [if_neg Bool.false_ne_true, h]

/-- They are out of range where the value is no word or the one without a negative. -/
lemma literal_unsigned_eq_error {N : Numeral} (h : ∀ n : Int64, n.toInt = N.value → n = .minValue) :
    N.unsigned.literal = .error .integerOutOfRange := by
  refine literal_eq_error fun m hm => ?_
  have magnitude : m.toInt = natOfDigits N.digits := hm
  have other : m ≠ .minValue := by
    rintro rfl
    have least : Int64.minValue.toInt = -2 ^ 63 := by decide
    omega
  unfold value at h
  cases negative : N.negative with
  | true =>
    rw [negative, if_pos rfl, ← magnitude] at h
    exact neg_ne_minValue other (h (-m) (toInt_of_int64? (int64?_neg other)))
  | false =>
    rw [negative, if_neg Bool.false_ne_true, ← magnitude] at h
    exact other (h m rfl)

lemma eval_digits (N : Numeral) {b : Cursor} (h : b.Reaches d N.digits) :
    (Tree.node number b d []).eval (meaning site inner) =
      match N.unsigned.literal with
      | .ok l => .ok (.expr ⟨.literal l, site.position b d⟩)
      | .error f => .error (site.fault b d f) :=
  N.unsigned.eval_number h

/-- As an operand, a numeral stands for its value where that is a word but the least one. -/
lemma evalAll_trees {N : Numeral} {n : Int64} {b : Cursor} (hb : b.Reaches d N.digits) (h : n.toInt = N.value)
    (hn : n ≠ .minValue) : ∃ parts p, Tree.evalAll (meaning site inner) (N.trees c b d) = .ok parts ∧
      Part.CountAs parts ⟨.literal (.int n), p⟩ := by
  have digits := @eval_digits _ site inner N _ hb
  rw [literal_unsigned h hn] at digits
  unfold trees
  cases negative : N.negative with
  | true =>
    rw [negative] at digits
    refine ⟨[.unaryOp .neg (site.position c b), .expr ⟨.literal (.int (-n)), site.position b d⟩], _, ?_,
      .negative hn _ _⟩
    show Tree.evalAll (meaning site inner) [.node opNeg c b [], .node number b d []] = _
    rw [Tree.evalAll, Tree.evalAll, digits]
    rfl
  | false =>
    rw [negative] at digits
    refine ⟨[.expr ⟨.literal (.int n), site.position b d⟩], _, ?_, .single _⟩
    show Tree.evalAll (meaning site inner) [.node number b d []] = _
    rw [Tree.evalAll, digits]
    rfl

/-- Otherwise its digits are refused. -/
lemma evalAll_trees_eq_error {N : Numeral} {b : Cursor} (hb : b.Reaches d N.digits)
    (h : ∀ n : Int64, n.toInt = N.value → n = .minValue) :
    Tree.evalAll (meaning site inner) (N.trees c b d) = .error (site.fault b d .integerOutOfRange) := by
  have digits := @eval_digits _ site inner N _ hb
  rw [literal_unsigned_eq_error h] at digits
  unfold trees
  cases N.negative with
  | true =>
    show Tree.evalAll (meaning site inner) [.node opNeg c b [], .node number b d []] = _
    rw [Tree.evalAll, Tree.evalAll, digits]
    rfl
  | false =>
    show Tree.evalAll (meaning site inner) [.node number b d []] = _
    rw [Tree.evalAll, digits]
    rfl

end Numeral

end Stencil
