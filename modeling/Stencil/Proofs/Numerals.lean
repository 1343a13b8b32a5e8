import Stencil.Proofs.Reading.Arguments
import Stencil.Proofs.Reading.Numerals

/-!
# Integers that can be written

As an argument of a call, a numeral is accepted exactly where its value is a word of 64 bits, and it stands for that
word. As an operand of an expression it is, too, but for the least word: there the minus is an operator, and the digits
behind it are out of range. Main statement: `Numeral.read_both_ways`.
-/

namespace Stencil

variable {c d : Cursor} {depth : Nat}

/-! ### What numerals are read as -/

namespace Tree

/-- Trees are an operand that is a word; without a word, they are refused since their integer is out of range. -/
def Number (ts : List (Tree Rule)) : Option Int64 → Prop
  | some n => ∀ site inner, ∃ parts p, evalAll (Rule.meaning site inner) ts = .ok parts ∧
    Part.CountAs parts ⟨.literal (.int n), p⟩
  | none => ∀ site inner, ∃ c d, evalAll (Rule.meaning site inner) ts = .error (site.fault c d .integerOutOfRange)

/-- A tree means a word; without a word, it is refused since its integer is out of range. -/
def Denotes (t : Tree Rule) : Option Int64 → Prop
  | some n => ∀ site inner, ∃ p, t.eval (Rule.meaning site inner) = .ok (.expr ⟨.literal (.int n), p⟩)
  | none => ∀ site inner, ∃ c d, t.eval (Rule.meaning site inner) = .error (site.fault c d .integerOutOfRange)

/-- An operand on its own is an expression that means the same. -/
lemma Number.denotes {ts : List (Tree Rule)} {n? : Option Int64} (h : Number ts n?) :
    (node .expr c d ts).Denotes n? := by
  cases n? with
  | none =>
    intro site inner
    obtain ⟨a, b, failed⟩ := h site inner
    refine ⟨a, b, ?_⟩
    rw [eval, failed]
    rfl
  | some n =>
    intro site inner
    obtain ⟨parts, p, means, operand⟩ := h site inner
    exact ⟨p, operand.eval_expr means⟩

end Tree

/-- A template parses as a block that has a form with a word in it; without a word, it is refused since an integer in it
is out of range. -/
def ParsesTo (r : Except TemplateError Block) (Form : Int64 → Block → Prop) : Option Int64 → Prop
  | some n => ∃ b, r = .ok b ∧ Form n b
  | none => ∃ f token, r = .error (.single f) ∧ f.cause = .parse .integerOutOfRange token

/-- A template does not parse in two ways. -/
lemma ParsesTo.unique {r : Except TemplateError Block} {Form : Int64 → Block → Prop} {m? n? : Option Int64}
    (h : ParsesTo r Form m?) (h' : ParsesTo r Form n?) (form : ∀ {m n b}, Form m b → Form n b → m = n) : m? = n? := by
  cases m? with
  | none =>
    obtain ⟨f, token, failed, -⟩ := h
    cases n? with
    | none => rfl
    | some n =>
      obtain ⟨b, parsed, -⟩ := h'
      rw [failed] at parsed
      cases parsed
  | some m =>
    obtain ⟨b, parsed, first⟩ := h
    cases n? with
    | none =>
      obtain ⟨f, token, failed, -⟩ := h'
      rw [failed] at parsed
      cases parsed
    | some n =>
      obtain ⟨b', parsed', second⟩ := h'
      rw [parsed] at parsed'
      cases parsed'
      rw [form first second]

/-- A block of nothing but the assignment of a word to a variable. -/
def Block.IsAssignment (n : Int64) (b : Block) : Prop :=
  ∃ r p q, b = [⟨.assign r ⟨.literal (.int n), p⟩, q⟩] ∧ r.root = "x" ∧ r.segments = []

/-- A block of nothing but the call of a macro with a word. -/
def Block.IsCall (n : Int64) (b : Block) : Prop :=
  ∃ p literal q, b = [⟨.macroCall ⟨"m", [⟨none, ⟨.literal (.int n), p⟩⟩], none, literal⟩, q⟩]

namespace Numeral

/-- A numeral is an operand that stands for a word; without a word, it is refused as out of range there. -/
structure IsOperand (N : Numeral) (n? : Option Int64) : Prop where
  /-- So it is wherever an operand may stand, whatever operators are read before it and whatever is around it. -/
  anywhere : ∀ {a c d depth os}, Rule.Prefixed (depth + 1) a c os → c.Reaches d N.text → d.EndsInteger → ∃ b ts us,
    (Rule.prefixes.matcher (Rule.body.matcher (depth + 1))).Reads a b (os ++ ts) ∧
      (Rule.operand.matcher (Rule.body.matcher (depth + 1))).Reads b d us ∧ Tree.Number (ts ++ us) n?
  /-- So it is in a template that assigns it to a variable. -/
  assigned : ∀ name policy, ParsesTo (parse ⟨name, String.ofList (assigning N.text)⟩ policy) Block.IsAssignment n?

/-- A numeral is an argument that stands for a word; without a word, it is refused as out of range there. -/
structure IsArgument (N : Numeral) (n? : Option Int64) : Prop where
  /-- So it is wherever an argument may stand, with or without a name. -/
  anywhere : ∀ {c d depth}, c.Reaches d N.text → d.EndsInteger →
    ∃ t, (Rule.argument.matcher (Rule.body.matcher (depth + 1))).Reads c d [t] ∧ t.Denotes n?
  /-- So it is in a template that calls a macro with it. -/
  passed : ∀ name policy, ParsesTo (parse ⟨name, String.ofList (calling N.text)⟩ policy) Block.IsCall n?

variable {N : Numeral} {n? : Option Int64}

/-! ### As an operand -/

/-- The word that a numeral is as an operand: its value, unless that is the least word. -/
def operand? (N : Numeral) : Option Int64 := (int64? N.value).filter fun n => n ≠ .minValue

lemma operand?_eq_some_iff {n : Int64} : N.operand? = some n ↔ n.toInt = N.value ∧ n ≠ .minValue := by
  unfold operand?
  rw [Option.filter_eq_some_iff, int64?_eq_some_iff, decide_eq_true_eq]

lemma operand?_eq_none_iff : N.operand? = none ↔ ∀ n : Int64, n.toInt = N.value → n = .minValue := by
  rw [Option.eq_none_iff_forall_ne_some]
  refine forall_congr' fun n => ?_
  rw [Ne, operand?_eq_some_iff, not_and, not_not]

/-- What a numeral is read as where an operand may stand. -/
lemma number_trees {b : Cursor} (h : b.Reaches d N.digits) : Tree.Number (N.trees c b d) N.operand? := by
  cases hn : N.operand? with
  | none => exact fun site inner => ⟨b, d, evalAll_trees_eq_error h (operand?_eq_none_iff.mp hn)⟩
  | some n =>
    obtain ⟨value, other⟩ := operand?_eq_some_iff.mp hn
    exact fun site inner => evalAll_trees h value other

/-- A numeral is read as an expression. -/
lemma legible_text (N : Numeral) : Rule.Legible 2 N.text fun t => t.Denotes N.operand? where
  visible := by
    obtain ⟨x, xs, hx, numeric⟩ := N.exists_text
    have apart : ∀ x ∈ "-0123456789".toList, x ∉ Rule.blankChars := forall_mem_of_all (by decide)
    exact ⟨x, xs, hx, apart x numeric⟩
  reads {c d depth} hr hd hn := by
    obtain ⟨depth, rfl⟩ := Nat.exists_eq_add_of_le' hn
    obtain ⟨b, digits, read⟩ := N.reads_expr hr hd
    exact ⟨_, read, (number_trees digits).denotes⟩

/-- Every numeral is an operand, or refused as one. -/
lemma isOperand (N : Numeral) : N.IsOperand N.operand? where
  anywhere ho h hd := by
    obtain ⟨b, ts, us, digits, sign, read, trees⟩ := N.reads_operand ho h hd
    exact ⟨b, ts, us, sign, read, trees ▸ number_trees digits⟩
  assigned name policy := by
    have room : 2 + 3 ≤ openRules (assigning N.text) := by
      unfold openRules
      omega
    obtain ⟨c, d, t, read, c', d', u, v, rfl, refers, means⟩ := Rule.readTree_assigning N.legible_text room
    cases hn : N.operand? with
    | none =>
      rw [hn] at means
      obtain ⟨a, b, failed⟩ := means _ _
      have whole := Rule.eval_assigns_eq_error ⟨c', d', u, v, rfl, refers, failed⟩
      exact ⟨_, _, parse_templateOf_eq_error read whole, rfl⟩
    | some n =>
      rw [hn] at means
      obtain ⟨p, value⟩ := means _ _
      obtain ⟨r, q, node, root, segments⟩ := Rule.eval_assigns ⟨c', d', u, v, rfl, refers, value⟩
      exact ⟨_, parse_templateOf read node fun spans => gobble_assignment policy _ spans r _ q, r, p, q, rfl, root,
        segments⟩

lemma IsOperand.unique {m? : Option Int64} (h : N.IsOperand m?) (h' : N.IsOperand n?) : m? = n? := by
  refine (h.assigned "" .none).unique (h'.assigned "" .none) ?_
  rintro m n b ⟨r, p, q, rfl, -⟩ ⟨r', p', q', same, -⟩
  cases same
  rfl

lemma isOperand_iff : N.IsOperand n? ↔ N.operand? = n? := by
  constructor
  · exact N.isOperand.unique
  · rintro rfl
    exact N.isOperand

/-! ### As an argument -/

open Rule (body number operands)

/-- As an argument, a numeral is read as one number. -/
lemma reads_argument (N : Numeral) (h : c.Reaches d N.text) (hd : d.EndsInteger) :
    (Rule.argument.matcher (body.matcher (depth + 1))).Reads c d [.node number c d []] := by
  obtain ⟨x, xs, hx, numeric⟩ := N.exists_text
  have first : ∀ x ∈ c.rest.head?, x ∈ "-0123456789".toList := by
    rw [hx] at h
    exact h.head numeric
  have front : ∀ q ∈ [Rule.range, .list, .map, .dqString, .sqString], (body.matcher (depth + 1) q).Fails c :=
    Rule.fails_of_opensOff first (by decide)
  have sixth : operands = [.range, .list, .map, .dqString, .sqString] ++ number :: operands.drop 6 := rfl
  have chosen : ((Peg.choice .range operands.tail).matcher (body.matcher (depth + 1))).Reads c d
      [.node number c d []] := Peg.reads_choice sixth front (N.reads_number h hd)
  exact chosen.left

/-- The number that a numeral is read as means its value. -/
lemma denotes_number (h : c.Reaches d N.text) : (Tree.node number c d []).Denotes (int64? N.value) := by
  cases hn : int64? N.value with
  | none =>
    intro site inner
    refine ⟨c, d, ?_⟩
    rw [N.eval_number h, literal, hn]
  | some n =>
    intro site inner
    refine ⟨site.position c d, ?_⟩
    rw [N.eval_number h, literal, hn]

/-- A numeral is read as an argument. -/
lemma passed_text (N : Numeral) (depth : Nat) :
    Rule.Passed (depth + 1) N.text fun t => t.Denotes (int64? N.value) where
  starts := by
    obtain ⟨x, xs, hx, numeric⟩ := N.exists_text
    have apart : ∀ x ∈ "-0123456789".toList, x ∉ Rule.blankChars ∧ (x.isAlpha || x == '_') = false :=
      forall_mem_of_all (by decide)
    exact ⟨x, xs, hx, apart x numeric⟩
  reads h hd := ⟨_, N.reads_argument h hd.endsInteger, denotes_number h⟩

/-- Every numeral is an argument, or refused as one. -/
lemma isArgument (N : Numeral) : N.IsArgument (int64? N.value) where
  anywhere h hd := ⟨_, N.reads_argument h hd, denotes_number h⟩
  passed name policy := by
    obtain ⟨c, d, t, read, calls⟩ := Rule.readTree_calling N.passed_text
    cases hn : int64? N.value with
    | none =>
      rw [hn] at calls
      cases calls with
      | intro c d a a' s s' called means =>
        obtain ⟨b, e, failed⟩ := means _ _
        have whole := Rule.eval_calls_eq_error (.intro c d a a' s s' called failed)
        exact ⟨_, _, parse_templateOf_eq_error read whole, rfl⟩
    | some n =>
      rw [hn] at calls
      cases calls with
      | intro c d a a' s s' called means =>
        obtain ⟨p, value⟩ := means _ _
        obtain ⟨text, q, node⟩ := Rule.eval_calls (.intro c d a a' s s' called value)
        exact ⟨_, parse_templateOf read node fun spans => gobble_call policy _ spans "m" text _ q, p, text, q, rfl⟩

lemma IsArgument.unique {m? : Option Int64} (h : N.IsArgument m?) (h' : N.IsArgument n?) : m? = n? := by
  refine (h.passed "" .none).unique (h'.passed "" .none) ?_
  rintro m n b ⟨p, text, q, rfl⟩ ⟨p', text', q', same⟩
  cases same
  rfl

lemma isArgument_iff : N.IsArgument n? ↔ int64? N.value = n? := by
  constructor
  · exact N.isArgument.unique
  · rintro rfl
    exact N.isArgument

/-! ### Both ways -/

/-- Every word is accepted in decimal as an argument and stands for itself there, and every word but the least one as
an operand. Whatever a numeral is, as an argument it stands for its value and is refused as out of range exactly where
that is no word; as an operand it does so, but is refused where its value is the least word, too. -/
theorem read_both_ways (N : Numeral) (n : Int64) :
    (ofInt n.toInt).text = (toString n.toInt).toList ∧ (ofInt n.toInt).IsArgument (some n) ∧
      ((ofInt n.toInt).IsOperand (some n) ↔ n ≠ .minValue) ∧
      (N.IsArgument (some n) ↔ n.toInt = N.value) ∧ (N.IsArgument none ↔ ∀ m : Int64, m.toInt ≠ N.value) ∧
      (N.IsOperand (some n) ↔ n.toInt = N.value ∧ n ≠ .minValue) ∧
      (N.IsOperand none ↔ ∀ m : Int64, m.toInt = N.value → m = .minValue) := by
  have value : n.toInt = (ofInt n.toInt).value := (value_ofInt n.toInt).symm
  refine ⟨text_ofInt n.toInt, ?_, ?_, ?_, ?_, ?_, ?_⟩
  · exact isArgument_iff.mpr (int64?_eq_some_iff.mpr value)
  · rw [isOperand_iff, operand?_eq_some_iff]
    exact and_iff_right value
  · rw [isArgument_iff, int64?_eq_some_iff]
  · rw [isArgument_iff, int64?_eq_none_iff]
  · rw [isOperand_iff, operand?_eq_some_iff]
  · rw [isOperand_iff, operand?_eq_none_iff]

/-- The least word cannot be written as an operand, though it can be as an argument. -/
theorem least_word_refused : ¬(∀ n : Int64, (ofInt n.toInt).IsOperand (some n)) ∧
    ParsesTo (parse ⟨"t", "#set($x = -9223372036854775808)"⟩ .none) Block.IsAssignment none ∧
    ParsesTo (parse ⟨"t", "#m(-9223372036854775808)"⟩ .none) Block.IsCall (some .minValue) := by
  have value : Int64.minValue.toInt = (ofInt Int64.minValue.toInt).value := by decide
  have refused : (ofInt Int64.minValue.toInt).IsOperand none := by
    refine isOperand_iff.mpr (operand?_eq_none_iff.mpr fun n hn => ?_)
    exact Int64.toInt_inj.mp (hn.trans value.symm)
  have accepted : (ofInt Int64.minValue.toInt).IsArgument (some .minValue) :=
    isArgument_iff.mpr (int64?_eq_some_iff.mpr value)
  have assignment : String.ofList (assigning (ofInt Int64.minValue.toInt).text) =
      "#set($x = -9223372036854775808)" := by decide
  have call : String.ofList (calling (ofInt Int64.minValue.toInt).text) = "#m(-9223372036854775808)" := by decide
  refine ⟨fun all => ?_, ?_, ?_⟩
  · cases refused.unique (all .minValue)
  · rw [← assignment]
    exact refused.assigned "t" .none
  · rw [← call]
    exact accepted.passed "t" .none

end Numeral
end Stencil
