import Stencil.Engine
import Stencil.Proofs.Segments

/-!
# Arithmetic on whole numbers

The operators on words of 64 bits give the exact result or are refused; they never wrap around. Main statement:
`Interpreter.exact_or_refused`. One remainder is refused though it is a word, `Interpreter.remainder_missed`.
-/

namespace Stencil

/-! ### Exact results -/

/-- Division with a remainder, which is smaller than the divisor and has the sign of the dividend: the quotient is cut
off towards zero. -/
structure Division (a b q r : Int) : Prop where
  whole : a = b * q + r
  small : r.natAbs < b.natAbs
  sign : 0 ≤ a ∧ 0 ≤ r ∨ a ≤ 0 ∧ r ≤ 0

namespace BinaryOp

/-- The exact result of an operator on whole numbers. There is none where the divisor is zero. -/
inductive Exact : BinaryOp → Int → Int → Int → Prop
  | add {a b : Int} : Exact add a b (a + b)
  | sub {a b : Int} : Exact sub a b (a - b)
  | mul {a b : Int} : Exact mul a b (a * b)
  | div {a b q r : Int} : Division a b q r → Exact div a b q
  | mod {a b q r : Int} : Division a b q r → Exact mod a b r

def IsArithmetic (op : BinaryOp) : Prop := op = add ∨ op = sub ∨ op = mul ∨ op = div ∨ op = mod

instance (op : BinaryOp) : Decidable op.IsArithmetic := inferInstanceAs (Decidable (_ ∨ _))

def Divides (op : BinaryOp) : Prop := op = div ∨ op = mod

end BinaryOp

variable {a b q r n : Int}

lemma Division.ne_zero (h : Division a b q r) : b ≠ 0 := by
  have small := h.small
  omega

lemma division_of_tdiv (hb : b ≠ 0) : Division a b (a.tdiv b) (a.tmod b) := by
  obtain pos | neg := Int.le_total 0 a
  · obtain ⟨whole, least, most⟩ := (Int.tdiv_tmod_unique pos hb).mp ⟨rfl, rfl⟩
    exact ⟨by omega, by omega, .inl ⟨pos, least⟩⟩
  · obtain ⟨whole, least, most⟩ := (Int.tdiv_tmod_unique' neg hb).mp ⟨rfl, rfl⟩
    exact ⟨by omega, by omega, .inr ⟨neg, most⟩⟩

/-- There is only one such quotient and remainder. -/
lemma Division.unique (h : Division a b q r) : a.tdiv b = q ∧ a.tmod b = r := by
  have whole := h.whole
  have small := h.small
  obtain ⟨pos, least⟩ | ⟨neg, most⟩ := h.sign
  · exact (Int.tdiv_tmod_unique pos h.ne_zero).mpr ⟨by omega, least, by omega⟩
  · exact (Int.tdiv_tmod_unique' neg h.ne_zero).mpr ⟨by omega, by omega, most⟩

namespace BinaryOp

variable {op : BinaryOp}

lemma Exact.onInt (h : op.Exact a b n) : op.onInt a b = some n := by
  cases h with
  | add => rfl
  | sub => rfl
  | mul => rfl
  | div division => exact congrArg some division.unique.1
  | mod division => exact congrArg some division.unique.2

lemma Exact.ne_zero (h : op.Exact a b n) (divides : op.Divides) : b ≠ 0 := by
  cases h with
  | add | sub | mul => obtain h | h := divides <;> cases h
  | div division | mod division => exact division.ne_zero

lemma exact_of_onInt (h : op.onInt a b = some n) (hb : op.Divides → b ≠ 0) : op.Exact a b n := by
  cases op with
  | add =>
    cases h
    exact .add
  | sub =>
    cases h
    exact .sub
  | mul =>
    cases h
    exact .mul
  | div =>
    cases h
    exact .div (division_of_tdiv (hb (.inl rfl)))
  | mod =>
    cases h
    exact .mod (division_of_tdiv (hb (.inr rfl)))
  | _ => cases h

end BinaryOp

/-! ### Words -/

lemma int64?_eq_none_iff_lt : int64? n = none ↔ n < -9223372036854775808 ∨ 9223372036854775807 < n := by
  have least : Int64.minValue.toInt = -9223372036854775808 := by decide
  have most : Int64.maxValue.toInt = 9223372036854775807 := by decide
  unfold int64?
  rw [least, most, ite_eq_right_iff]
  constructor
  · intro h
    have outside : ¬(-9223372036854775808 ≤ n ∧ n ≤ 9223372036854775807) := fun inside => nomatch h inside
    omega
  · intro outside inside
    omega

/-- The quotient of two words is a word, but for the one of the least word by minus one. -/
lemma int64?_tdiv_eq_none_iff {a b : Int64} (hb : b.toInt ≠ 0) :
    int64? (a.toInt.tdiv b.toInt) = none ↔ a = .minValue ∧ b = -1 := by
  have least := a.le_toInt
  have most := a.toInt_lt
  have minValue : a = .minValue ↔ a.toInt = -9223372036854775808 := by
    rw [← Int64.toInt_inj]
    exact Iff.rfl
  have negOne : b = -1 ↔ b.toInt = -1 := by
    rw [← Int64.toInt_inj]
    exact Iff.rfl
  rw [int64?_eq_none_iff_lt, minValue, negOne]
  by_cases one : b.toInt.natAbs = 1
  · obtain one | negative : b.toInt = 1 ∨ b.toInt = -1 := by omega
    · rw [one, Int.tdiv_one]
      omega
    · rw [negative, Int.tdiv_neg, Int.tdiv_one]
      omega
  · have size : (a.toInt.tdiv b.toInt).natAbs ≤ a.toInt.natAbs / 2 := by
      rw [Int.natAbs_tdiv]
      exact Nat.div_le_div_left (by omega) (by decide)
    omega

/-! ### Operations -/

/-- The one remainder that is a word while the quotient that goes with it is none. -/
def BinaryOp.Misses (op : BinaryOp) (a b : Int64) : Prop := op = .mod ∧ a = .minValue ∧ b = -1

instance (op : BinaryOp) (a b : Int64) : Decidable (op.Misses a b) := inferInstanceAs (Decidable (_ ∧ _))

section

variable {op : BinaryOp} {a b : Int64}

lemma BinaryOp.onWord_of_misses (h : op.Misses a b) : op.onWord a b = none := by
  obtain ⟨rfl, rfl, rfl⟩ := h
  decide

lemma BinaryOp.onWord_of_not_misses (h : ¬op.Misses a b) (hb : op.Divides → b.toInt ≠ 0) :
    op.onWord a b = (op.onInt a.toInt b.toInt).bind int64? := by
  refine if_neg ?_
  rintro ⟨rfl, quotient⟩
  rw [Option.isNone_iff_eq_none, int64?_tdiv_eq_none_iff (hb (.inr rfl))] at quotient
  exact h ⟨rfl, quotient⟩

/-- An operator on words gives the exact result, if that is a word. -/
lemma BinaryOp.onWord_eq_some_iff (h : ¬op.Misses a b) (hb : op.Divides → b.toInt ≠ 0) {n : Int64} :
    op.onWord a b = some n ↔ op.Exact a.toInt b.toInt n.toInt := by
  rw [onWord_of_not_misses h hb, Option.bind_eq_some_iff]
  constructor
  · rintro ⟨k, result, word⟩
    rw [← int64?_eq_some_iff.mp word] at result
    exact exact_of_onInt result hb
  · intro exact
    exact ⟨n.toInt, exact.onInt, int64?_eq_some_iff.mpr rfl⟩

end

/-- How an operation on two words ends: with the exact result, if that is a word and none that is missed, and otherwise
with an error that is told where the operation stands. -/
inductive Calculates (op : BinaryOp) (a b : Int64) (p : Position) (t : RenderState) : Outcome Value → Prop
  | exact {n : Int64} : ¬op.Misses a b → op.Exact a.toInt b.toInt n.toInt → Calculates op a b p t (.ok (.int n) t)
  | byZero : op.Divides → b = 0 →
    Calculates op a b p t (.error (.failed (.at_ (.divisionByZero a.toInt op.symbol) p)) t)
  | overflow : ¬(op.Divides ∧ b = 0) → (∀ n : Int64, ¬op.Exact a.toInt b.toInt n.toInt) →
    Calculates op a b p t (.error (.failed (.at_ (.render (.overflow a.toInt b.toInt op.symbol)) p)) t)
  | missed : op.Misses a b →
    Calculates op a b p t (.error (.failed (.at_ (.render (.overflow a.toInt b.toInt op.symbol)) p)) t)

/-- How a change of sign ends: with the word of the other sign, or with an error where there is none. -/
inductive Negates (a : Int64) (p : Position) (t : RenderState) : Outcome Value → Prop
  | exact {n : Int64} : n.toInt = -a.toInt → Negates a p t (.ok (.int n) t)
  | overflow : (∀ n : Int64, n.toInt ≠ -a.toInt) →
    Negates a p t (.error (.failed (.at_ (.render (.negationOverflow a.toInt)) p)) t)

lemma Value.binary_int {op : BinaryOp} (h : op.IsArithmetic) (σ : Store) (a b : Int64) :
    binary σ op (.int a) (.int b) = wholeArithmetic op a b := by
  obtain rfl | rfl | rfl | rfl | rfl := h <;> rfl

lemma calculates_wholeArithmetic (op : BinaryOp) (a b : Int64) (p : Position) (env : RenderEnv) (t : RenderState) :
    Calculates op a b p t (Render.orFail p (Value.wholeArithmetic op a b) env t) := by
  unfold Value.wholeArithmetic
  split
  · next zero => exact .byZero zero.2 zero.1
  next nonzero =>
  have hb : op.Divides → b.toInt ≠ 0 := fun divides zero => nonzero ⟨Int64.toInt_inj.mp zero, divides⟩
  by_cases missed : op.Misses a b
  · rw [op.onWord_of_misses missed]
    exact .missed missed
  cases result : op.onWord a b with
  | some n => exact .exact missed ((op.onWord_eq_some_iff missed hb).mp result)
  | none =>
    refine .overflow (fun zero => nonzero ⟨zero.2, zero.1⟩) fun n exact => ?_
    rw [(op.onWord_eq_some_iff missed hb).mpr exact] at result
    cases result

/-- An exact result that is a word and none that is missed is what the operation gives. -/
lemma Calculates.eq_of_exact {op : BinaryOp} {a b n : Int64} {p : Position} {t : RenderState} {o : Outcome Value}
    (h : Calculates op a b p t o) (missed : ¬op.Misses a b) (exact : op.Exact a.toInt b.toInt n.toInt) :
    o = .ok (.int n) t := by
  cases h with
  | @exact m _ exact' =>
    have same : m = n := Int64.toInt_inj.mp (Option.some.inj (exact'.onInt.symm.trans exact.onInt))
    rw [same]
  | byZero divides zero => exact absurd (Int64.toInt_inj.mpr zero) (exact.ne_zero divides)
  | overflow _ none => exact absurd exact (none n)
  | missed missed' => exact absurd missed' missed

lemma negates_negate (σ : Store) (a : Int64) (p : Position) (env : RenderEnv) (t : RenderState) :
    Negates a p t (Render.orFail p (Value.negate σ (.int a)) env t) := by
  unfold Value.negate
  dsimp only
  cases result : int64? (-a.toInt) with
  | some n => exact .exact (toInt_of_int64? result)
  | none => exact .overflow (int64?_eq_none_iff.mp result)

namespace Interpreter

variable {self : Interpreter} {env : RenderEnv} {s t u : RenderState} {left right : Expr} {a b : Int64}

lemma evaluate_binary {op : BinaryOp} (h : op.IsArithmetic) (hl : self.value left env s = .ok (.int a) t)
    (hr : self.value right env t = .ok (.int b) u) (lenient : Bool) (p : Position) :
    Calculates op a b p u (self.evaluate lenient ⟨.binary op left right, p⟩ env s) := by
  have operation : self.evaluate lenient ⟨.binary op left right, p⟩ = self.operation lenient op left right p := by
    obtain rfl | rfl | rfl | rfl | rfl := h <;> rfl
  have other : (op == .eq || op == .ne) = false := by
    obtain rfl | rfl | rfl | rfl | rfl := h <;> rfl
  have hl : self.eval false left env s = .ok (.int a) t := hl
  have hr : self.eval false right env t = .ok (.int b) u := hr
  have whole : self.operation lenient op left right p env s =
      Render.orFail p (Value.binary u.store op (.int a) (.int b)) env u := by
    unfold Interpreter.operation
    dsimp only
    rw [other, Bool.and_false, Render.bind_apply, hl]
    dsimp only
    rw [Render.bind_apply, hr]
    rfl
  rw [operation, whole, Value.binary_int h]
  exact calculates_wholeArithmetic op a b p env u

lemma evaluate_negation (hl : self.value left env s = .ok (.int a) t) (lenient : Bool) (p : Position) :
    Negates a p t (self.evaluate lenient ⟨.unary .neg left, p⟩ env s) := by
  have whole : self.evaluate lenient ⟨.unary .neg left, p⟩ env s =
      Render.orFail p (Value.negate t.store (.int a)) env t := by
    unfold evaluate
    dsimp only
    rw [Render.bind_apply, hl]
    rfl
  rw [whole]
  exact negates_negate t.store a p env t

/-- Whether an expression has a value wherever code may be nested so deep, and evaluating it changes nothing. -/
def Denotes (env : RenderEnv) (s : RenderState) (k : Nat) (e : Expr) (v : Value) : Prop :=
  ∀ depth, k ≤ depth → (ofDepth depth).value e env s = .ok v s

variable {x y : Expr} {k l : Nat}

lemma Denotes.mono {v : Value} (h : Denotes env s k x v) (hl : k ≤ l) : Denotes env s l x v :=
  fun depth deep => h depth (Nat.le_trans hl deep)

lemma Denotes.binary {op : BinaryOp} {n : Int64} (hx : Denotes env s k x (.int a)) (hy : Denotes env s k y (.int b))
    (h : op.IsArithmetic) (missed : ¬op.Misses a b) (exact : op.Exact a.toInt b.toInt n.toInt) (p : Position) :
    Denotes env s (k + 1) ⟨.binary op x y, p⟩ (.int n) := by
  intro depth deep
  obtain ⟨d, rfl⟩ := Nat.exists_eq_add_of_le' deep
  exact (evaluate_binary h (hx (d + k) (by omega)) (hy (d + k) (by omega)) false p).eq_of_exact missed exact

/-- The quotient times the divisor and the remainder make up the dividend, if the quotient is a word. -/
lemma denotes_dividend {q : Int64} (hx : Denotes env s k x (.int a)) (hy : Denotes env s k y (.int b))
    (hq : BinaryOp.Exact .div a.toInt b.toInt q.toInt) (p₁ p₂ p₃ p₄ : Position) :
    Denotes env s (k + 3)
      ⟨.binary .add ⟨.binary .mul ⟨.binary .div x y, p₁⟩ y, p₂⟩ ⟨.binary .mod x y, p₃⟩, p₄⟩ (.int a) := by
  cases hq with
  | @div _ _ _ r division =>
  have whole := division.whole
  have small := division.small
  have sign := division.sign
  have least := a.le_toInt
  have most := a.toInt_lt
  have least' := b.le_toInt
  have most' := b.toInt_lt
  -- the remainder and the product are words, since both lie between zero and a word
  have remainder : int64? r ≠ none := by
    rw [Ne, int64?_eq_none_iff_lt]
    omega
  have product : int64? (a.toInt - r) ≠ none := by
    rw [Ne, int64?_eq_none_iff_lt]
    omega
  obtain ⟨w, hw⟩ := Option.ne_none_iff_exists'.mp remainder
  obtain ⟨m, hm⟩ := Option.ne_none_iff_exists'.mp product
  obtain rfl := toInt_of_int64? hw
  have hm := toInt_of_int64? hm
  have fits : ¬(a = .minValue ∧ b = -1) := by
    rw [← int64?_tdiv_eq_none_iff division.ne_zero, division.unique.1, int64?_eq_some_iff.mpr rfl]
    exact nofun
  have quotient := hx.binary hy (.inr (.inr (.inr (.inl rfl)))) (fun h => nomatch h.1) (.div division) p₁
  have times : BinaryOp.Exact .mul q.toInt b.toInt m.toInt := by
    have exact : q.toInt * b.toInt = m.toInt := by
      rw [Int.mul_comm]
      omega
    exact exact ▸ .mul
  have sum : BinaryOp.Exact .add m.toInt w.toInt a.toInt := by
    have exact : m.toInt + w.toInt = a.toInt := by omega
    exact exact ▸ .add
  have multiple := quotient.binary (hy.mono (Nat.le_succ k)) (.inr (.inr (.inl rfl))) (fun h => nomatch h.1) times p₂
  have rest := hx.binary hy (.inr (.inr (.inr (.inr rfl)))) (fun h => fits h.2) (.mod division) p₃
  exact multiple.binary (rest.mono (Nat.le_succ _)) (.inl rfl) (fun h => nomatch h.1) sum p₄

/-- Arithmetic on words is exact or refused. Whatever two words the operands are, an operation gives the word that is
the exact result if there is one, and otherwise an error, of its own kind where the divisor is zero; it never wraps
around. Only the remainder of the least word by minus one is refused although it is a word. So is unary minus exact or
refused, and where a quotient is a word, it and the remainder make up the dividend. -/
theorem exact_or_refused (hl : self.value left env s = .ok (.int a) t)
    (hr : self.value right env t = .ok (.int b) u) (lenient : Bool) (p : Position) :
    (∀ op : BinaryOp, op.IsArithmetic →
      Calculates op a b p u (self.evaluate lenient ⟨.binary op left right, p⟩ env s)) ∧
    Negates a p t (self.evaluate lenient ⟨.unary .neg left, p⟩ env s) ∧
    ∀ (v : RenderState) (k : Nat) (x y : Expr) (q : Int64), Denotes env v k x (.int a) → Denotes env v k y (.int b) →
      BinaryOp.Exact .div a.toInt b.toInt q.toInt → ∀ p₁ p₂ p₃ p₄, Denotes env v (k + 3)
        ⟨.binary .add ⟨.binary .mul ⟨.binary .div x y, p₁⟩ y, p₂⟩ ⟨.binary .mod x y, p₃⟩, p₄⟩ (.int a) :=
  ⟨fun _ arithmetic => evaluate_binary arithmetic hl hr lenient p, evaluate_negation hl lenient p,
    fun _ _ _ _ _ hx hy hq => denotes_dividend hx hy hq⟩

/-- The quotient of minus seven by two is cut off towards zero, and the remainder is negative. -/
theorem exact_or_refused_negative :
    let p : Position := default
    let x : Expr := ⟨.literal (.int (-7)), p⟩
    let y : Expr := ⟨.literal (.int 2), p⟩
    let env := (Engine.initial .standard).env (.ofTemplates [] id)
    let s := (Engine.initial .standard).start .empty .empty .empty
    ((ofDepth 1).value x env s = .ok (.int (-7)) s ∧ (ofDepth 1).value y env s = .ok (.int 2) s) ∧
      (ofDepth 1).evaluate false ⟨.binary .div x y, p⟩ env s = .ok (.int (-3)) s ∧
      (ofDepth 1).evaluate false ⟨.binary .mod x y, p⟩ env s = .ok (.int (-1)) s ∧
      Denotes env s 4
        ⟨.binary .add ⟨.binary .mul ⟨.binary .div x y, p⟩ y, p⟩ ⟨.binary .mod x y, p⟩, p⟩ (.int (-7)) := by
  intro p x y env s
  have literal (n : Int64) : Denotes env s 1 ⟨.literal (.int n), p⟩ (.int n) := by
    intro depth deep
    obtain ⟨d, rfl⟩ := Nat.exists_eq_add_of_le' deep
    rfl
  have hx := literal (-7) 1 (Nat.le_refl 1)
  have hy := literal 2 1 (Nat.le_refl 1)
  have division : Division (-7 : Int64).toInt (2 : Int64).toInt (-3 : Int64).toInt (-1 : Int64).toInt :=
    ⟨by decide, by decide, by decide⟩
  obtain ⟨operations, -, dividend⟩ := exact_or_refused hx hy false p
  have quotient := (operations .div (by decide)).eq_of_exact (by decide) (.div division)
  have remainder := (operations .mod (by decide)).eq_of_exact (by decide) (.mod division)
  exact ⟨⟨hx, hy⟩, quotient, remainder, dividend s 1 x y (-3) (literal _) (literal _) (.div division) p p p p⟩

/-- The remainder of the least word by minus one is zero, but it is refused. -/
theorem remainder_missed :
    let p : Position := default
    let x : Expr := ⟨.literal (.int (-9223372036854775808)), p⟩
    let y : Expr := ⟨.literal (.int (-1)), p⟩
    let env := (Engine.initial .standard).env (.ofTemplates [] id)
    let s := (Engine.initial .standard).start .empty .empty .empty
    BinaryOp.Exact .mod (-9223372036854775808) (-1) 0 ∧
      ∃ e : TemplateError, (ofDepth 1).evaluate false ⟨.binary .mod x y, p⟩ env s = .error (.failed e) s ∧
        e.kind = .render := by
  intro p x y env s
  have division : Division (-9223372036854775808) (-1) 9223372036854775808 0 := ⟨by decide, by decide, by decide⟩
  exact ⟨.mod division, _, rfl, rfl⟩

end Interpreter

end Stencil
