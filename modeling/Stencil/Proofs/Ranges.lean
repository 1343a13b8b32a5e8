import Mathlib.Tactic.Lemma
import Stencil.Render.Expression

/-!
# Ranges of whole numbers

A range is made of words, each one step after the one before, and ends with the word that is its last. Main statement:
`toInt_rangeWords`, no step leaves what a word can hold, so that the words are the whole numbers between the bounds.
-/

namespace Stencil

/-- The whole numbers from one to another, both included, upwards or downwards. -/
def wholeNumbers (a b : Int) : List Int :=
  (List.range ((a - b).natAbs + 1)).map fun i : Nat => if a ≤ b then a + i else a - i

/-- So many steps lead from a word to another one, all upwards by one or all downwards by one. -/
structure Leads (step last : Int64) (n : Nat) (k : Int64) : Prop where
  unit : step.toInt = 1 ∨ step.toInt = -1
  reaches : k.toInt + step.toInt * n = last.toInt

lemma toInt_rangeStep (lower upper : Int64) :
    (rangeStep lower upper).toInt = if lower.toInt ≤ upper.toInt then 1 else -1 := by
  unfold rangeStep
  simp only [Int64.le_iff_toInt_le]
  split
  · decide
  · decide

/-- The step of a range leads from one bound to the other. -/
lemma leads_range (lower upper : Int64) :
    Leads (rangeStep lower upper) upper (lower.toInt - upper.toInt).natAbs lower := by
  have step := toInt_rangeStep lower upper
  by_cases h : lower.toInt ≤ upper.toInt
  · rw [if_pos h] at step
    refine ⟨.inl step, ?_⟩
    rw [step]
    omega
  · rw [if_neg h] at step
    refine ⟨.inr step, ?_⟩
    rw [step]
    omega

namespace Leads

variable {step last k : Int64} {n : Nat}

/-- Nothing is left of the way where the last word is reached, and only there. -/
lemma eq_last_iff (h : Leads step last n k) : k = last ↔ n = 0 := by
  have reaches := h.reaches
  rw [← Int64.toInt_inj]
  rcases h.unit with up | down
  · rw [up] at reaches
    omega
  · rw [down] at reaches
    omega

/-- A step towards the last word does not overflow: what it reaches lies between two words. -/
lemma toInt_add_step (h : Leads step last (n + 1) k) : (k + step).toInt = k.toInt + step.toInt := by
  have reaches := h.reaches
  have from_ := And.intro k.le_toInt k.toInt_lt
  have to_ := And.intro last.le_toInt last.toInt_lt
  rw [Int64.toInt_add]
  apply Int.bmod_eq_of_le
  · rcases h.unit with unit | unit <;> rw [unit] at reaches ⊢ <;> omega
  · rcases h.unit with unit | unit <;> rw [unit] at reaches ⊢ <;> omega

lemma next (h : Leads step last (n + 1) k) : Leads step last n (k + step) := by
  refine ⟨h.unit, ?_⟩
  have reaches := h.reaches
  rw [h.toInt_add_step]
  rcases h.unit with unit | unit <;> rw [unit] at reaches ⊢ <;> omega

/-- The words that are reached are the whole numbers on the way, by induction on how many are asked for. -/
theorem toInt_rangeWords (h : Leads step last n k) (m : Nat) :
    (rangeWords step last m k).map Int64.toInt =
      (List.range (min m (n + 1))).map fun i : Nat => k.toInt + step.toInt * i := by
  induction m generalizing k n with
  | zero => simp [rangeWords]
  | succ m ih =>
    rw [rangeWords]
    cases n with
    | zero =>
      rw [if_pos (h.eq_last_iff.mpr rfl), show min (m + 1) (0 + 1) = 1 by omega]
      simp
    | succ n =>
      have further : k ≠ last := fun same => by
        have arrived := h.eq_last_iff.mp same
        omega
      rw [if_neg further, List.map_cons, ih h.next, h.toInt_add_step,
        show min (m + 1) (n + 1 + 1) = min m (n + 1) + 1 by omega, List.range_succ_eq_map, List.map_cons, List.map_map]
      congr 1
      · simp
      · apply List.map_congr_left
        intro i _
        simp only [Function.comp_apply, Nat.succ_eq_add_one, Int.natCast_add, Int.cast_ofNat_Int, Int.mul_add]
        omega

end Leads

/-- Fewer words of a range are the first of its words. -/
lemma rangeWords_min (step last : Int64) (n m : Nat) (k : Int64) :
    rangeWords step last (min n m) k = (rangeWords step last n k).take m := by
  induction n generalizing m k with
  | zero => simp [rangeWords]
  | succ n ih =>
    cases m with
    | zero => simp [rangeWords]
    | succ m =>
      rw [show min (n + 1) (m + 1) = min n m + 1 by omega, rangeWords, rangeWords, List.take_succ_cons]
      split
      · rw [List.take_nil]
      · rw [ih]

lemma rangeItems_min (lower upper : Int64) (n m : Nat) :
    rangeItems lower upper (min n m) = (rangeItems lower upper n).take m := by
  unfold rangeItems
  rw [rangeWords_min, List.map_take]

/-- All words of a range are the whole numbers from one bound to the other. -/
theorem toInt_rangeWords (lower upper : Int64) :
    (rangeWords (rangeStep lower upper) upper (rangeLength lower upper) lower).map Int64.toInt =
      wholeNumbers lower.toInt upper.toInt := by
  rw [(leads_range lower upper).toInt_rangeWords, toInt_rangeStep]
  unfold rangeLength wholeNumbers
  rw [Nat.min_self]
  apply List.map_congr_left
  intro i _
  split
  · omega
  · omega

example : wholeNumbers 3 1 = [3, 2, 1] := by decide

/-- From no word of a range but the last one is there a step that overflows. -/
theorem toInt_add_rangeStep {lower upper k : Int64}
    (h : k ∈ rangeWords (rangeStep lower upper) upper (rangeLength lower upper) lower) (further : k ≠ upper) :
    (k + rangeStep lower upper).toInt = k.toInt + (rangeStep lower upper).toInt := by
  have leads := leads_range lower upper
  have mem := List.mem_map_of_mem (f := Int64.toInt) h
  rw [leads.toInt_rangeWords] at mem
  obtain ⟨i, hi, place⟩ := List.mem_map.mp mem
  have inside := List.mem_range.mp hi
  generalize (lower.toInt - upper.toInt).natAbs = n at leads inside
  -- The word is some steps after the first one, and so as many fewer before the last one.
  have rest : Leads (rangeStep lower upper) upper (n - i) k := by
    refine ⟨leads.unit, ?_⟩
    have reaches := leads.reaches
    rw [← place]
    rcases leads.unit with unit | unit <;> rw [unit] at reaches ⊢ <;> omega
  obtain ⟨left, hl⟩ := Nat.exists_eq_add_one_of_ne_zero fun arrived => further (rest.eq_last_iff.mpr arrived)
  rw [hl] at rest
  exact rest.toInt_add_step

/-- Whether words are those of a range: the whole numbers from one bound to the other, in which no step from one to the
next overflows. -/
structure IsRange (a b : Int64) (ws : List Int64) : Prop where
  numbers : ws.map Int64.toInt = wholeNumbers a.toInt b.toInt
  step : ∀ k ∈ ws, k ≠ b → (k + rangeStep a b).toInt = k.toInt + (rangeStep a b).toInt

lemma isRange_rangeWords (a b : Int64) : IsRange a b (rangeWords (rangeStep a b) b (rangeLength a b) a) :=
  ⟨toInt_rangeWords a b, fun _ => toInt_add_rangeStep⟩

/-- A range has no other words. -/
lemma IsRange.eq {a b : Int64} {ws : List Int64} (h : IsRange a b ws) :
    ws = rangeWords (rangeStep a b) b (rangeLength a b) a := by
  have same := h.numbers.trans (isRange_rangeWords a b).numbers.symm
  exact (List.map_inj_right fun _ _ => Int64.toInt_inj.mp).mp same

/-- A range has as many items as are asked for, where it has so many. -/
lemma length_rangeItems {lower upper : Int64} {n : Nat} (h : n ≤ rangeLength lower upper) :
    (rangeItems lower upper n).length = n := by
  have words := congrArg List.length ((leads_range lower upper).toInt_rangeWords n)
  rw [List.length_map, List.length_map, List.length_range] at words
  unfold rangeLength at h
  rw [rangeItems, List.length_map, words]
  omega

namespace Interpreter

/-- The refusal of a range for its size. -/
def tooLong (a b : Int64) (limit : Nat) (p : Position) : Halt :=
  .failed (.at_ (.render (.rangeTooLong a.toInt b.toInt limit)) p)

lemma checkRange_apply (a b : Int64) (p : Position) (env : RenderEnv) (s : RenderState) :
    checkRange a b p env s =
      if env.settings.rangeMaxSize < rangeLength a b then .error (tooLong a b env.settings.rangeMaxSize p) s
      else .ok ⟨⟩ s := by
  unfold checkRange
  rw [Render.read_bind_apply]
  split
  · rfl
  · rfl

end Interpreter

end Stencil
