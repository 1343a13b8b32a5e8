import Mathlib.Data.List.Forall2
import Stencil.Proofs.Reading.Making

/-!
# Operators and operands

An expression is read as operands with operators in front of them, and operators between them. Main statement:
`Tree.expression_of_derives`.
-/

namespace Stencil

/-- What is related to a list in two parts is a list in two parts. -/
lemma exists_append_of_forall₂ {α β : Type} {R : α → β → Prop} {as bs : List α} {ys : List β}
    (h : List.Forall₂ R (as ++ bs) ys) :
    ∃ cs ds, ys = cs ++ ds ∧ List.Forall₂ R as cs ∧ List.Forall₂ R bs ds := by
  induction as generalizing ys with
  | nil => exact ⟨[], ys, rfl, .nil, h⟩
  | cons a as ih =>
    obtain ⟨c, ys, first, rest, rfl⟩ := List.forall₂_cons_left_iff.mp h
    obtain ⟨cs, ds, rfl, front, back⟩ := ih rest
    exact ⟨c :: cs, ds, rfl, .cons first front, back⟩

namespace Tree

/-- Operators and the operand that they stand in front of. -/
inductive Operand : List (Tree Rule) → Prop
  | value {t} : t.rule ∈ Rule.values → Operand [t]
  | unary {t ts} : t.rule ∈ Rule.unary → Operand ts → Operand (t :: ts)

/-- Operands behind operators. -/
inductive Operands : List (Tree Rule) → Prop
  | nil : Operands []
  | binary {t ts us} : t.rule ∈ Rule.binary → Operand ts → Operands us → Operands (t :: (ts ++ us))

/-- An operand and the operators and operands that follow it. -/
def Expression (ts : List (Tree Rule)) : Prop := ∃ us vs, ts = us ++ vs ∧ Operand us ∧ Operands vs

variable {c d : Cursor} {ts : List (Tree Rule)}

/-- What an expression reads are trees of the rules of one of its rows. -/
lemma fillsOne_of_derives {g : Peg Rule} (hd : Peg.Derives Rule.body g c d ts) :
    Slot.FillsOne (fun r (t : Tree Rule) => t.rule = r) g.rows ts := by
  induction hd with
  | token _ => exact ⟨[], List.mem_singleton_self _, .nil⟩
  | seq _ _ ih ih' => exact Peg.filled_seq ih ih'
  | left _ ih => exact Peg.filled_alt (.inl ih)
  | right _ ih => exact Peg.filled_alt (.inr ih)
  | done => exact ⟨_, List.mem_singleton_self _, .none .nil⟩
  | more _ _ ih ih' => exact Peg.filled_more ih ih'
  | skipped => exact Peg.filled_skipped
  | taken _ ih => exact Peg.filled_taken ih
  | word _ _ => exact ⟨_, List.mem_singleton_self _, .one (List.mem_singleton_self _) rfl .nil⟩
  | phrase _ _ _ => exact ⟨_, List.mem_singleton_self _, .one (List.mem_singleton_self _) rfl .nil⟩

lemma single_of_rows {g : Peg Rule} {rs : List Rule} (hd : Peg.Derives Rule.body g c d ts)
    (hg : g.rows = [[.one rs]]) : ∃ t, ts = [t] ∧ t.rule ∈ rs := by
  have filled := fillsOne_of_derives hd
  rw [hg] at filled
  obtain ⟨r, hr, t, rfl, rfl⟩ := filled.filled.eq_singleton
  exact ⟨t, rfl, hr⟩

/-- Between operators, an expression has operands with operators in front of them. -/
theorem expression_of_derives (hd : Peg.Derives Rule.body (.rule .expr) c d [.node .expr c d ts]) :
    Expression ts := by
  obtain ⟨blank, operator, value, infixed, hbody, hunary, hvalue, hbinary⟩ : ∃ (blank : Pattern)
      (operator value infixed : Peg Rule),
      Rule.body .expr = .phrase (.seq (.seq (.many (.seq operator (.token blank))) value)
        (.many (.seq (.seq (.seq (.seq (.token blank) infixed) (.token blank))
          (.many (.seq operator (.token blank)))) value))) ∧
      operator.rows = [[.one Rule.unary]] ∧ value.rows = [[.one Rule.values]] ∧
      infixed.rows = [[.one Rule.binary]] :=
    ⟨_, _, _, _, rfl, rfl, rfl, rfl⟩
  have operand {c d : Cursor} {ts us : List (Tree Rule)}
      (ho : Peg.Derives Rule.body (.many (.seq operator (.token blank))) c d ts) (hu : Operand us) :
      Operand (ts ++ us) := by
    refine ho.rounds (P := fun _ ts => Operand (ts ++ us)) hu fun hone rest => ?_
    obtain ⟨e, vs, ws, rfl, hop, hblank⟩ := hone.of_seq
    obtain ⟨t, rfl, ht⟩ := single_of_rows hop hunary
    obtain ⟨-, rfl⟩ := hblank.of_token
    exact .unary ht rest
  have single {c d : Cursor} {ts : List (Tree Rule)} (hv : Peg.Derives Rule.body value c d ts) : Operand ts := by
    obtain ⟨t, rfl, ht⟩ := single_of_rows hv hvalue
    exact .value ht
  obtain ⟨us, hus, hd⟩ := hd.of_phrase hbody
  cases hus
  obtain ⟨e, us, vs, rfl, hfirst, hrest⟩ := hd.of_seq
  obtain ⟨e', us, ws, rfl, hprefix, hvalue'⟩ := hfirst.of_seq
  refine ⟨us ++ ws, vs, rfl, operand hprefix (single hvalue'), ?_⟩
  refine hrest.rounds (P := fun _ ts => Operands ts) .nil fun hone rest => ?_
  obtain ⟨_, _, _, rfl, hfront, hvalue'⟩ := hone.of_seq
  obtain ⟨_, _, _, rfl, hbetween, hprefix⟩ := hfront.of_seq
  obtain ⟨_, _, _, rfl, hinfix, hblank⟩ := hbetween.of_seq
  obtain ⟨_, _, _, rfl, hblank', hop⟩ := hinfix.of_seq
  obtain ⟨-, rfl⟩ := hblank.of_token
  obtain ⟨-, rfl⟩ := hblank'.of_token
  obtain ⟨t, rfl, ht⟩ := single_of_rows hop hbinary
  have row := Operands.binary ht (operand hprefix (single hvalue')) rest
  simpa only [List.append_assoc, List.append_nil, List.nil_append, List.cons_append] using row

end Tree

end Stencil
