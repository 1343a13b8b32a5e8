import Mathlib.Tactic.Lemma
import Stencil.Template

/-!
# Templates up to their unit

Every compilation of a text gives the same template, but for the unit that tells the compilations apart.
Main statement: `Template.compile_inUnit`.
-/

namespace Stencil.Template

/-- A template as another compilation of its text gives it. -/
def inUnit (t : Template) (unit : CodeUnit) : Template := { t with unit := unit }

@[simp] lemma inUnit_self (t : Template) : t.inUnit t.unit = t := rfl

/-- The unit of a compilation is found in its result and nowhere else. -/
theorem compile_inUnit (u : CodeUnit) (s : Source) (policy : GobblingPolicy) :
    compile u s policy = (compile .inline s policy).map (·.inUnit u) := by
  unfold compile
  cases parse s policy with
  | error e => rfl
  | ok root =>
    dsimp only
    split <;> rfl

/-- A text that compiles once compiles again, and to the same template. -/
lemma compile_again {u : CodeUnit} {s : Source} {policy : GobblingPolicy} {t : Template}
    (h : compile u s policy = .ok t) (v : CodeUnit) : compile v s policy = .ok (t.inUnit v) := by
  obtain ⟨parsed, clean, same⟩ := compile_eq_ok_iff.mp h
  refine compile_eq_ok_iff.mpr ⟨parsed, clean, ?_⟩
  rw [same]
  rfl

lemma refused_again {u : CodeUnit} {s : Source} {policy : GobblingPolicy} {e : TemplateError}
    (h : compile u s policy = .error e) (v : CodeUnit) : compile v s policy = .error e := by
  rw [compile_inUnit] at h ⊢
  cases hc : compile .inline s policy with
  | ok t =>
    rw [hc] at h
    cases h
  | error f =>
    rw [hc] at h
    cases h
    rfl

end Stencil.Template
