import Mathlib.Tactic.Lemma
import Stencil.Render.Assignment

/-!
# References of one segment

A reference of one segment is a variable and one step from its value. Main statements: `Render.reference_of_segment` and
`Render.assign_of_segment`, reading and assigning are what the step is on that value.
-/

namespace Stencil.Render

variable {α : Type} {eval : Expr → Render Value} {env : RenderEnv} {s : RenderState} {x : Reference} {segment : Segment}
  {v : Value}

lemma strict_apply (env : RenderEnv) (s : RenderState) : strict env s = .ok env.settings.strictReferences s := rfl

lemma ask_apply (f : Store → α) (env : RenderEnv) (s : RenderState) : ask f env s = .ok (f s.store) s := rfl

lemma change_apply (f : Store → α × Store) (env : RenderEnv) (s : RenderState) :
    change f env s = .ok (f s.store).1 { s with store := (f s.store).2 } := rfl

lemma variableOf_of_get? (hv : s.get? x.root = some v) (strict : Bool) (env : RenderEnv) :
    variableOf x strict env s = .ok (some v) s := by
  unfold variableOf
  rw [get_bind_apply, hv]
  rfl

lemma walk_of_get? (hv : s.get? x.root = some v) (segments : List Segment) (exempt : Bool) :
    walk eval x segments exempt env s =
      follow eval x (env.settings.strictReferences && !exempt) segments v env s := by
  unfold walk
  rw [bind_apply, strict_apply]
  dsimp only
  rw [bind_apply, variableOf_of_get? hv]

/-- Whether a reference that leads to nothing is refused. -/
def refuses (env : RenderEnv) (x : Reference) : Bool := env.settings.strictReferences && !x.quiet

/-- What a reference of one segment reads, in a condition or elsewhere. -/
theorem reference_of_segment (hx : x.segments = [segment]) (hv : s.get? x.root = some v) (held : v.isNull = false)
    (lenient : Bool) : reference eval x lenient env s = step eval v segment (refuses env x) env s := by
  have exempt : (x.quiet || (lenient && x.segments.isEmpty)) = x.quiet := by
    rw [hx, List.isEmpty_cons, Bool.and_false, Bool.or_false]
  unfold reference
  rw [exempt, walk_of_get? hv, hx, follow, held, if_neg Bool.false_ne_true, bind_apply]
  cases h : step eval v segment (env.settings.strictReferences && !x.quiet) env s with
  | ok w t => exact h.symm
  | error halt t => exact h.symm

/-- What an assignment to a reference of one segment does. -/
theorem assign_of_segment (hx : x.segments = [segment]) (hv : s.get? x.root = some v) (held : v.isNull = false)
    (w : Value) : assign eval x w env s = assignSegment eval v segment w env s := by
  have last : x.segments.getLast? = some segment := by
    rw [hx]
    rfl
  have receiver : walk eval x x.segments.dropLast false env s = .ok v s := by
    rw [hx, walk_of_get? hv]
    rfl
  unfold assign
  rw [last]
  dsimp only
  rw [bind_apply, receiver]
  dsimp only
  rw [held, if_neg Bool.false_ne_true]

end Stencil.Render
