import Stencil.Proofs.History.Plain

/-!
# Renders in pairs

Two renders whose states are related in some way, and that run the same steps, end alike as long as every change that
only templates see keeps the relation. Main statements: the rules for the steps that are such changes, and for those
that are made of others.
-/

namespace Stencil

/-- What relates the states of two renders, and which errors of theirs count as the same. -/
structure Pairing where
  Related : RenderState → RenderState → Prop
  Alike : TemplateError → TemplateError → Prop
  view : ∀ {s t}, Related s t → s.view = t.view
  plain : ∀ {α : Type} {f : RenderState → α × RenderState}, RenderState.Plain f →
    ∀ {s t}, Related s t → Related (f s).2 (f t).2
  same : ∀ e, Alike e e

namespace Pairing

section

variable (P : Pairing)

/-- Outcomes that are alike, in related states. -/
inductive Agree {α : Type} : Outcome α → Outcome α → Prop
  | ok (x : α) {s t : RenderState} : P.Related s t → Agree (.ok x s) (.ok x t)
  | failed {e e' : TemplateError} {s t : RenderState} : P.Alike e e' → P.Related s t →
    Agree (.error (.failed e) s) (.error (.failed e') t)
  | exhausted {s t : RenderState} : P.Related s t → Agree (.error .exhausted s) (.error .exhausted t)

/-- Computations that agree wherever they start from related states. -/
def Holds {α : Type} (env : Bool → RenderEnv) (m : Bool → Render α) : Prop :=
  ∀ ⦃s t⦄, P.Related s t → P.Agree (m false (env false) s) (m true (env true) t)

end

variable {P : Pairing} {α β : Type} {env : Bool → RenderEnv}

lemma holds_pure (x : α) : P.Holds env fun _ => pure x := fun _ _ h => .ok x h

lemma holds_raise {e : Bool → TemplateError} (h : P.Alike (e false) (e true)) :
    P.Holds env fun i => (Render.raise (e i) : Render α) :=
  fun _ _ hr => .failed h hr

lemma holds_bind {m : Bool → Render α} {f : Bool → α → Render β} (hm : P.Holds env m)
    (hf : ∀ x, P.Holds env fun i => f i x) : P.Holds env fun i => m i >>= f i := by
  intro s t h
  simp only [Render.bind_apply]
  generalize m false (env false) s = r, m true (env true) t = r', hm h = ha
  cases ha with
  | ok x h => exact hf x h
  | failed he h => exact .failed he h
  | exhausted h => exact .exhausted h

lemma holds_get {f : Bool → RenderState → Render α} (he : ∀ i {s t}, s.view = t.view → f i s = f i t)
    (hf : ∀ s, P.Holds env fun i => f i s) : P.Holds env fun i => get >>= f i := by
  intro s t h
  show P.Agree (f false s (env false) s) (f true t (env true) t)
  -- What follows reads only what templates see, so it may as well start from the left state.
  rw [← he true (P.view h)]
  exact hf s h

lemma holds_modifyGet {f : RenderState → α × RenderState} (hf : RenderState.Plain f) :
    P.Holds env fun _ => modifyGet f := by
  intro s t h
  show P.Agree (.ok (f s).1 (f s).2) (.ok (f t).1 (f t).2)
  rw [hf.answer (P.view h)]
  exact .ok _ (P.plain hf h)

lemma holds_andThen {m : Bool → Render α} {leave : RenderState → RenderState}
    (hl : RenderState.Plain fun s => ((), leave s)) (hm : P.Holds env m) :
    P.Holds env fun i => (m i).andThen leave := by
  intro s t h
  simp only [Render.andThen]
  generalize m false (env false) s = r, m true (env true) t = r', hm h = ha
  cases ha with
  | ok x h => exact .ok x (P.plain hl h)
  | failed he h => exact .failed he (P.plain hl h)
  | exhausted h => exact .exhausted (P.plain hl h)

lemma holds_onError {m : Bool → Render α} {f : Bool → TemplateError → TemplateError}
    (hf : ∀ {e e'}, P.Alike e e' → P.Alike (f false e) (f true e')) (hm : P.Holds env m) :
    P.Holds env fun i => (m i).onError (f i) := by
  intro s t h
  simp only [Render.onError]
  generalize m false (env false) s = r, m true (env true) t = r', hm h = ha
  cases ha with
  | ok x h => exact .ok x h
  | failed he h => exact .failed (hf he) h
  | exhausted h => exact .exhausted h

/-! ### Steps of a render -/

lemma holds_emit (t : String) : P.Holds env fun _ => Render.emit t := by
  refine holds_bind (holds_modifyGet (RenderState.plain_write t)) fun fault => ?_
  cases fault with
  | none => exact holds_pure ()
  | some f => exact holds_raise (P.same _)

lemma holds_captured {m : Bool → Render α} (hm : P.Holds env m) : P.Holds env fun i => (m i).captured := by
  refine holds_get ?_ fun s => ?_
  · intro i s t hv
    rw [RenderState.sink_congr hv]
  · refine holds_bind (holds_modifyGet (RenderState.plain_sink _)) fun _ => ?_
    refine holds_andThen (RenderState.plain_sink _) (holds_bind hm fun x => ?_)
    refine holds_get ?_ fun s => holds_pure _
    intro i s t hv
    rw [RenderState.sink_congr hv]

lemma holds_inFrame {m : Bool → Render α} (hm : P.Holds env m) : P.Holds env fun i => (m i).inFrame := by
  refine holds_bind (holds_modifyGet (RenderState.plain_frames (∅ :: ·))) fun _ => ?_
  exact holds_andThen (RenderState.plain_frames List.tail) hm

end Pairing

end Stencil
