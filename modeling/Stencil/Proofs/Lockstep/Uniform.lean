import Stencil.Proofs.Lockstep

/-!
# Renders from the same state

A lockstep of renders that find the same around them and start from the same state: what it asks of them is
asked of their outcomes alone. Main statement: `Uniform.lockstep`.
-/

namespace Stencil

namespace Outcome

variable {α β : Type}

/-- Whether the code was nested too deep. -/
def Exhausted : Outcome α → Prop
  | .error .exhausted _ => True
  | _ => False

def next (r : Outcome α) (f : α → RenderState → Outcome β) : Outcome β :=
  match r with
  | .ok x s => f x s
  | .error h s => .error h s

def leaving (r : Outcome α) (leave : RenderState → RenderState) : Outcome α :=
  match r with
  | .ok x s => .ok x (leave s)
  | .error h s => .error h (leave s)

def telling (r : Outcome α) (f : TemplateError → TemplateError) : Outcome α :=
  match r with
  | .error (.failed e) s => .error (.failed (f e)) s
  | r => r

/-- The state that a step leaves, whether it succeeds or not. -/
def state : Outcome α → RenderState
  | .ok _ s => s
  | .error _ s => s

lemma state_leaving (r : Outcome α) (leave : RenderState → RenderState) :
    (r.leaving leave).state = leave r.state := by
  cases r <;> rfl

lemma state_telling (r : Outcome α) (f : TemplateError → TemplateError) :
    (r.telling f).state = r.state := by
  cases r with
  | ok x s => rfl
  | error halt s => cases halt <;> rfl

lemma Exhausted.next {r : Outcome α} (h : r.Exhausted) (f : α → RenderState → Outcome β) :
    (r.next f).Exhausted := by
  cases r with
  | ok x s => cases h
  | error halt s => cases halt <;> exact h

lemma exhausted_leaving (r : Outcome α) (leave : RenderState → RenderState) :
    (r.leaving leave).Exhausted ↔ r.Exhausted := by
  cases r with
  | ok x s => exact Iff.rfl
  | error halt s => cases halt <;> exact Iff.rfl

lemma exhausted_telling (r : Outcome α) (f : TemplateError → TemplateError) :
    (r.telling f).Exhausted ↔ r.Exhausted := by
  cases r with
  | ok x s => exact Iff.rfl
  | error halt s => cases halt <;> exact Iff.rfl

lemma captured_eq (m : Render α) (env : RenderEnv) (s : RenderState) :
    m.captured env s =
      (Outcome.next (m env { s with sink := .empty }) fun x t => .ok (x, t.sink.written) t).leaving
        fun t => { t with sink := s.sink } := by
  rw [Render.captured_apply]
  cases m env { s with sink := .empty } <;> rfl

end Outcome

/-- What is asked of the outcomes of renders that start from the same state. -/
structure Uniform (ι : Type) where
  Good : {α : Type} → (ι → Outcome α) → Prop
  good_ok : ∀ {α} (x : α) s, Good fun _ => .ok x s
  good_failed : ∀ {α} e s, Good fun _ => (.error (.failed e) s : Outcome α)
  good_next : ∀ {α β} {r : ι → Outcome α} {f : ι → α → RenderState → Outcome β}, Good r →
    (∀ x s, Good fun i => f i x s) → Good fun i => (r i).next (f i)
  good_leaving : ∀ {α} {r : ι → Outcome α} leave, Good r → Good fun i => (r i).leaving leave
  good_telling : ∀ {α} {r : ι → Outcome α} f, Good r → Good fun i => (r i).telling f

namespace Uniform

variable {ι : Type} (U : Uniform ι)

/-- The lockstep of renders that find the same around them and start from the same state. -/
def lockstep : Lockstep ι where
  toSurroundings := .same _
  Holds env m := ∀ s, U.Good fun i => m i (env i) s
  holds_pure x s := U.good_ok x s
  holds_bind hm hf s := by
    simp only [Render.bind_apply]
    exact U.good_next (hm s) fun x s' => hf x s'
  holds_raise e s := U.good_failed e s
  holds_unless := by
    rintro α env _ m e ⟨strict, rfl⟩ hm
    cases strict with
    | true => exact fun s => U.good_failed e s
    | false => exact hm
  holds_read hf := hf
  holds_get _ hf s := hf s s
  holds_change _ s := U.good_ok _ _
  holds_put name v s := U.good_ok _ _
  holds_emit t s := by
    simp only [Render.emit_apply]
    rcases s.sink.write t with ⟨_ | f, sink⟩
    · exact U.good_ok _ _
    · exact U.good_failed _ _
  holds_captured hm s := by
    simp only [Outcome.captured_eq]
    exact U.good_leaving _ (U.good_next (hm _) fun x t => U.good_ok _ t)
  holds_inFrame hm s := U.good_leaving _ (hm _)
  holds_restoreLoop _ _ _ hm s := U.good_leaving _ (hm s)
  holds_onError _ hm s := U.good_telling _ (hm s)
  holds_withReader hm := hm
  holds_chosen := by
    rintro _ ⟨e, rfl⟩ p q s
    obtain ⟨x, s', h, -⟩ := Render.chosen_ok p q e s
    simp only [h]
    exact U.good_ok x s'
  holds_template := by
    rintro α _ f ⟨e, rfl⟩ he hf name s
    obtain ⟨answer, s', h⟩ : ∃ answer s', Render.template name e s = .ok answer s' := ⟨_, _, rfl⟩
    simp only [Render.bind_apply, h]
    cases answer with
    | error failure => exact he failure s'
    | ok t => exact hf t _ trivial ⟨t.unit, rfl⟩ s'
  holds_resource := by
    rintro _ ⟨e, rfl⟩ name s
    exact U.good_ok _ _
  holds_nextUnit hf s := hf _ ⟨_, rfl⟩ (fun _ => ⟨_, rfl⟩) _

end Uniform

end Stencil
