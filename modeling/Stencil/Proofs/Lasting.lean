import Stencil.Proofs.Sparing

/-!
# What lasts through a render

A relation between states that every binding of a variable keeps, and every frame that is opened and closed again,
lasts through whatever a render does. So code changes none of the frames below its own and no layer of the context below
the first, and puts no null there. Main statements: `Lasting.stays_ofDepth` and `Interpreter.stays_passes`.
-/

namespace Stencil

/-! ### Relations that last -/

/-- A relation between the states before and after some code that binding variables keeps, and a frame of its own. -/
structure Lasting (R : RenderState → RenderState → Prop) : Prop extends Conserved R where
  put : ∀ s name v, R s (s.put name v)
  restore : ∀ s name binding, R s (s.restore name binding)
  framed : ∀ {s t}, R { s with frames := ∅ :: s.frames } t → R s { t with frames := t.frames.tail }

namespace Lasting

variable {R : RenderState → RenderState → Prop} (h : Lasting R)

/-- The single render whose states before and after are related. -/
def lockstep : Lockstep Unit where
  toSurroundings := .same _
  Holds env m := ∀ s, R s (Outcome.state (m () (env ()) s))
  holds_pure x s := h.refl s
  holds_bind := h.tempo.holds_bind
  holds_raise e s := h.refl s
  holds_unless := by
    intro α env b m e _ hm s
    dsimp only
    split
    · exact h.refl s
    · exact hm s
  holds_read hf := hf
  holds_get _ hf s := hf s s
  holds_change _ s := h.of_eq rfl rfl
  holds_put name v s := h.put s name v
  holds_emit := h.tempo.holds_emit
  holds_captured := h.tempo.holds_captured
  holds_inFrame hm s := by
    show R s (Outcome.state (Outcome.leaving _ fun t => { t with frames := t.frames.tail }))
    rw [Outcome.state_leaving]
    exact h.framed (hm _)
  holds_restoreLoop var item status hm s := by
    show R s (Outcome.state (Outcome.leaving _ fun t => t.restoreLoop var item status))
    rw [Outcome.state_leaving]
    exact h.trans (hm s) (h.trans (h.restore _ var item) (h.restore _ "foreach" status))
  holds_onError := by
    intro α env m f _ hm s
    show R s (Outcome.state (Outcome.telling _ f))
    rw [Outcome.state_telling]
    exact hm s
  holds_withReader hm := hm
  holds_chosen _ p q := h.tempo.holds_chosen trivial (p := fun _ => p) trivial q
  holds_template := by
    rintro α _ f ⟨e, rfl⟩ he hf name s
    obtain ⟨answer, t, hr, looked⟩ : ∃ answer t, Render.template name e s = .ok answer t ∧ R s t :=
      ⟨_, _, rfl, h.of_eq rfl rfl⟩
    simp only [Render.bind_apply, hr]
    cases answer with
    | error failure => exact h.trans looked (he failure t)
    | ok found => exact h.trans looked (hf found _ trivial ⟨found.unit, rfl⟩ t)
  holds_resource _ name s := h.of_eq rfl rfl
  holds_nextUnit hf s := by
    have counted : R s { s with evaluated := s.evaluated + 1 } := h.of_eq rfl rfl
    exact h.trans counted (hf (fun _ => .evaluated s.evaluated) ⟨_, rfl⟩ (fun _ => ⟨_, rfl⟩) _)

include h in
/-- Whatever lasts through every step of a render, lasts through all code, however deep it is nested. -/
theorem stays_ofDepth (depth : Nat) : (Interpreter.ofDepth depth).Stays R := by
  have code (env : RenderEnv) : (∀ e, h.lockstep.Evaluates (fun _ => .ofDepth depth) (fun _ => env) e) ∧
      ∀ b, h.lockstep.Renders (fun _ => .ofDepth depth) (fun _ => env) b :=
    h.lockstep.holds_ofDepth (fun s => h.refl s) depth ⟨env, rfl⟩
  exact ⟨fun lenient e env => (code env).1 e lenient, fun b env => (code env).2 b⟩

/-- States that need not have anything to do with each other. -/
lemma any : Lasting fun _ _ => True := by
  refine ⟨⟨?_, ?_⟩, ?_, ?_, ?_⟩ <;> intros <;> trivial

end Lasting

lemma Interpreter.Stays.any (code : Interpreter) : code.Stays fun _ _ => True :=
  ⟨fun _ _ _ _ => trivial, fun _ _ _ => trivial⟩

/-! ### The caller's context -/

namespace Context

variable {c : Context}

/-- Whether a context has no null in its own layer. So it is with every context that there can be: putting a null
removes, and nothing else adds to a layer. -/
def Solid (c : Context) : Prop := ∀ name v, c.local? name = some v → v.isNull = false

lemma local?_put (c : Context) (name : String) (v : Value) (other : String) :
    (c.put name v).local? other =
      if other = name then if v.isNull then none else some v else c.local? other := by
  unfold put local?
  cases v.isNull with
  | true => exact Dict.get?_erase ..
  | false => exact Dict.get?_insert ..

lemma local?_remove (c : Context) (name other : String) :
    (c.remove name).local? other = if other = name then none else c.local? other := Dict.get?_erase ..

lemma solid_empty : empty.Solid := nofun

lemma solid_wrap (c : Context) : c.wrap.Solid := nofun

lemma Solid.put (h : c.Solid) (name : String) (v : Value) : (c.put name v).Solid := by
  intro other w hw
  rw [local?_put] at hw
  split at hw
  · split at hw
    · cases hw
    · next held =>
      cases hw
      exact eq_false_of_ne_true held
  · exact h other w hw

lemma Solid.remove (h : c.Solid) (name : String) : (c.remove name).Solid := by
  intro other w hw
  rw [local?_remove] at hw
  split at hw
  · cases hw
  · exact h other w hw

/-- What is found in the layers that a context wraps. -/
def beneath? (c : Context) (name : String) : Option Value := c.wrapped.findSome? (·.get? name)

lemma beneath?_congr {d : Context} (h : d.wrapped = c.wrapped) (name : String) : d.beneath? name = c.beneath? name := by
  unfold beneath?
  rw [h]

lemma get?_eq (c : Context) (name : String) : c.get? name = (c.local? name).or (c.beneath? name) := by
  unfold get? layers local? beneath?
  rw [List.findSome?_cons]
  cases c.values.get? name <;> rfl

end Context

namespace RenderState

/-- Whether two states have the same frames but for the innermost one and the same layers of the context but for the
first one, and the whole context is the same where there is a frame; what had no null there has none. -/
structure Passes (s t : RenderState) : Prop extends s.Keeps t where
  wrapped : t.context.wrapped = s.context.wrapped
  solid : s.context.Solid → t.context.Solid

variable {s t : RenderState}

lemma passes_put (s : RenderState) (name : String) (v : Value) : s.Passes (s.put name v) where
  toKeeps := s.keeps_put name v
  wrapped := by
    unfold put
    split
    · rfl
    · exact s.context.wrapped_put name v
  solid := by
    unfold put
    split
    · exact id
    · exact fun h => h.put name v

lemma passes_restore (s : RenderState) (name : String) (binding : Option Value) :
    s.Passes (s.restore name binding) where
  toKeeps := s.keeps_restore name binding
  wrapped := by
    unfold restore
    split
    · exact (s.passes_put name _).wrapped
    · rfl
    · rfl
  solid := by
    unfold restore
    split
    · exact (s.passes_put name _).solid
    · exact id
    · exact fun h => h.remove name

lemma lasting_passes : Lasting Passes where
  of_eq hf hc := ⟨.of_eq hf hc, by rw [hc], by rw [hc]; exact id⟩
  trans h h' := ⟨h.toKeeps.trans h'.toKeeps, h'.wrapped.trans h.wrapped, h'.solid ∘ h.solid⟩
  put := passes_put
  restore := passes_restore
  framed h := ⟨h.toKeeps.framed, h.wrapped, h.solid⟩

end RenderState

/-- All code leaves the frames below its own, and the layers of the context below the first. -/
theorem Interpreter.stays_passes (depth : Nat) : (ofDepth depth).Stays RenderState.Passes :=
  RenderState.lasting_passes.stays_ofDepth depth

end Stencil
