import Stencil.Proofs.Lockstep

/-!
# Changes that only templates see

Some changes of the state of a render read and write nothing but what templates can see: they leave what is
remembered besides as it is, and do the same to states that look the same. Main statements: binding a variable
and leaving a loop are such changes.
-/

namespace Stencil

/-- What the state of a render keeps besides: what was compiled, chosen and counted. -/
structure Memos where
  cache : TemplateCache
  memory : ChoiceMemory
  choices : List (ChoiceSite × MemberChoice)
  evaluated : Nat
  readings : Nat

namespace RenderState

/-- The part of a state that templates cannot see. -/
def memos (s : RenderState) : Memos := ⟨s.cache, s.memory, s.choices, s.evaluated, s.readings⟩

/-- A change that reads and writes nothing but what templates can see. -/
structure Plain {α : Type} (f : RenderState → α × RenderState) : Prop where
  answer : ∀ {s t}, s.view = t.view → (f s).1 = (f t).1
  view : ∀ {s t}, s.view = t.view → (f s).2.view = (f t).2.view
  memos : ∀ s, (f s).2.memos = s.memos

lemma plain_put (name : String) (v : Value) : Plain fun s => ((), s.put name v) where
  answer _ := rfl
  view := by
    intro s t h
    cases s
    cases t
    simp only [RenderState.view, View.mk.injEq] at h
    obtain ⟨rfl, rfl, rfl, rfl⟩ := h
    unfold put
    dsimp only
    split <;> rfl
  memos s := by
    unfold put
    dsimp only
    split <;> rfl

lemma plain_restore (name : String) (binding : Option Value) :
    Plain fun s => ((), s.restore name binding) where
  answer _ := rfl
  view := by
    intro s t h
    cases binding with
    | some v => exact (plain_put name v).view h
    | none =>
      cases s
      cases t
      simp only [RenderState.view, View.mk.injEq] at h
      obtain ⟨rfl, rfl, rfl, rfl⟩ := h
      unfold restore
      dsimp only
      split <;> first | rfl | contradiction
  memos s := by
    cases binding with
    | some v => exact (plain_put name v).memos s
    | none =>
      unfold restore
      dsimp only
      split <;> first | rfl | contradiction

/-- One plain change after another is a plain change. -/
lemma Plain.comp {f g : RenderState → RenderState} (hf : Plain fun s => ((), f s))
    (hg : Plain fun s => ((), g s)) : Plain fun s => ((), g (f s)) where
  answer _ := rfl
  view h := hg.view (hf.view h)
  memos s := (hg.memos (f s)).trans (hf.memos s)

lemma plain_restoreLoop (var : String) (item status : Option Value) :
    Plain fun s => ((), s.restoreLoop var item status) :=
  (plain_restore var item).comp (plain_restore "foreach" status)

lemma plain_change {α : Type} (f : Store → α × Store) :
    Plain fun s => ((f s.store).1, { s with store := (f s.store).2 }) where
  answer h := by rw [store_congr h]
  view := by
    intro s t h
    unfold view
    dsimp only
    rw [store_congr h, context_congr h, frames_congr h, sink_congr h]
  memos _ := rfl

lemma plain_write (t : String) :
    Plain fun s => ((s.sink.write t).1, { s with sink := (s.sink.write t).2 }) where
  answer h := by rw [sink_congr h]
  view := by
    intro s t h
    unfold view
    dsimp only
    rw [store_congr h, context_congr h, frames_congr h, sink_congr h]
  memos _ := rfl

/-- Another sink in place of the present one is a plain change. -/
lemma plain_sink (sink : Sink) : Plain fun s => ((), { s with sink := sink }) where
  answer _ := rfl
  view h := congrArg (fun v : View => { v with sink := sink }) h
  memos _ := rfl

/-- Other frames made from the present ones are a plain change. -/
lemma plain_frames (f : List (Dict Value) → List (Dict Value)) :
    Plain fun s => ((), { s with frames := f s.frames }) where
  answer _ := rfl
  view h := congrArg (fun v : View => { v with frames := f v.frames }) h
  memos _ := rfl

end RenderState

end Stencil
