import Stencil.Proofs.Strictness

/-!
# Sinks that fill up

A render before a sink with a limit goes as the same render before a text does, until the sink is full. Then it fails
with a fault of the sink, which holds the first bytes of the text. Main statement: `Engine.truncates_serve`; what carries
it is `Truncation.lockstep`.
-/

namespace Stencil

/-- The same state before a sink that takes `limit` bytes. -/
def RenderState.limited (s : RenderState) (limit : Nat) : RenderState :=
  { s with sink := .bounded limit s.sink.bytes }

/-- Whether a sink is a text. -/
def Sink.IsText (s : Sink) : Prop := ∃ written, s = .text written

lemma Sink.Before.isText {s t : Sink} (h : s.Before t) (hs : s.IsText) : t.IsText := by
  obtain ⟨w, rfl⟩ := hs
  cases h with
  | text _ more => exact ⟨_, rfl⟩

/-- The first bytes of what is no longer than that are all its bytes. -/
lemma extract_of_size_le {a : ByteArray} {limit : Nat} (h : a.size ≤ limit) : a.extract 0 limit = a := by
  rw [← Nat.max_eq_left h, ByteArray.extract_zero_max_size]

/-- What is appended does not change the first bytes. -/
lemma extract_append_of_le {a : ByteArray} {limit : Nat} (h : limit ≤ a.size) (b : ByteArray) :
    (a ++ b).extract 0 limit = a.extract 0 limit := by
  rw [ByteArray.extract_append, Nat.zero_sub, Nat.sub_eq_zero_of_le h, ByteArray.extract_same, ByteArray.append_empty]

/-- A sink with a limit takes a further text whole where there is room, and else the bytes there is room for. -/
lemma Sink.write_bounded {limit : Nat} {w : String} (h : w.toUTF8.size ≤ limit) (t : String) :
    ((w ++ t).toUTF8.size ≤ limit ∧ (bounded limit w.toUTF8).write t = (none, bounded limit (w ++ t).toUTF8)) ∨
      (limit < (w ++ t).toUTF8.size ∧
        ∃ f, (bounded limit w.toUTF8).write t = (some f, bounded limit ((w ++ t).toUTF8.extract 0 limit))) := by
  have appended : (w ++ t).toUTF8 = w.toUTF8 ++ t.toUTF8 := by simp
  have size : (w ++ t).toUTF8.size = w.toUTF8.size + t.utf8ByteSize := by simp
  unfold write
  dsimp only
  split
  · exact .inl ⟨by omega, by rw [appended]⟩
  · refine .inr ⟨by omega, .writing "sink full", ?_⟩
    rw [appended, ByteArray.extract_append, Nat.zero_sub, extract_of_size_le h]

namespace Truncation

variable {limit : Nat} {α β : Type}

/-- How a step ends before a sink with a limit, given how it ends before a text: alike if the text fits, and else with a
fault of the sink, which holds the first bytes. -/
inductive Truncates (limit : Nat) (full : Outcome α) : Outcome α → Prop
  | fits : full.state.sink.bytes.size ≤ limit → Truncates limit full (full.leaving (·.limited limit))
  | fills {e : TemplateError} {s : RenderState} : limit < full.state.sink.bytes.size → e.kind = .io →
    s.sink = .bounded limit (full.state.sink.bytes.extract 0 limit) → Truncates limit full (.error (.failed e) s)

/-- Outcomes of a step that started before a text, and before a sink with a limit that held the same. -/
structure Cut (limit : Nat) (sink : Sink) (full cut : Outcome α) : Prop where
  written : sink.Before full.state.sink
  truncates : sink.bytes.size ≤ limit → Truncates limit full cut

/-- What holds of the renders of a step before a text and before a sink with a limit. -/
def Holds (limit : Nat) (env : Unit → RenderEnv) (m : Unit → Render α) : Prop :=
  ∀ s, s.sink.IsText → Cut limit s.sink (m () (env ()) s) (m () (env ()) (s.limited limit))

/-- A step that writes nothing and does not look at the sink. -/
lemma Cut.silent {sink : Sink} {full cut : Outcome α} (hs : full.state.sink = sink)
    (hc : cut = full.leaving (·.limited limit)) : Cut limit sink full cut := by
  subst hs hc
  exact ⟨.refl _, .fits⟩

/-- What follows a step before both sinks. -/
lemma Cut.next {sink : Sink} {full cut : Outcome α} (h : Cut limit sink full cut) (hs : sink.IsText)
    {f : α → RenderState → Outcome β}
    (hf : ∀ x t, t.sink.IsText → Cut limit t.sink (f x t) (f x (t.limited limit))) :
    Cut limit sink (full.next f) (cut.next f) := by
  have text := h.written.isText hs
  -- Whatever follows only adds to the text.
  have more : full.state.sink.Before (full.next f).state.sink := by
    cases full with
    | ok x t => exact (hf x t text).written
    | error h t => exact .refl _
  refine ⟨h.written.trans more, fun le => ?_⟩
  cases h.truncates le with
  | fits fit =>
    cases full with
    | ok x t => exact (hf x t text).truncates fit
    | error h t => exact .fits fit
  | fills full' io bytes =>
    obtain ⟨rest, extended⟩ := more.bytes
    have longer : full.state.sink.bytes.size ≤ (full.next f).state.sink.bytes.size := by
      rw [extended, ByteArray.size_append]
      exact Nat.le_add_right _ _
    refine .fills (Nat.lt_of_lt_of_le full' longer) io ?_
    rw [bytes, extended, extract_append_of_le (Nat.le_of_lt full')]

/-- A change of the state that leaves the sink alone. -/
lemma Cut.leaving {sink : Sink} {full cut : Outcome α} (h : Cut limit sink full cut)
    {leave : RenderState → RenderState} (hl : ∀ t : RenderState, leave (t.limited limit) = (leave t).limited limit)
    (hs : ∀ t, (leave t).sink = t.sink) :
    Cut limit sink (full.leaving leave) (cut.leaving leave) := by
  have same : (full.leaving leave).state.sink = full.state.sink := by rw [Outcome.state_leaving, hs]
  refine ⟨same ▸ h.written, fun le => ?_⟩
  cases h.truncates le with
  | fits fit =>
    have commutes : (full.leaving (·.limited limit)).leaving leave =
        (full.leaving leave).leaving (·.limited limit) := by
      cases full with
      | ok x t => exact congrArg (EStateM.Result.ok x) (hl t)
      | error halt t => exact congrArg (EStateM.Result.error halt) (hl t)
    rw [commutes]
    exact .fits (same ▸ fit)
  | fills full' io bytes => exact .fills (same ▸ full') io (by rw [same, hs, bytes])

lemma Cut.telling {sink : Sink} {full cut : Outcome α} (h : Cut limit sink full cut)
    {f : TemplateError → TemplateError} (hf : ∀ e, (f e).kind = e.kind) : Cut limit sink (full.telling f) (cut.telling f) := by
  have same := full.state_telling f
  refine ⟨same ▸ h.written, fun le => ?_⟩
  cases h.truncates le with
  | fits fit =>
    have commutes : (full.leaving (·.limited limit)).telling f = (full.telling f).leaving (·.limited limit) := by
      cases full with
      | ok x t => rfl
      | error halt t => cases halt <;> rfl
    rw [commutes]
    exact .fits (same ▸ fit)
  | fills full' io bytes => exact .fills (same ▸ full') ((hf _).trans io) (same ▸ bytes)

/-! ### Steps of a render -/

lemma cut_emit (t : String) (env : RenderEnv) {s : RenderState} (hs : s.sink.IsText) :
    Cut limit s.sink (Render.emit t env s) (Render.emit t env (s.limited limit)) := by
  obtain ⟨store, context, frames, sink, cache, memory, choices, evaluated, readings⟩ := s
  obtain ⟨w, rfl⟩ : ∃ w, sink = .text w := hs
  rw [Render.emit_apply, Render.emit_apply]
  refine ⟨.text w t, fun (le : w.toUTF8.size ≤ limit) => ?_⟩
  unfold RenderState.limited
  rcases Sink.write_bounded le t with ⟨fit, write⟩ | ⟨full, f, write⟩
  · dsimp only [Sink.bytes]
    rw [write]
    exact .fits fit
  · dsimp only [Sink.bytes]
    rw [write]
    exact .fills full rfl rfl

lemma put_limited (s : RenderState) (name : String) (v : Value) :
    (s.limited limit).put name v = (s.put name v).limited limit := by
  obtain ⟨store, context, frames, sink, cache, memory, choices, evaluated, readings⟩ := s
  cases frames <;> rfl

lemma restore_limited (s : RenderState) (name : String) (binding : Option Value) :
    (s.limited limit).restore name binding = (s.restore name binding).limited limit := by
  cases binding with
  | some v => exact put_limited s name v
  | none =>
    obtain ⟨store, context, frames, sink, cache, memory, choices, evaluated, readings⟩ := s
    cases frames <;> rfl

lemma restoreLoop_limited (s : RenderState) (var : String) (item status : Option Value) :
    (s.limited limit).restoreLoop var item status = (s.restoreLoop var item status).limited limit := by
  rw [RenderState.restoreLoop, RenderState.restoreLoop, restore_limited, restore_limited]

/-- Choosing a member does not look at the sink. -/
lemma chosen_limited (p : Position) (q : MemberRequest) (env : RenderEnv) (s : RenderState) :
    Render.chosen p q env (s.limited limit) = Outcome.leaving (Render.chosen p q env s) (·.limited limit) := by
  rw [Render.chosen_eq, Render.chosen_eq]
  unfold RenderState.limited
  dsimp only
  cases s.choices.lookup ⟨env.unit, p.span.start, q⟩ with
  | some choice => rfl
  | none => cases (s.memory.resolve env.types q).1 <;> rfl

/-- Renders before a text and before a sink with a limit go in lockstep. -/
def lockstep (limit : Nat) : Lockstep Unit where
  toSurroundings := .same Unit
  Holds := Holds limit
  holds_pure x s _ := .silent rfl rfl
  holds_bind hm hf s hs := by
    simp only [Render.bind_apply]
    exact (hm s hs).next hs fun x t ht => hf x t ht
  holds_raise e s _ := .silent rfl rfl
  holds_unless := by
    rintro α env _ m e ⟨strict, rfl⟩ hm
    cases strict with
    | true => exact fun s _ => .silent rfl rfl
    | false => exact hm
  holds_read hf := hf
  holds_get := by
    intro α env f he hf s hs
    have same : f () (s.limited limit) = f () s := he () rfl
    show Cut limit s.sink (f () s (env ()) s) (f () (s.limited limit) (env ()) (s.limited limit))
    rw [same]
    exact hf s s hs
  holds_change _ s _ := .silent rfl rfl
  holds_put name v s _ := .silent (s.put_sink name v) (congrArg (EStateM.Result.ok PUnit.unit) (put_limited s name v))
  holds_emit t s hs := cut_emit t _ hs
  holds_captured hm s _ := by
    -- The text of its own is the same before both sinks.
    simp only [Outcome.captured_eq]
    refine .silent (by rw [Outcome.state_leaving]) ?_
    have own : { s.limited limit with sink := .empty } = { s with sink := .empty } := rfl
    rw [own]
    generalize Outcome.next _ _ = r
    cases r <;> rfl
  holds_inFrame hm s hs := (hm { s with frames := ∅ :: s.frames } hs).leaving (fun _ => rfl) fun _ => rfl
  holds_restoreLoop var item status hm s hs :=
    (hm s hs).leaving (fun t => restoreLoop_limited t var item status) fun t => by
      rw [RenderState.restoreLoop, RenderState.restore_sink, RenderState.restore_sink]
  holds_onError hf hm s hs := (hm s hs).telling hf
  holds_withReader hm := hm
  holds_chosen := by
    rintro _ ⟨e, rfl⟩ p q s hs
    obtain ⟨x, t, h, hv⟩ := Render.chosen_ok p q e s
    have sink : (Outcome.state (Render.chosen p q e s)).sink = s.sink := by
      rw [h]
      exact RenderState.sink_congr hv
    exact .silent sink (chosen_limited p q e s)
  holds_template := by
    rintro α _ f ⟨e, rfl⟩ he hf name s hs
    obtain ⟨answer, t, h, h', same⟩ : ∃ answer t, Render.template name e s = .ok answer t ∧
        Render.template name e (s.limited limit) = .ok answer (t.limited limit) ∧ t.sink = s.sink :=
      ⟨_, _, rfl, rfl, rfl⟩
    simp only [Render.bind_apply, h, h']
    rw [← same] at hs ⊢
    cases answer with
    | error failure => exact he failure t hs
    | ok found => exact hf found _ trivial ⟨found.unit, rfl⟩ t hs
  holds_resource := by
    rintro _ ⟨e, rfl⟩ name s hs
    exact .silent rfl rfl
  holds_nextUnit hf s hs := hf (fun _ => .evaluated s.evaluated) ⟨_, rfl⟩ (fun _ => ⟨_, rfl⟩)
    { s with evaluated := s.evaluated + 1 } hs

/-- A template renders before a sink with a limit as before a text, until the sink is full. -/
theorem cut_outermost (limit depth : Nat) (t : Template) (env : RenderEnv) {s : RenderState} (hs : s.sink.IsText) :
    Cut limit s.sink (Render.outermostWithin depth t env s) (Render.outermostWithin depth t env (s.limited limit)) := by
  have root : (lockstep limit).Renders (fun _ => .ofDepth depth) (fun _ => env.opening (t.inUnit t.unit)) t.root :=
    ((lockstep limit).holds_ofDepth (fun _ _ => .silent rfl rfl) depth ⟨env.opening t, rfl⟩).2 t.root
  exact (lockstep limit).holds_outermost root s hs

end Truncation

/-! ### Engines -/

/-- What a rendering into a sink with a limit has in common with the same rendering into a text. -/
structure Rendering.Truncates (limit : Nat) (full cut : Rendering) : Prop where
  /-- The sink holds the first bytes of the text. -/
  bytes : cut.sink.bytes = full.sink.bytes.extract 0 limit
  /-- Where the text fits, all else is the same. -/
  fits : full.sink.bytes.size ≤ limit →
    cut.halt = full.halt ∧ cut.context = full.context ∧ cut.store = full.store ∧ cut.engine = full.engine
  /-- Where it does not, the rendering ends with a fault of the sink. -/
  fills : limit < full.sink.bytes.size → ∃ e, cut.halt = some (.failed e) ∧ e.kind = .io

namespace Engine

variable (limit : Nat)

lemma truncates_renderWithin (e : Engine) (depth : Nat) (h : Host) (t : Template) (σ : Store) (c : Context) :
    (e.renderWithin depth h t σ c .empty).Truncates limit
      (e.renderWithin depth h t σ c (.bounded limit .empty)) := by
  have start : e.start σ c (.bounded limit .empty) = (e.start σ c .empty).limited limit := rfl
  have cut := (Truncation.cut_outermost limit depth t (e.env h) (s := e.start σ c .empty) ⟨"", rfl⟩).truncates
    (Nat.zero_le limit)
  rw [renderWithin, renderWithin, start]
  generalize Render.outermostWithin depth t (e.env h) (e.start σ c .empty) = r,
    Render.outermostWithin depth t (e.env h) ((e.start σ c .empty).limited limit) = r' at cut
  cases cut with
  | fits fit =>
    have whole := (extract_of_size_le fit).symm
    have room (full : limit < (Outcome.state r).sink.bytes.size) : False := Nat.not_le_of_lt full fit
    cases r with
    | ok x s => exact ⟨whole, fun _ => ⟨rfl, rfl, rfl, rfl⟩, fun full => (room full).elim⟩
    | error halt s => exact ⟨whole, fun _ => ⟨rfl, rfl, rfl, rfl⟩, fun full => (room full).elim⟩
  | @fills f s full io sink =>
    have bytes := congrArg Sink.bytes sink
    cases r with
    | ok x t => exact ⟨bytes, fun fit => absurd fit (Nat.not_le_of_lt full), fun _ => ⟨f, rfl, io⟩⟩
    | error halt t => exact ⟨bytes, fun fit => absurd fit (Nat.not_le_of_lt full), fun _ => ⟨f, rfl, io⟩⟩

/-- A sink with a limit gets the first bytes of the text that a render writes without one. If the text fits, the render
ends as it does without a limit and leaves the same; else it fails with a fault of the sink. -/
theorem truncates_serve (e : Engine) (h : Host) (σ : Store) (c : Context) (request : Request) :
    (e.serve h σ c .empty request).Truncates limit (e.serve h σ c (.bounded limit .empty) request) := by
  have refused (e : Engine) (f : TemplateError) :
      (e.refused f σ c .empty).Truncates limit (e.refused f σ c (.bounded limit .empty)) := by
    exact ⟨(extract_of_size_le (Nat.zero_le limit)).symm, fun _ => ⟨rfl, rfl, rfl, rfl⟩,
      fun full => absurd full (Nat.not_lt_zero limit)⟩
  cases request with
  | named name =>
    simp only [serve, renderNamed]
    rcases e.template h name with ⟨_ | _, next⟩
    · exact refused next _
    · exact truncates_renderWithin limit next _ h _ σ c
  | text text =>
    simp only [serve, renderText]
    cases e.inline text with
    | ok t => exact truncates_renderWithin limit e _ h t σ c
    | error f => exact refused e f
  | compiled t => exact truncates_renderWithin limit e _ h t σ c

end Engine

end Stencil
