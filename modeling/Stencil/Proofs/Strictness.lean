import Stencil.Engine
import Stencil.Proofs.History
import Stencil.Proofs.Lockstep.Node
import Stencil.Proofs.Lockstep.Uniform

/-!
# What strict references change

An engine with strict references renders as the same engine without, until it fails. Main statement:
`Engine.refuses_serve`; what carries it is `Strictness.lockstep`.
-/

namespace Stencil

/-! ### Settings that differ in one thing -/

def Settings.withStrict (c : Settings) (strict : Bool) : Settings :=
  { c with strictReferences := strict }

def RenderEnv.withStrict (env : RenderEnv) (strict : Bool) : RenderEnv :=
  { env with settings := env.settings.withStrict strict }

/-- The same engine with strict references or without. -/
def Engine.withStrict (e : Engine) (strict : Bool) : Engine :=
  { e with settings := e.settings.withStrict strict }

/-! ### What was written -/

/-- Whether what one sink holds is the beginning of what another one of its kind holds. -/
inductive Sink.Before : Sink → Sink → Prop
  | text (written more : String) : Before (.text written) (.text (written ++ more))
  | refusing : Before .refusing .refusing
  | bounded (limit : Nat) (written more : ByteArray) :
    Before (.bounded limit written) (.bounded limit (written ++ more))

namespace Sink.Before

variable {s t u : Sink}

lemma refl (s : Sink) : s.Before s := by
  cases s with
  | text written => simpa using text written ""
  | refusing => exact refusing
  | bounded limit written => simpa using bounded limit written .empty

lemma trans (h : s.Before t) (h' : t.Before u) : s.Before u := by
  cases h with
  | text written more =>
    cases h' with
    | text _ rest =>
      rw [String.append_assoc]
      exact text written (more ++ rest)
  | refusing => exact h'
  | bounded limit written more =>
    cases h' with
    | bounded _ _ rest =>
      rw [ByteArray.append_assoc]
      exact bounded limit written (more ++ rest)

lemma write (s : Sink) (t : String) : s.Before (s.write t).2 := by
  cases s with
  | text written => exact text written t
  | refusing => exact refusing
  | bounded limit written =>
    unfold Sink.write
    dsimp only
    split
    · exact bounded limit written _
    · exact bounded limit written _

/-- The bytes of the one sink are the first bytes of the other. -/
lemma bytes (h : s.Before t) : ∃ rest, t.bytes = s.bytes ++ rest := by
  cases h with
  | text written more => exact ⟨more.toUTF8, by simp [Sink.bytes]⟩
  | refusing => exact ⟨.empty, rfl⟩
  | bounded limit written more => exact ⟨more, rfl⟩

end Sink.Before

/-! ### Strict and lenient renders in lockstep -/

namespace Strictness

variable {α β : Type}

/-- Outcomes of a strict render and of a lenient one that started with the same sink: either they are the
same, or the strict one failed earlier. -/
structure Refuses (sink : Sink) (strict lenient : Outcome α) : Prop where
  written : sink.Before lenient.state.sink
  agree : strict = lenient ∨
    ∃ e s, strict = .error (.failed e) s ∧ s.sink.Before lenient.state.sink

/-- What holds of a strict render and of the same render without strict references. -/
def Holds (env : Bool → RenderEnv) (m : Bool → Render α) : Prop :=
  ∀ s, Refuses s.sink (m true (env true) s) (m false (env false) s)

variable {env : Bool → RenderEnv}

/-- A step that is the same in both renders and writes nothing that is taken back. -/
lemma Refuses.same {sink : Sink} {r : Outcome α} (h : sink.Before r.state.sink) : Refuses sink r r :=
  ⟨h, .inl rfl⟩

/-- A step that is the same in both renders and writes nothing. -/
lemma Refuses.silent {sink : Sink} {r : Outcome α} (h : r.state.sink = sink) : Refuses sink r r := by
  subst h
  exact .same (.refl _)

/-- What follows a step in both renders. -/
lemma Refuses.next {sink : Sink} {strict lenient : Outcome α} (h : Refuses sink strict lenient)
    {f g : α → RenderState → Outcome β} (hf : ∀ x t, Refuses t.sink (f x t) (g x t)) :
    Refuses sink (strict.next f) (lenient.next g) := by
  -- Whatever follows in the lenient render, it only adds to what was written.
  have more : lenient.state.sink.Before (lenient.next g).state.sink := by
    cases lenient with
    | ok x t => exact (hf x t).written
    | error h t => exact .refl _
  refine ⟨h.written.trans more, ?_⟩
  rcases h.agree with rfl | ⟨e, t, rfl, before⟩
  · cases strict with
    | ok x t => exact (hf x t).agree
    | error h t => exact .inl rfl
  · exact .inr ⟨e, t, rfl, before.trans more⟩

/-- Leaving a step in both renders by the same change of the state. -/
lemma Refuses.leaving {sink sink' : Sink} {strict lenient : Outcome α} (h : Refuses sink strict lenient)
    {leave : RenderState → RenderState} (hw : ∀ s, sink.Before s.sink → sink'.Before (leave s).sink)
    (hl : ∀ s t : RenderState, s.sink.Before t.sink → (leave s).sink.Before (leave t).sink) :
    Refuses sink' (strict.leaving leave) (lenient.leaving leave) := by
  constructor
  · rw [Outcome.state_leaving]
    exact hw _ h.written
  · rcases h.agree with rfl | ⟨e, s, rfl, before⟩
    · exact .inl rfl
    · refine .inr ⟨e, leave s, rfl, ?_⟩
      rw [Outcome.state_leaving]
      exact hl _ _ before

/-- A change of the state that leaves the sink alone. -/
lemma Refuses.leaving_silently {sink : Sink} {strict lenient : Outcome α}
    (h : Refuses sink strict lenient) {leave : RenderState → RenderState}
    (hl : ∀ s, (leave s).sink = s.sink) : Refuses sink (strict.leaving leave) (lenient.leaving leave) := by
  apply h.leaving
  · intro s hs
    rwa [hl]
  · intro s t hs
    rwa [hl, hl]

/-- Telling of an error in both renders in the same way. -/
lemma Refuses.telling {sink : Sink} {strict lenient : Outcome α} (h : Refuses sink strict lenient)
    (f : TemplateError → TemplateError) : Refuses sink (strict.telling f) (lenient.telling f) := by
  constructor
  · rw [Outcome.state_telling]
    exact h.written
  · rcases h.agree with rfl | ⟨e, t, rfl, before⟩
    · exact .inl rfl
    · refine .inr ⟨f e, t, rfl, ?_⟩
      rwa [Outcome.state_telling]

/-- Renders with strict references and without, from the same state. -/
def lockstep : Lockstep Bool where
  Units u := ∃ v, u = fun _ => v
  Met _ := True
  Strict b := b false = true → b true = true
  Around env := ∃ e : RenderEnv, env = fun i => e.withStrict i
  Holds := Holds
  strict_and := by
    intro b hb x
    cases x with
    | true => exact hb
    | false => exact id
  settings := by
    rintro _ ⟨e, rfl⟩
    exact ⟨e.settings, id, fun _ => rfl, fun i => rfl⟩
  types := by
    rintro _ ⟨e, rfl⟩
    exact ⟨e.types, fun _ => rfl⟩
  calls := by
    rintro _ ⟨e, rfl⟩
    exact ⟨e.calls, fun _ => rfl⟩
  names := by
    rintro _ ⟨e, rfl⟩
    exact ⟨e.templates.map Template.name, fun _ => rfl⟩
  macro? := by
    rintro _ ⟨e, rfl⟩ name
    cases hm : e.macro? name with
    | none => exact .inl fun _ => hm
    | some found => exact .inr ⟨fun _ => found.1, found.2, ⟨found.1, rfl⟩, fun _ => hm⟩
  met_compile _ := trivial
  opening := by
    rintro _ _ ⟨e, rfl⟩ ⟨v, rfl⟩ t -
    exact ⟨e.opening (t.inUnit v), rfl⟩
  calling := by
    rintro _ _ ⟨e, rfl⟩ ⟨v, rfl⟩ name
    exact ⟨e.calling name v, rfl⟩
  holds_pure x s := .silent rfl
  holds_bind hm hf s := by
    simp only [Render.bind_apply]
    exact (hm s).next fun x t => hf x t
  holds_raise e s := .silent rfl
  holds_unless := by
    intro α env b m e hb hm s
    cases hs : b true with
    | true =>
      -- Where the strict render refuses, the lenient one has written no less.
      simp only [hs, if_true]
      have written : s.sink.Before
          (Outcome.state ((if b false then Render.raise e else m false) (env false) s)).sink := by
        cases b false with
        | true => exact .refl _
        | false => exact (hm s).written
      exact ⟨written, .inr ⟨e, s, rfl, written⟩⟩
    | false =>
      have hl : b false = false := by
        cases hf : b false with
        | true => exact absurd (hb hf) (by simp [hs])
        | false => rfl
      simp only [hs, hl]
      exact hm s
  holds_read hf := hf
  holds_get _ hf s := hf s s
  holds_change _ s := .silent rfl
  holds_put name v s := .silent (s.put_sink name v)
  holds_emit t s := by
    have more := Sink.Before.write s.sink t
    simp only [Render.emit_apply]
    apply Refuses.same
    generalize s.sink.write t = r at more
    obtain ⟨_ | f, sink⟩ := r
    · exact more
    · exact more
  holds_captured hm s := by
    -- The text of its own is taken away in both renders, so that neither of them has written anything.
    simp only [Outcome.captured_eq]
    have text := (hm { s with sink := .empty }).next fun x t =>
      Refuses.silent (rfl : (Outcome.state (.ok (x, t.sink.written) t)).sink = t.sink)
    exact text.leaving (fun _ _ => .refl _) fun _ _ _ => .refl _
  holds_inFrame hm s := (hm { s with frames := ∅ :: s.frames }).leaving_silently fun _ => rfl
  holds_restoreLoop var item status hm s :=
    (hm s).leaving_silently fun t => by
      rw [RenderState.restoreLoop, RenderState.restore_sink, RenderState.restore_sink]
  holds_onError _ hm s := (hm s).telling _
  holds_withReader hm := hm
  holds_chosen := by
    rintro _ ⟨e, rfl⟩ p q s
    obtain ⟨x, t, h, hv⟩ := Render.chosen_ok p q e s
    have same (i : Bool) : Render.chosen p q (e.withStrict i) s = .ok x t := by
      rw [← h]
      apply Render.chosen_congr
      · rfl
      · rfl
    simp only [same]
    exact .silent (RenderState.sink_congr hv)
  holds_template := by
    rintro α _ f ⟨e, rfl⟩ he hf name s
    obtain ⟨answer, t, h, hs⟩ : ∃ answer t, Render.template name e s = .ok answer t ∧ t.sink = s.sink :=
      ⟨_, _, rfl, rfl⟩
    have same (i : Bool) : Render.template name (e.withStrict i) s = .ok answer t := h
    simp only [Render.bind_apply, same]
    rw [← hs]
    cases answer with
    | error failure => exact he failure t
    | ok found => exact hf found _ trivial ⟨found.unit, rfl⟩ t
  holds_resource := by
    rintro _ ⟨e, rfl⟩ name s
    exact .silent rfl
  holds_nextUnit hf s := hf (fun _ => .evaluated s.evaluated) ⟨_, rfl⟩ (fun _ => ⟨_, rfl⟩)
    { s with evaluated := s.evaluated + 1 }

/-- A template renders strictly as it does leniently, until it fails. -/
theorem refuses_outermost (depth : Nat) (t : Template) (env : RenderEnv) (s : RenderState) :
    Refuses s.sink (Render.outermostWithin depth t (env.withStrict true) s)
      (Render.outermostWithin depth t (env.withStrict false) s) := by
  have root : lockstep.Renders (fun _ => .ofDepth depth)
      (fun i => (env.withStrict i).opening (t.inUnit t.unit)) t.root :=
    (lockstep.holds_ofDepth (fun _ => .silent rfl) depth ⟨env.opening t, rfl⟩).2 t.root
  exact lockstep.holds_outermost root s

end Strictness

/-! ### Engines -/

/-- What a strict rendering has in common with a lenient one that starts from the same. -/
structure Rendering.Refuses (strict lenient : Rendering) : Prop where
  succeeds : strict.halt = none → strict.Alike lenient ∧ lenient.engine = strict.engine.withStrict false
  fails : ∀ f, lenient.halt = some (.failed f) → ∃ f', strict.halt = some (.failed f')
  written : ∃ rest, lenient.sink.bytes = strict.sink.bytes ++ rest

lemma Rendering.Alike.refuses {strict lenient : Rendering} (h : strict.Alike lenient)
    (he : lenient.engine = strict.engine.withStrict false) : strict.Refuses lenient where
  succeeds _ := ⟨h, he⟩
  fails f hf := ⟨f, h.halt.trans hf⟩
  written := ⟨.empty, by rw [h.sink, ByteArray.append_empty]⟩

namespace Engine

lemma template_withStrict (e : Engine) (h : Host) (name : String) (strict : Bool) :
    (e.withStrict strict).template h name =
      ((e.template h name).1, (e.template h name).2.withStrict strict) := rfl

lemma registerLibrary_withStrict (e : Engine) (h : Host) (name : String) (strict : Bool) :
    (e.withStrict strict).registerLibrary h name =
      ((e.registerLibrary h name).1, (e.registerLibrary h name).2.withStrict strict) := by
  simp only [registerLibrary, template_withStrict]
  rcases e.template h name with ⟨_ | _, next⟩
  · rfl
  · rfl

/-- Engines that are set up with settings that differ in strict references alone differ in those alone. -/
theorem build_withStrict (settings : Settings) (h : Host) (strict : Bool) :
    build (settings.withStrict strict) h = (build settings h).map (·.withStrict strict) := by
  have registerAll (e : Engine) (names : List String) : (e.withStrict strict).registerAll h names =
      (e.registerAll h names).map (·.withStrict strict) := by
    induction names generalizing e with
    | nil => rfl
    | cons name names ih =>
      simp only [Engine.registerAll, registerLibrary_withStrict]
      rcases e.registerLibrary h name with ⟨_ | _, next⟩
      · rfl
      · exact ih next
  have valid : (settings.withStrict strict).validate = settings.validate := rfl
  unfold build
  rw [valid]
  cases settings.validate with
  | error f => rfl
  | ok _ => exact registerAll (initial settings) settings.macroLibraries

lemma refuses_renderWithin (e : Engine) (depth : Nat) (h : Host) (t : Template) (σ : Store) (c : Context)
    (sink : Sink) :
    ((e.withStrict true).renderWithin depth h t σ c sink).Refuses
      ((e.withStrict false).renderWithin depth h t σ c sink) := by
  have outcomes := Strictness.refuses_outermost depth t (e.env h) (e.start σ c sink)
  have env (strict : Bool) : (e.withStrict strict).env h = (e.env h).withStrict strict := rfl
  have start (strict : Bool) : (e.withStrict strict).start σ c sink = e.start σ c sink := rfl
  rw [renderWithin, renderWithin, env, env, start, start]
  generalize Render.outermostWithin depth t ((e.env h).withStrict true) (e.start σ c sink) = r,
    Render.outermostWithin depth t ((e.env h).withStrict false) (e.start σ c sink) = r' at outcomes
  obtain ⟨-, rfl | ⟨f, s, rfl, before⟩⟩ := outcomes
  · have alike (halt : Option Halt) (s : RenderState) : ((e.withStrict true).finish halt s).Refuses
        ((e.withStrict false).finish halt s) :=
      Rendering.Alike.refuses ⟨rfl, rfl, rfl, rfl⟩ rfl
    cases r with
    | ok x s => exact alike none s
    | error halt s => exact alike (some halt) s
  · refine ⟨fun hs => (by cases hs), fun _ _ => ⟨f, rfl⟩, ?_⟩
    cases r' with
    | ok x t => exact before.bytes
    | error halt t => exact before.bytes

/-- Strict references only turn results into errors: where a strict render succeeds, the same render
without strict references leaves the same, where that fails the strict one fails too, and until then both
write the same. -/
theorem refuses_serve (e : Engine) (h : Host) (σ : Store) (c : Context) (sink : Sink)
    (request : Request) :
    ((e.withStrict true).serve h σ c sink request).Refuses
      ((e.withStrict false).serve h σ c sink request) := by
  have refused (e : Engine) (f : TemplateError) : ((e.withStrict true).refused f σ c sink).Refuses
      ((e.withStrict false).refused f σ c sink) :=
    Rendering.Alike.refuses ⟨rfl, rfl, rfl, rfl⟩ rfl
  cases request with
  | named name =>
    simp only [serve, renderNamed, template_withStrict]
    cases (e.template h name).1 with
    | ok t => exact refuses_renderWithin _ _ h t σ c sink
    | error f => exact refused _ f
  | text text =>
    have inline (strict : Bool) : (e.withStrict strict).inline text = e.inline text := rfl
    simp only [serve, renderText, inline]
    cases e.inline text with
    | ok t => exact refuses_renderWithin e _ h t σ c sink
    | error f => exact refused e f
  | compiled t => exact refuses_renderWithin e _ h t σ c sink

end Engine

end Stencil
