import Stencil.Engine
import Stencil.Proofs.Lockstep.Node
import Stencil.Proofs.Lockstep.Uniform

/-!
# Scopes

A macro body and a parsed template run in a frame of their own. Whatever they do, and however they are left,
the variables of their callers stay what they are. Main statements: `Interpreter.isolated_invoke`,
`Interpreter.isolated_parsed`, `Engine.confined_calls` and `Interpreter.parse_withinParses`.
-/

namespace Stencil

/-! ### Changes of the innermost frame -/

namespace RenderState

/-- Whether two states have the same frames but for the innermost one, and the same context unless they
have no frame. -/
structure Keeps (s t : RenderState) : Prop where
  outer : t.frames.tail = s.frames.tail
  isEmpty : t.frames.isEmpty = s.frames.isEmpty
  context : s.frames ≠ [] → t.context = s.context

/-- Whether a state is that of a scope which was opened in another state: there is a frame for it, and below
it the caller's frames and the context are what they were. -/
structure Inside (caller s : RenderState) : Prop where
  frames : ∃ frame inner, s.frames = frame :: (inner ++ caller.frames)
  context : s.context = caller.context

variable {s t u : RenderState}

lemma Keeps.refl (s : RenderState) : s.Keeps s := ⟨rfl, rfl, fun _ => rfl⟩

lemma Keeps.trans (h : s.Keeps t) (h' : t.Keeps u) : s.Keeps u where
  outer := h'.outer.trans h.outer
  isEmpty := h'.isEmpty.trans h.isEmpty
  context hs := by
    have ht : t.frames ≠ [] := by
      simpa only [ne_eq, ← List.isEmpty_iff, h.isEmpty] using hs
    exact (h'.context ht).trans (h.context hs)

/-- A change that leaves the frames and the context as they are. -/
lemma Keeps.of_eq (hf : t.frames = s.frames) (hc : t.context = s.context) : s.Keeps t :=
  ⟨by rw [hf], by rw [hf], fun _ => hc⟩

lemma keeps_put (s : RenderState) (name : String) (v : Value) : s.Keeps (s.put name v) where
  outer := s.tail_frames_put name v
  isEmpty := by
    unfold put
    split
    · next h => simp [h]
    · next h => simp [h]
  context hs := by
    unfold put
    split
    · rfl
    · next h => exact absurd h hs

lemma keeps_restore (s : RenderState) (name : String) (binding : Option Value) :
    s.Keeps (s.restore name binding) := by
  unfold restore
  split
  · exact s.keeps_put name _
  · next h => exact ⟨by rw [h]; rfl, by rw [h]; rfl, fun _ => rfl⟩
  · next h => exact ⟨by rw [h], by rw [h], fun hs => absurd h hs⟩

/-- What keeps the frames below one that was opened, leaves all of them once that is closed. -/
lemma Keeps.framed (h : Keeps { s with frames := ∅ :: s.frames } t) :
    s.Keeps { t with frames := t.frames.tail } :=
  .of_eq h.outer (h.context nofun)

end RenderState

/-- A kind of states that a change of the innermost frame does not leave, nor opening another frame. -/
structure Scoped (within : RenderState → Prop) : Prop where
  keeps : ∀ {s t}, within s → s.Keeps t → within t
  opened : ∀ {s}, within s → within { s with frames := ∅ :: s.frames }

lemma RenderState.scoped_inside (caller : RenderState) : Scoped caller.Inside where
  keeps := by
    intro s t h hk
    obtain ⟨⟨frame, inner, hf⟩, hc⟩ := h
    have some : s.frames ≠ [] := by
      rw [hf]
      exact List.cons_ne_nil _ _
    refine ⟨?_, (hk.context some).trans hc⟩
    cases ht : t.frames with
    | nil =>
      have empty := hk.isEmpty
      rw [ht, hf] at empty
      cases empty
    | cons frame' rest =>
      have outer := hk.outer
      rw [ht, hf] at outer
      exact ⟨frame', inner, congrArg (frame' :: ·) outer⟩
  opened := by
    intro s h
    obtain ⟨⟨frame, inner, hf⟩, hc⟩ := h
    exact ⟨⟨∅, frame :: inner, congrArg (∅ :: ·) hf⟩, hc⟩

/-! ### Where code starts -/

open Classical in
/-- Runs a step that starts within some states, and something else in place of one that does not. -/
noncomputable def Render.guarded {α : Type} (within : RenderEnv → RenderState → Prop)
    (m instead : Render α) : Render α := fun env s =>
  if within env s then m env s else instead env s

namespace Interpreter

/-- Renders a block whose nodes are guarded. -/
noncomputable def guardedBlock (self : Interpreter) (within : RenderEnv → RenderState → Prop)
    (other : Interpreter) : Block → Render Flow
  | [] => return .next
  | n :: ns => do
    match ← Render.guarded within (self.node n) (other.render [n]) with
    | .next => self.guardedBlock within other ns
    | flow => return flow

/-- The interpreter that follows code nested at most `depth` deep, and does what another one does in place of
every expression, block and node that it meets where it should not. -/
noncomputable def guarded (within : RenderEnv → RenderState → Prop) (other : Interpreter) :
    Nat → Interpreter
  | 0 => .ofDepth 0
  | depth + 1 =>
    { eval := fun lenient e =>
        Render.guarded within ((guarded within other depth).evaluate lenient e) (other.eval lenient e)
      render := fun b =>
        Render.guarded within ((guarded within other depth).guardedBlock within other b) (other.render b) }

/-- The expressions, blocks and nodes that a computation runs, however deep they are nested, start within
some states only: what would be done in place of others makes no difference. -/
def Confined {α : Type} (within : RenderEnv → RenderState → Prop) (m : Interpreter → Render α)
    (env : RenderEnv) (s : RenderState) : Prop :=
  ∀ other depth, m (.guarded within other depth) env s = m (.ofDepth depth) env s

end Interpreter

/-- An interpreter of some depth beside the guarded one. -/
noncomputable def besideGuarded (within : RenderEnv → RenderState → Prop) (other : Interpreter) (depth : Nat) :
    Bool → Interpreter
  | false => .ofDepth depth
  | true => .guarded within other depth

/-- Surroundings that macro calls within the limit and templates do not leave. -/
structure Surrounding (near : RenderEnv → Prop) : Prop where
  calling : ∀ {env}, near env → env.calls.length < env.settings.macroMaxDepth →
    ∀ name u, near (env.calling name u)
  opening : ∀ {env}, near env → ∀ t, near (env.opening t)

namespace Scoped

variable {α β : Type} {within : RenderState → Prop} {s s' : RenderState} {env : RenderEnv}

/-- Outcomes of a guarded step and of the step itself from one state: they are the same, and have kept all
frames but the innermost. -/
structure Alike (s : RenderState) (guarded plain : Outcome α) : Prop where
  same : guarded = plain
  keeps : s.Keeps plain.state

lemma Alike.of_ok (x : α) (h : s.Keeps s') : Alike s (.ok x s') (.ok x s') := ⟨rfl, h⟩

lemma Alike.of_error (halt : Halt) : Alike s (.error halt s : Outcome α) (.error halt s) :=
  ⟨rfl, .refl s⟩

lemma Alike.after {r r' : Outcome α} (h : Alike s' r r') (hk : s.Keeps s') : Alike s r r' :=
  ⟨h.same, hk.trans h.keeps⟩

lemma Alike.next (hw : Scoped within) (hs : within s) {r r' : Outcome α} (h : Alike s r r')
    {f g : α → RenderState → Outcome β} (hf : ∀ x t, within t → Alike t (f x t) (g x t)) :
    Alike s (r.next f) (r'.next g) := by
  obtain ⟨rfl, keeps⟩ := h
  cases r with
  | ok x t => exact (hf x t (hw.keeps hs keeps)).after keeps
  | error halt t => exact ⟨rfl, keeps⟩

lemma Alike.leaving {r r' : Outcome α} (h : Alike s r r') {leave : RenderState → RenderState}
    (hl : ∀ t, s.Keeps t → s'.Keeps (leave t)) : Alike s' (r.leaving leave) (r'.leaving leave) := by
  obtain ⟨rfl, keeps⟩ := h
  refine ⟨rfl, ?_⟩
  rw [Outcome.state_leaving]
  exact hl _ keeps

lemma Alike.telling {r r' : Outcome α} (h : Alike s r r') (f : TemplateError → TemplateError) :
    Alike s (r.telling f) (r'.telling f) := by
  obtain ⟨rfl, keeps⟩ := h
  refine ⟨rfl, ?_⟩
  rwa [Outcome.state_telling]

/-- Renders that start from the same state of a kind, end alike, and keep all frames but the innermost. -/
def lockstep (hw : Scoped within) : Lockstep Bool where
  toSurroundings := .same _
  Holds env m := ∀ s, within s → Alike s (m true (env true) s) (m false (env false) s)
  holds_pure x s _ := .of_ok x (.refl s)
  holds_bind hm hf s hs := by
    simp only [Render.bind_apply]
    exact (hm s hs).next hw hs hf
  holds_raise e s _ := .of_error _
  holds_unless := by
    rintro α env _ m e ⟨strict, rfl⟩ hm
    cases strict with
    | true => exact fun s _ => .of_error _
    | false => exact hm
  holds_read hf := hf
  holds_get _ hf s hs := hf s s hs
  holds_change _ s _ := .of_ok _ (.of_eq rfl rfl)
  holds_put name v s _ := .of_ok _ (s.keeps_put name v)
  holds_emit t s _ := by
    simp only [Render.emit_apply]
    rcases s.sink.write t with ⟨_ | f, sink⟩
    · exact .of_ok () (.of_eq rfl rfl)
    · exact ⟨rfl, .of_eq rfl rfl⟩
  holds_captured hm s hs := by
    have silent : s.Keeps { s with sink := .empty } := .of_eq rfl rfl
    have text := (hm _ (hw.keeps hs silent)).next hw (hw.keeps hs silent) fun x t _ =>
      .of_ok (x, t.sink.written) (.refl t)
    simp only [Outcome.captured_eq]
    exact text.leaving fun t keeps => (silent.trans keeps).trans (.of_eq rfl rfl)
  holds_inFrame hm s hs := (hm _ (hw.opened hs)).leaving fun t keeps => keeps.framed
  holds_restoreLoop var item status hm s hs := (hm s hs).leaving fun t keeps =>
    keeps.trans ((t.keeps_restore var item).trans (RenderState.keeps_restore _ _ status))
  holds_onError _ hm s hs := (hm s hs).telling _
  holds_withReader hm := hm
  holds_chosen := by
    rintro _ ⟨e, rfl⟩ p q s _
    obtain ⟨x, t, h, hv⟩ := Render.chosen_ok p q e s
    simp only [h]
    exact .of_ok x (.of_eq (RenderState.frames_congr hv) (RenderState.context_congr hv))
  holds_template := by
    rintro α _ f ⟨e, rfl⟩ he hf name s hs
    obtain ⟨answer, t, h, keeps⟩ : ∃ answer t, Render.template name e s = .ok answer t ∧ s.Keeps t :=
      ⟨_, _, rfl, .of_eq rfl rfl⟩
    have ht := hw.keeps hs keeps
    simp only [Render.bind_apply, h]
    cases answer with
    | error failure => exact (he failure t ht).after keeps
    | ok found => exact (hf found _ trivial ⟨found.unit, rfl⟩ t ht).after keeps
  holds_resource := by
    rintro _ ⟨e, rfl⟩ name s _
    exact .of_ok _ (.of_eq rfl rfl)
  holds_nextUnit hf s hs := by
    have counted : s.Keeps { s with evaluated := s.evaluated + 1 } := .of_eq rfl rfl
    have later := hf (fun _ => .evaluated s.evaluated) ⟨_, rfl⟩ (fun _ => ⟨_, rfl⟩) _ (hw.keeps hs counted)
    exact later.after counted

variable {reached : RenderEnv → RenderState → Prop} {other : Interpreter}

/-- A step that starts where it should is not replaced. -/
lemma holds_guarded (hw : Scoped within) (hr : ∀ s, within s → reached env s)
    {m : Bool → Render α} (instead : Render α) (hm : hw.lockstep.Holds (fun _ => env) m) :
    hw.lockstep.Holds (fun _ => env) fun
      | false => m false
      | true => Render.guarded reached (m true) instead := by
  intro s hs
  have there : Render.guarded reached (m true) instead env s = m true env s := if_pos (hr s hs)
  exact ⟨there.trans (hm s hs).same, (hm s hs).keeps⟩

lemma holds_guardedBlock (hw : Scoped within) (hr : ∀ s, within s → reached env s)
    {self : Bool → Interpreter} {b : Block}
    (h : ∀ n ∈ b, hw.lockstep.Holds (fun _ => env) fun i => (self i).node n) :
    hw.lockstep.Holds (fun _ => env) fun
      | false => (self false).block b
      | true => (self true).guardedBlock reached other b := by
  induction b with
  | nil => exact hw.lockstep.holds_congr (hw.lockstep.holds_pure Flow.next) fun i => by cases i <;> rfl
  | cons n b ih =>
    have first := hw.holds_guarded hr (other.render [n]) (h n (List.mem_cons_self ..))
    have later := ih fun x hx => h x (List.mem_cons_of_mem _ hx)
    refine hw.lockstep.holds_congr (hw.lockstep.holds_bind first (hw.lockstep.holds_before later)) fun i => ?_
    cases i with
    | false => exact (self false).block_cons n b
    | true =>
      show (self true).guardedBlock reached other (n :: b) = _ >>= Flow.before _
      rw [Interpreter.guardedBlock]
      congr

/-- Wherever code starts that a render runs, it starts where it should. -/
theorem holds_besideGuarded (hw : Scoped within) {near : RenderEnv → Prop} (hn : Surrounding near)
    (hr : ∀ {env}, near env → ∀ s, within s → reached env s) (depth : Nat) {env : RenderEnv}
    (he : near env) :
    (∀ e, hw.lockstep.Evaluates (besideGuarded reached other depth) (fun _ => env) e) ∧
      ∀ b, hw.lockstep.Renders (besideGuarded reached other depth) (fun _ => env) b := by
  induction depth generalizing env with
  | zero =>
    have given_up (i : Bool) : besideGuarded reached other 0 i = .ofDepth 0 := by cases i <;> rfl
    constructor
    · intro e lenient s _
      simp only [given_up]
      exact .of_error _
    · intro b s _
      simp only [given_up]
      exact .of_error _
  | succ depth ih =>
    have around : hw.lockstep.Around fun _ => env := ⟨env, rfl⟩
    have callees : hw.lockstep.Callees (besideGuarded reached other depth) fun _ => env :=
      { calling := by
          rintro name _ d ⟨u, rfl⟩ - hc
          have inner := ih (hn.calling he (hc false) d.name u)
          exact ⟨fun q _ e _ => inner.1 e, inner.2 d.body⟩
        parsing := by
          rintro _ ⟨u, rfl⟩ t - -
          exact (ih (hn.opening he (t.inUnit u))).2 t.root
        evaluating := by
          rintro _ ⟨u, rfl⟩ - t -
          exact (ih (hn.opening he (t.inUnit u))).2 t.root }
    constructor
    · intro e lenient
      have value : hw.lockstep.Holds (fun _ => env) fun i =>
          (besideGuarded reached other depth i).evaluate lenient e :=
        hw.lockstep.holds_evaluate around (fun x _ => (ih he).1 x) (fun b _ => (ih he).2 b) lenient
      refine hw.lockstep.holds_congr (hw.holds_guarded (hr he) (other.eval lenient e) value) fun i => ?_
      cases i <;> rfl
    · intro b
      have nodes : ∀ n ∈ b, hw.lockstep.Holds (fun _ => env) fun i =>
          (besideGuarded reached other depth i).node n :=
        fun n _ => hw.lockstep.holds_node around callees (fun e _ => (ih he).1 e) fun b _ => (ih he).2 b
      have block := @holds_guardedBlock _ _ _ other hw (hr he) _ _ nodes
      refine hw.lockstep.holds_congr (hw.holds_guarded (hr he) (other.render b) block) fun i => ?_
      cases i <;> rfl

end Scoped

namespace Interpreter

variable {α β : Type} {env : RenderEnv} {s : RenderState}

/-- Outcomes of a guarded step and of the step itself from one state: they are the same, with the frames and
the context that there were. -/
structure Leaves (s : RenderState) (guarded plain : Outcome α) : Prop where
  same : guarded = plain
  frames : plain.state.frames = s.frames
  context : plain.state.context = s.context

lemma Leaves.of_frame {r r' : Outcome α} (h : Scoped.Alike { s with frames := ∅ :: s.frames } r r') :
    Leaves s (r.leaving fun t => { t with frames := t.frames.tail })
      (r'.leaving fun t => { t with frames := t.frames.tail }) := by
  obtain ⟨rfl, keeps⟩ := h
  refine ⟨rfl, ?_, ?_⟩
  · rw [Outcome.state_leaving]
    exact keeps.outer
  · rw [Outcome.state_leaving]
    exact keeps.context nofun

lemma Leaves.telling {r r' : Outcome α} (h : Leaves s r r') (f : TemplateError → TemplateError) :
    Leaves s (r.telling f) (r'.telling f) := by
  obtain ⟨rfl, frames, context⟩ := h
  refine ⟨rfl, ?_, ?_⟩
  · rwa [Outcome.state_telling]
  · rwa [Outcome.state_telling]

lemma Leaves.map {r r' : Outcome α} (h : Leaves s r r') (f : α → β) :
    Leaves s (r.next fun x t => .ok (f x) t) (r'.next fun x t => .ok (f x) t) := by
  obtain ⟨rfl, frames, context⟩ := h
  cases r with
  | ok x t => exact ⟨rfl, frames, context⟩
  | error halt t => exact ⟨rfl, frames, context⟩

/-- A computation that has a scope of its own: all code in it starts with the caller's frames and context as
they were, and when it is left, by whatever way, what follows finds them, and the templates and macro calls
around it, as they were. -/
structure Isolated (m : Interpreter → Render α) (env : RenderEnv) (s : RenderState) : Prop where
  inside : Confined (fun _ t => s.Inside t) m env s
  frames : ∀ depth, (Outcome.state (m (.ofDepth depth) env s)).frames = s.frames
  context : ∀ depth, (Outcome.state (m (.ofDepth depth) env s)).context = s.context
  resumes : ∀ depth {β : Type} (f : α → Render β), (m (.ofDepth depth) >>= f) env s =
    Outcome.next (m (.ofDepth depth) env s) fun x t => f x env t

lemma Leaves.isolated {m : Interpreter → Render α}
    (h : ∀ other depth, Leaves s (m (.guarded (fun _ t => s.Inside t) other depth) env s)
      (m (.ofDepth depth) env s)) : Isolated m env s where
  inside other depth := (h other depth).same
  frames depth := (h (.ofDepth depth) depth).frames
  context depth := (h (.ofDepth depth) depth).context
  resumes _ _ f := Render.bind_apply _ f env s

/-- All code that runs in a frame over the caller's starts there. -/
lemma scoped_besideGuarded (s : RenderState) (other : Interpreter) (depth : Nat) (env : RenderEnv) :
    (∀ e, (RenderState.scoped_inside s).lockstep.Evaluates
      (besideGuarded (fun _ t => s.Inside t) other depth) (fun _ => env) e) ∧
    ∀ b, (RenderState.scoped_inside s).lockstep.Renders
      (besideGuarded (fun _ t => s.Inside t) other depth) (fun _ => env) b := by
  have anywhere : Surrounding fun _ => True := ⟨fun _ _ _ _ => trivial, fun _ _ => trivial⟩
  exact (RenderState.scoped_inside s).holds_besideGuarded anywhere (fun _ _ h => h) depth trivial

lemma inside_opened (s : RenderState) : s.Inside { s with frames := ∅ :: s.frames } :=
  ⟨⟨∅, [], rfl⟩, rfl⟩

lemma inMacro_apply (unit : CodeUnit) (d : MacroDef) (p : Position) (m : Render α) (env : RenderEnv)
    (s : RenderState) :
    inMacro unit d p m env s =
      if env.settings.macroMaxDepth ≤ env.calls.length then
        Render.fail (.macroDepth d.name env.settings.macroMaxDepth env.calls.reverse) p env s
      else m (env.calling d.name unit) s := by
  simp only [inMacro, Render.read_bind_apply]
  split
  · rfl
  · rfl

/-- A macro whose arguments are evaluated changes no variable of its caller, neither while it binds its
parameters and runs nor when it is left. -/
theorem isolated_invoke (unit : CodeUnit) (d : MacroDef) (p : Position) (args : Arguments)
    (content : Option String) (env : RenderEnv) (s : RenderState) :
    Isolated (fun self => self.invoke unit d p args content) env s := by
  apply Leaves.isolated
  intro other depth
  obtain ⟨values, blocks⟩ := scoped_besideGuarded s other depth (env.calling d.name unit)
  have runs : (RenderState.scoped_inside s).lockstep.Runs
      (besideGuarded (fun _ t => s.Inside t) other depth) (fun _ => env.calling d.name unit) d :=
    ⟨fun q _ e _ => values e, blocks d.body⟩
  have body := (RenderState.scoped_inside s).lockstep.holds_macroBody runs args content _ (inside_opened s)
  have call : Leaves s
      (inMacro unit d p ((guarded (fun _ t => s.Inside t) other depth).runMacro d args content) env s)
      (inMacro unit d p ((ofDepth depth).runMacro d args content) env s) := by
    simp only [inMacro_apply]
    split
    · exact ⟨rfl, rfl, rfl⟩
    · exact Leaves.of_frame body
  simp only [invoke, Render.bind_apply]
  exact (call.telling fun e => (e.inSource d.source).leaving (.macroCall d.name) p).map
    fun flow => if flow.endsMacro then .next else flow

/-- A parsed template changes no variable of the template that parses it. -/
theorem isolated_parsed (t : Template) (a : Activation) (p : Position) (env : RenderEnv) (s : RenderState) :
    Isolated (fun self => self.nested t a p Render.inFrame) env s := by
  apply Leaves.isolated
  intro other depth
  obtain ⟨-, blocks⟩ := scoped_besideGuarded s other depth (env.opening t)
  have root := blocks t.root _ (inside_opened s)
  exact (Leaves.of_frame root).telling fun e => (e.inSource t.source).leaving a p

/-! ### How many scopes are open -/

/-- The interpreter that renders as another one does where more templates are open than the settings allow. -/
noncomputable def withinParses (self other : Interpreter) : Interpreter :=
  { self with
    render := fun b => Render.guarded (fun env _ => env.templates.length ≤ env.settings.parseMaxDepth)
      (self.render b) (other.render b) }

/-- No template is parsed where, with it, more templates are open than the settings allow. -/
theorem parse_withinParses (self other : Interpreter) (arg : Expr) (p : Position) :
    (self.withinParses other).parse arg p = self.parse arg p := by
  unfold parse
  congr 1
  funext name env s
  simp only [Render.read_bind_apply]
  by_cases hd : env.settings.parseMaxDepth ≤ env.templates.length
  · simp only [if_pos hd]
    rfl
  · simp only [if_neg hd]
    have below (t : Template) (s : RenderState) :
        (self.withinParses other).nested t (.parse name) p Render.inFrame env s =
          self.nested t (.parse name) p Render.inFrame env s := by
      have opened : (env.opening t).templates.length ≤ (env.opening t).settings.parseMaxDepth :=
        Nat.lt_of_not_le hd
      have root (s : RenderState) : (self.withinParses other).render t.root (env.opening t) s =
          self.render t.root (env.opening t) s := if_pos opened
      show Outcome.telling (Outcome.leaving
          ((self.withinParses other).render t.root (env.opening t) _) _) _ = _
      rw [root]
      rfl
    simp only [Render.bind_apply]
    cases Render.template name env s with
    | error halt s => rfl
    | ok answer s =>
      cases answer with
      | error f => rfl
      | ok t =>
        show Outcome.next ((self.withinParses other).nested t (.parse name) p Render.inFrame env s) _ = _
        rw [below]
        rfl

end Interpreter

/-- Every code that a render runs, however deep it is nested, starts with at most as many macro calls around
it as the settings allow. -/
theorem Engine.confined_calls (e : Engine) (h : Host) (t : Template) (σ : Store) (c : Context) (sink : Sink) :
    Interpreter.Confined (fun env _ => env.calls.length ≤ e.settings.macroMaxDepth)
      (fun self => self.outermost t) (e.env h) (e.start σ c sink) := by
  intro other depth
  have all : Scoped fun _ => True := ⟨fun _ _ => trivial, fun _ => trivial⟩
  have near : Surrounding fun env =>
      env.settings = e.settings ∧ env.calls.length ≤ e.settings.macroMaxDepth := by
    constructor
    · rintro env ⟨hs, -⟩ hc name u
      rw [hs] at hc
      exact ⟨hs, hc⟩
    · rintro env he t
      exact he
  have start : ((e.env h).opening t).settings = e.settings ∧
      ((e.env h).opening t).calls.length ≤ e.settings.macroMaxDepth := ⟨rfl, Nat.zero_le _⟩
  have root := (@Scoped.holds_besideGuarded _ (fun env _ => env.calls.length ≤ e.settings.macroMaxDepth) other
    all _ near (fun he _ _ => he.2) depth _ start).2 t.root
  exact (all.lockstep.holds_outermost root (e.start σ c sink) trivial).same

/-- Scopes are isolated. A macro and a parsed template leave the variables of their callers as they are while
they run, and leave all scopes as they found them; no code runs inside more macro calls than the settings
allow, and no template is parsed inside more templates. -/
theorem scope_isolation :
    (∀ unit d p args content env s,
      Interpreter.Isolated (fun self => self.invoke unit d p args content) env s) ∧
    (∀ t a p env s, Interpreter.Isolated (fun self => self.nested t a p Render.inFrame) env s) ∧
    (∀ (e : Engine) h t σ c sink,
      Interpreter.Confined (fun env _ => env.calls.length ≤ e.settings.macroMaxDepth)
        (fun self => self.outermost t) (e.env h) (e.start σ c sink)) ∧
    ∀ (self other : Interpreter) arg p, (self.withinParses other).parse arg p = self.parse arg p := by
  refine ⟨?_, ?_, ?_, ?_⟩
  · exact Interpreter.isolated_invoke
  · exact Interpreter.isolated_parsed
  · exact Engine.confined_calls
  · exact Interpreter.parse_withinParses

end Stencil
