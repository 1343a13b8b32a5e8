import Stencil.Engine
import Stencil.Proofs.History.Related

/-!
# The history of an engine does not show

Two engines with the same settings, libraries and texts render alike, whatever they rendered before and
whatever their clocks show: they write the same text, they fail alike, and they leave the same variables.
Main statements: `Engine.Reached.upright` and `Engine.serve_alike`.
-/

namespace Stencil

/-! ### Engines -/

/-- What an engine is asked to render. -/
inductive Request where
  | named (name : String)
  | text (text : String)
  | compiled (t : Template)

/-- Renders what is asked for. -/
def Engine.serve (e : Engine) (h : Host) (σ : Store) (c : Context) (sink : Sink) : Request → Rendering
  | .named name => e.renderNamed h name σ c sink
  | .text text => e.renderText h text σ c sink
  | .compiled t => e.renderCompiled h t σ c sink

/-- Hosts whose loaders have the same texts, and whose types are the same. Their clocks need not agree, nor
the stamps of the texts. -/
structure Host.Alike (settings : Settings) (h h' : Host) : Prop where
  offer : Offer.of (settings.allLoaders h) = Offer.of (settings.allLoaders h')
  types : h.types = h'.types

/-- The engines that are reached from a set of settings while a host stays alike, with the libraries that
were registered after the configured ones: whether that failed or not, and whatever was rendered in
between. -/
inductive Engine.Reached (settings : Settings) (h₀ : Host) : List String → Engine → Prop
  | build {h : Host} {e : Engine} : h.Alike settings h₀ → Engine.build settings h = .ok e →
    Reached settings h₀ [] e
  | register {h : Host} {e : Engine} {libraries : List String} (name : String) :
    h.Alike settings h₀ → Reached settings h₀ libraries e →
    Reached settings h₀ (libraries ++ [name]) (e.registerLibrary h name).2
  | serve {h : Host} {e : Engine} {libraries : List String} (σ : Store) (c : Context) (sink : Sink)
    (request : Request) : h.Alike settings h₀ → Reached settings h₀ libraries e →
    Reached settings h₀ libraries (e.serve h σ c sink request).engine

/-- What a caller can see of a render. -/
structure Rendering.Alike (r r' : Rendering) : Prop where
  halt : r.halt = r'.halt
  context : r.context = r'.context
  store : r.store = r'.store
  sink : r.sink = r'.sink

/-- The library that registering templates in order would give, compiled anew. -/
def Offer.library (offer : Offer) (policy : GobblingPolicy) (names : List String) : MacroLibrary :=
  names.foldl (fun l name =>
    match offer.fresh policy name with
    | .ok t => l.register name t
    | .error _ => l) .empty

/-- An engine in which nothing wrong is remembered. -/
structure Engine.Upright (settings : Settings) (types : HostTypes) (offer : Offer)
    (libraries : List String) (e : Engine) : Prop where
  configured : e.settings = settings
  cache : e.cache.Sound offer settings.gobbling
  memory : e.memory.Sound types
  library : ∀ name, e.library.def? name = (offer.library settings.gobbling libraries).def? name

namespace Engine

variable {settings : Settings} {types : HostTypes} {offer : Offer} {libraries : List String}
  {e e' : Engine} {h h' h₀ : Host}

/-- Asking for a template gives what is found anew, but for its unit, and leaves the engine upright. -/
lemma Upright.template (he : e.Upright settings types offer libraries)
    (ho : Offer.of (settings.allLoaders h) = offer) (name : String) :
    (∃ u, (e.template h name).1 = (offer.fresh settings.gobbling name).map (·.inUnit u)) ∧
      (e.template h name).2.Upright settings types offer libraries := by
  obtain ⟨hs, hc, hm, hl⟩ := he
  subst ho hs
  have found := TemplateCache.faithful_get hc (h.clock e.readings) name
  exact ⟨found.answer, rfl, found.cache, hm, hl⟩

/-- Registering a library adds the macros that are found anew. -/
lemma Upright.register (he : e.Upright settings types offer libraries)
    (ho : Offer.of (settings.allLoaders h) = offer) (name : String) :
    (e.registerLibrary h name).2.Upright settings types offer (libraries ++ [name]) := by
  obtain ⟨⟨u, ha⟩, hu⟩ := he.template ho name
  unfold registerLibrary
  generalize e.template h name = r at ha hu
  obtain ⟨answer, e⟩ := r
  dsimp only at ha hu
  subst ha
  -- A library that does not compile leaves the macros as they are, on both sides of the equation.
  cases hf : offer.fresh settings.gobbling name with
  | error f =>
    refine ⟨hu.configured, hu.cache, hu.memory, fun other => ?_⟩
    rw [Offer.library, List.foldl_append]
    simp only [List.foldl_cons, List.foldl_nil, hf]
    exact hu.library other
  | ok t =>
    refine ⟨hu.configured, hu.cache, hu.memory, fun other => ?_⟩
    rw [Offer.library, List.foldl_append]
    simp only [List.foldl_cons, List.foldl_nil, hf]
    have same : (t.inUnit u).macros = t.macros := rfl
    exact MacroLibrary.def?_register hu.library same name other

lemma Upright.registerAll (he : e.Upright settings types offer libraries)
    (ho : Offer.of (settings.allLoaders h) = offer) {names : List String}
    (hr : e.registerAll h names = .ok e') : e'.Upright settings types offer (libraries ++ names) := by
  induction names generalizing e libraries with
  | nil =>
    obtain rfl := Except.ok.inj hr
    rwa [List.append_nil]
  | cons name names ih =>
    have step := he.register ho name
    unfold Engine.registerAll at hr
    generalize e.registerLibrary h name = r at hr step
    obtain ⟨answer, next⟩ := r
    cases answer with
    | error f => cases hr
    | ok _ =>
      have rest := ih step hr
      rwa [List.append_assoc] at rest

lemma upright_build (ho : Offer.of (settings.allLoaders h) = offer) (hb : build settings h = .ok e) :
    e.Upright settings types offer settings.macroLibraries := by
  unfold build at hb
  cases hv : settings.validate with
  | error f =>
    rw [hv] at hb
    cases hb
  | ok _ =>
    rw [hv] at hb
    refine @Upright.registerAll settings types offer [] _ _ h ?_ ho _ hb
    exact ⟨rfl, TemplateCache.sound_empty _ _ _, ChoiceMemory.sound_empty _, fun _ => rfl⟩

/-! ### Renders -/

/-- What is around a render on either of two upright engines. -/
lemma around_env (he : e.Upright settings types offer libraries)
    (he' : e'.Upright settings types offer libraries)
    (ho : Offer.of (settings.allLoaders h) = offer) (ho' : Offer.of (settings.allLoaders h') = offer)
    (ht : h.types = types) (ht' : h'.types = types) :
    History.Around settings types offer (offer.library settings.gobbling libraries).def?
      fun i => if i then e'.env h' else e.env h where
  settings i := by cases i; exacts [he.configured, he'.configured]
  types i := by cases i; exacts [ht, ht']
  offer i := by
    cases i
    · rw [← ho, ← he.configured]
      rfl
    · rw [← ho', ← he'.configured]
      rfl
  library i := by cases i; exacts [he.library, he'.library]
  calls := ⟨[], fun i => by cases i <;> rfl⟩
  templates := ⟨[], fun i => by cases i <;> rfl⟩

/-- Where a render starts, nothing wrong is remembered. -/
lemma Upright.start (he : e.Upright settings types offer libraries) (σ : Store) (c : Context)
    (sink : Sink) : (e.start σ c sink).Sound offer settings.gobbling types where
  cache := he.cache
  recalls := .of_nil he.memory rfl

/-- Where a render ends with nothing wrong remembered, the engine is upright. -/
lemma Upright.finish (he : e.Upright settings types offer libraries) (halt : Option Halt)
    {s : RenderState} (hs : s.Sound offer settings.gobbling types) :
    (e.finish halt s).engine.Upright settings types offer libraries where
  configured := he.configured
  cache := hs.cache
  memory := hs.recalls.memory
  library := he.library

/-- Renders of a template that is the same up to its unit are alike and leave upright engines. -/
lemma Upright.renderWithin (he : e.Upright settings types offer libraries)
    (he' : e'.Upright settings types offer libraries)
    (ho : Offer.of (settings.allLoaders h) = offer) (ho' : Offer.of (settings.allLoaders h') = offer)
    (ht : h.types = types) (ht' : h'.types = types) (depth : Nat) (t : Template) (u v : CodeUnit)
    (σ : Store) (c : Context) (sink : Sink) :
    let r := e.renderWithin depth h (t.inUnit u) σ c sink
    let r' := e'.renderWithin depth h' (t.inUnit v) σ c sink
    r.Alike r' ∧ r.engine.Upright settings types offer libraries ∧
      r'.engine.Upright settings types offer libraries := by
  have around := around_env he he' ho ho' ht ht'
  have related : History.Related settings types offer (e.start σ c sink) (e'.start σ c sink) :=
    ⟨rfl, he.start σ c sink, he'.start σ c sink⟩
  let units (i : Bool) : CodeUnit := if i then v else u
  have root := ((History.lockstep settings types offer _).holds_ofDepth (fun h => .exhausted h) depth
    (around.opening t units)).2 t.root
  have agree := (History.lockstep settings types offer _).holds_outermost root related
  dsimp only [Engine.renderWithin]
  simp only [Interpreter.outermost_ofDepth, units, Bool.false_eq_true, if_false, if_true] at agree
  -- The two outcomes agree; all that is left is to read the renderings off them.
  generalize Render.outermostWithin depth (t.inUnit u) (e.env h) (e.start σ c sink) = r,
    Render.outermostWithin depth (t.inUnit v) (e'.env h') (e'.start σ c sink) = r' at agree ⊢
  have alike (halt : Option Halt) {s s' : RenderState} (hr : History.Related settings types offer s s') :
      (e.finish halt s).Alike (e'.finish halt s') :=
    ⟨rfl, RenderState.context_congr hr.view, RenderState.store_congr hr.view,
      RenderState.sink_congr hr.view⟩
  cases agree with
  | ok x hr => exact ⟨alike _ hr, he.finish _ hr.left, he'.finish _ hr.right⟩
  | failed same hr =>
    obtain rfl := same
    exact ⟨alike _ hr, he.finish _ hr.left, he'.finish _ hr.right⟩
  | exhausted hr => exact ⟨alike _ hr, he.finish _ hr.left, he'.finish _ hr.right⟩

/-- Upright engines answer every request alike and stay upright. -/
theorem Upright.serve (he : e.Upright settings types offer libraries)
    (he' : e'.Upright settings types offer libraries)
    (ho : Offer.of (settings.allLoaders h) = offer) (ho' : Offer.of (settings.allLoaders h') = offer)
    (ht : h.types = types) (ht' : h'.types = types) (σ : Store) (c : Context) (sink : Sink)
    (request : Request) :
    let r := e.serve h σ c sink request
    let r' := e'.serve h' σ c sink request
    r.Alike r' ∧ r.engine.Upright settings types offer libraries ∧
      r'.engine.Upright settings types offer libraries := by
  cases request with
  | named name =>
    obtain ⟨⟨u, ha⟩, hu⟩ := he.template ho name
    obtain ⟨⟨v, ha'⟩, hu'⟩ := he'.template ho' name
    dsimp only [Engine.serve, renderNamed]
    generalize e.template h name = r, e'.template h' name = r' at ha hu ha' hu' ⊢
    obtain ⟨answer, next⟩ := r
    obtain ⟨answer', next'⟩ := r'
    dsimp only at ha hu ha' hu'
    subst ha ha'
    cases offer.fresh settings.gobbling name with
    | error f => exact ⟨⟨rfl, rfl, rfl, rfl⟩, hu, hu'⟩
    | ok t => exact hu.renderWithin hu' ho ho' ht ht' maxNesting t u v σ c sink
  | text text =>
    dsimp only [Engine.serve, renderText, Engine.inline]
    rw [he.configured, he'.configured]
    cases Template.compile .inline ⟨"<inline>", text⟩ settings.gobbling with
    | error f => exact ⟨⟨rfl, rfl, rfl, rfl⟩, he, he'⟩
    | ok t => exact he.renderWithin he' ho ho' ht ht' maxNesting t t.unit t.unit σ c sink
  | compiled t => exact he.renderWithin he' ho ho' ht ht' maxNesting t t.unit t.unit σ c sink

/-- Every engine that is reached remembers nothing wrong. -/
theorem Reached.upright (hr : Reached settings h₀ libraries e) :
    e.Upright settings h₀.types (.of (settings.allLoaders h₀)) (settings.macroLibraries ++ libraries) := by
  induction hr with
  | build ha hb =>
    rw [List.append_nil]
    exact upright_build ha.offer hb
  | register name ha _ ih =>
    rw [← List.append_assoc]
    exact ih.register ha.offer name
  | serve σ c sink request ha _ ih =>
    exact (ih.serve ih ha.offer ha.offer ha.types ha.types σ c sink request).2.1

/-- Engines with the same settings and libraries render alike, whatever each of them rendered before: one
of them may be freshly set up. -/
theorem serve_alike (hr : Reached settings h₀ libraries e) (hr' : Reached settings h₀ libraries e')
    (ha : h.Alike settings h₀) (ha' : h'.Alike settings h₀) (σ : Store) (c : Context) (sink : Sink)
    (request : Request) : (e.serve h σ c sink request).Alike (e'.serve h' σ c sink request) :=
  (hr.upright.serve hr'.upright ha.offer ha'.offer ha.types ha'.types σ c sink request).1

/-- A render after a failed one is like the first render. -/
theorem serve_alike_after_failure :
    ∃ e, build .standard (.ofTemplates [("a", "$x")] id) = .ok e ∧
      ((e.serve (.ofTemplates [("a", "$x")] id) .empty .empty .empty (.text "#end")).engine.serve
        (.ofTemplates [("a", "$x")] Nat.succ) .empty .empty .empty (.named "a")).Alike
      (e.serve (.ofTemplates [("a", "$x")] id) .empty .empty .empty (.named "a")) := by
  have alike (clock : Nat → Nat) : Host.Alike .standard (.ofTemplates [("a", "$x")] clock)
      (.ofTemplates [("a", "$x")] id) := ⟨rfl, rfl⟩
  obtain ⟨e, built⟩ : ∃ e, build .standard (.ofTemplates [("a", "$x")] id) = .ok e := by
    unfold build
    rw [Settings.validate_standard]
    exact ⟨_, rfl⟩
  have fresh := Reached.build (alike id) built
  exact ⟨e, built, serve_alike (.serve _ _ _ _ (alike id) fresh) fresh (alike _) (alike id) _ _ _ _⟩

end Engine

end Stencil
