import Stencil.Loader.Files
import Stencil.Render.Node

/-!
# Engines

An engine is set up once and renders many templates. It keeps the templates that it compiled, the macros
of its libraries and the members that were chosen; the host offers it loaders, files, types and a clock,
which may be others every time.
-/

namespace Stencil

/-- What the host application offers at one moment. -/
structure Host where
  /-- Loaders that are asked before the configured ones. -/
  loaders : List Loader
  files : FileTree
  types : HostTypes
  /-- What the clock shows when it is read for the `n`-th time. -/
  clock : Nat → Nat

def Host.ofTemplates (templates : List (String × String)) (clock : Nat → Nat) : Host where
  loaders := [(StringLoader.ofList templates).loader]
  files := ⟨[], []⟩
  types _ := none
  clock := clock

def LoaderSetting.loader (files : FileTree) : LoaderSetting → Loader
  | .files paths => (FileLoader.mk paths).loader files
  | .strings templates => (StringLoader.ofList templates).loader

/-- The loaders of an engine in the order in which they are asked. Without any, templates are files below
the working directory. -/
def Settings.allLoaders (c : Settings) (h : Host) : List Loader :=
  match h.loaders ++ c.loaders.map (·.loader h.files) with
  | [] => [(FileLoader.mk ["."]).loader h.files]
  | loaders => loaders

/-- An engine. -/
structure Engine where
  settings : Settings
  cache : TemplateCache
  library : MacroLibrary
  memory : ChoiceMemory
  /-- How often the clock was read so far. -/
  readings : Nat

/-- What is left when a render is over. -/
structure Rendering where
  /-- Why the render did not come to its end, if it did not. -/
  halt : Option Halt
  context : Context
  store : Store
  sink : Sink
  engine : Engine

namespace Engine

/-- The compiled template of a name. -/
def template (e : Engine) (h : Host) (name : String) : Except TemplateError Template × Engine :=
  let c := e.cache.get (e.settings.allLoaders h) (h.clock e.readings) name
  (c.answer, { e with cache := c.cache, readings := e.readings + 1 })

/-- Lets every template call the macros of a library template. -/
def registerLibrary (e : Engine) (h : Host) (name : String) : Except TemplateError Unit × Engine :=
  match e.template h name with
  | (.error f, e) => (.error f, e)
  | (.ok t, e) => (.ok (), { e with library := e.library.register name t })

/-- Registers libraries in order, up to the first that fails. -/
def registerAll (e : Engine) (h : Host) : List String → Except TemplateError Engine
  | [] => .ok e
  | name :: names =>
    match e.registerLibrary h name with
    | (.error f, _) => .error f
    | (.ok (), e) => e.registerAll h names

/-- Sets up an engine, if its settings can be honoured and its libraries compile. -/
def build (settings : Settings) (h : Host) : Except TemplateError Engine := do
  settings.validate
  let e : Engine :=
    { settings := settings
      cache := .empty settings.modificationCheckInterval settings.gobbling
      library := .empty
      memory := .empty
      readings := 0 }
  e.registerAll h settings.macroLibraries

/-- What a render by an engine finds around it before the first template. -/
def env (e : Engine) (h : Host) : RenderEnv where
  settings := e.settings
  types := h.types
  loaders := e.settings.allLoaders h
  library := e.library
  clock := h.clock
  templates := []
  calls := []
  unit := .inline

def start (e : Engine) (σ : Store) (c : Context) (sink : Sink) : RenderState where
  store := σ
  context := c
  frames := []
  sink := sink
  cache := e.cache
  memory := e.memory
  choices := []
  evaluated := 0
  readings := e.readings

/-- What is left of a state when a render is over. -/
def finish (e : Engine) (halt : Option Halt) (s : RenderState) : Rendering where
  halt := halt
  context := s.context
  store := s.store
  sink := s.sink
  engine :=
    { e with cache := s.cache, memory := s.memory, readings := s.readings }

/-- Renders a compiled template into a sink, and follows code that is nested at most `depth` deep. -/
def renderWithin (e : Engine) (depth : Nat) (h : Host) (t : Template) (σ : Store) (c : Context)
    (sink : Sink) : Rendering :=
  match Render.outermostWithin depth t (e.env h) (e.start σ c sink) with
  | .ok () s => e.finish none s
  | .error halt s => e.finish (some halt) s

/-- Whatever flow reaches the end of a render, the render succeeds. -/
theorem renderWithin_of_ok {e : Engine} {depth : Nat} {h : Host} {t : Template} {σ : Store} {c : Context}
    {sink : Sink} {flow : Flow} {s : RenderState}
    (hr : (Interpreter.ofDepth depth).render t.root ((e.env h).opening t) (e.start σ c sink) =
      .ok flow s) : e.renderWithin depth h t σ c sink = e.finish none s := by
  have inside : ((Interpreter.ofDepth depth).render t.root).inTemplate t (e.env h) (e.start σ c sink) =
      .ok flow s := hr
  have outermost : Render.outermostWithin depth t (e.env h) (e.start σ c sink) = .ok () s := by
    unfold Render.outermostWithin Render.onError
    rw [Render.bind_apply, inside]
    rfl
  unfold renderWithin
  rw [outermost]

/-- Renders a compiled template into a sink. -/
def renderCompiled (e : Engine) (h : Host) (t : Template) (σ : Store) (c : Context) (sink : Sink) :
    Rendering :=
  e.renderWithin maxNesting h t σ c sink

/-- The outcome of a render that ends before its first node. -/
def refused (e : Engine) (f : TemplateError) (σ : Store) (c : Context) (sink : Sink) : Rendering :=
  ⟨some (.failed f), c, σ, sink, e⟩

/-- Renders the template of a name into a sink. What was written before a failure stays written. -/
def renderNamed (e : Engine) (h : Host) (name : String) (σ : Store) (c : Context) (sink : Sink) :
    Rendering :=
  match e.template h name with
  | (.ok t, e) => e.renderCompiled h t σ c sink
  | (.error f, e) => e.refused f σ c sink

def inline (e : Engine) (text : String) : Except TemplateError Template :=
  Template.compile .inline ⟨"<inline>", text⟩ e.settings.gobbling

/-- Renders a text into a sink without keeping the template. -/
def renderText (e : Engine) (h : Host) (text : String) (σ : Store) (c : Context) (sink : Sink) :
    Rendering :=
  match e.inline text with
  | .ok t => e.renderCompiled h t σ c sink
  | .error f => e.refused f σ c sink

def initial (settings : Settings) : Engine where
  settings := settings
  cache := .empty settings.modificationCheckInterval settings.gobbling
  library := .empty
  memory := .empty
  readings := 0

/-- Setting up an engine without libraries asks no loader. -/
theorem build_initial {settings : Settings} (hv : settings.validate = .ok ())
    (hl : settings.macroLibraries = []) (h : Host) : build settings h = .ok (initial settings) := by
  unfold build
  rw [hv, hl]
  rfl

/-- An engine whose settings cannot be honoured is not set up. -/
theorem build_of_fault {settings : Settings} {f : SettingFault} (hf : settings.fault? = some f)
    (h : Host) : build settings h = .error (.of (.config f)) := by
  simp [build, Settings.validate, hf, bind, Except.bind]

end Engine

end Stencil
