import Stencil.Proofs.Definitions
import Stencil.Proofs.Scopes
import Stencil.Proofs.Screening

/-!
# Which definition a macro call runs

A name stands for the macro of the innermost open template that defines it, and otherwise for that of the library
registered last of those that define it. Main statement: `Engine.runs_last_definition`, whatever was registered and
rendered before, at all points of a render.
-/

namespace Stencil

/-! ### Libraries -/

/-- The value of a key after entries of different keys were inserted. -/
lemma Dict.get?_foldl_insert {α β : Type} (f : α → β) {es : List (String × α)} (distinct : (es.map Prod.fst).Nodup)
    (d : Dict β) (name : String) :
    (es.foldl (fun d e => d.insert e.1 (f e.2)) d).get? name = ((es.lookup name).map f).or (d.get? name) := by
  induction es generalizing d with
  | nil => rfl
  | cons e es ih =>
    obtain ⟨fresh, distinct⟩ := List.nodup_cons.mp distinct
    rw [List.foldl_cons, ih distinct, Dict.get?_insert, List.lookup_cons]
    by_cases here : name = e.1
    · subst here
      have missing : es.lookup e.1 = none := by
        refine List.lookup_eq_none_iff.mpr fun x hx => bne_iff_ne.mpr fun same => fresh ?_
        rw [same]
        exact List.mem_map_of_mem hx
      simp [missing]
    · rw [if_neg here, beq_eq_false_iff_ne.mpr here]

/-- The macro of a name in the table of a template, with the compilation that it came from. -/
def Template.macro? (t : Template) (name : String) : Option (CodeUnit × MacroDef) :=
  (t.macros.get? name).map fun d => (t.unit, d)

lemma Template.Compiled.distinct {t : Template} (ht : t.Compiled) : t.macros.Distinct := by
  obtain ⟨unit, s, policy, h⟩ := ht
  rw [(macros_of_compile h).2]
  exact Macros.distinct_ofDefs _

/-- A library that is registered goes before those registered earlier. -/
lemma MacroLibrary.get?_register {t : Template} (ht : t.Compiled) (l : MacroLibrary) (library name : String) :
    (l.register library t).get? name = (t.macro? name).or (l.get? name) :=
  Dict.get?_foldl_insert (fun d => (t.unit, d)) ht.distinct l.macros name

/-! ### Engines -/

namespace Engine

/-- The engines that are reached, whatever hosts they are used with, and the templates that they registered as
libraries, the latest first. -/
inductive Registered : List Template → Engine → Prop
  | initial (settings : Settings) : Registered [] (initial settings)
  | template {ts : List Template} {e : Engine} (h : Host) (name : String) :
    Registered ts e → Registered ts (e.template h name).2
  | accepted {ts : List Template} {e : Engine} {h : Host} {name : String} {t : Template} :
    Registered ts e → (e.template h name).1 = .ok t → Registered (t :: ts) (e.registerLibrary h name).2
  | refused {ts : List Template} {e : Engine} {h : Host} {name : String} {f : TemplateError} :
    Registered ts e → (e.template h name).1 = .error f → Registered ts (e.registerLibrary h name).2
  | serve {ts : List Template} {e : Engine} (h : Host) (σ : Store) (c : Context) (sink : Sink) {request : Request} :
    request.Compiled → Registered ts e → Registered ts (e.serve h σ c sink request).engine
  | evict {ts : List Template} {e : Engine} (name : String) :
    Registered ts e → Registered ts { e with cache := e.cache.evict name }
  | clear {ts : List Template} {e : Engine} : Registered ts e → Registered ts { e with cache := e.cache.clear }

variable {ts : List Template} {e : Engine}

lemma library_template (e : Engine) (h : Host) (name : String) : (e.template h name).2.library = e.library := rfl

lemma library_registerLibrary {h : Host} {name : String} {t : Template} (ht : (e.template h name).1 = .ok t) :
    (e.registerLibrary h name).2.library = e.library.register name t := by
  have library := e.library_template h name
  unfold registerLibrary
  generalize e.template h name = r at ht library
  obtain ⟨answer, e'⟩ := r
  cases ht
  exact congrArg (·.register name t) library

lemma library_registerLibrary_of_error {h : Host} {name : String} {f : TemplateError}
    (hf : (e.template h name).1 = .error f) : (e.registerLibrary h name).2.library = e.library := by
  have library := e.library_template h name
  unfold registerLibrary
  generalize e.template h name = r at hf library
  obtain ⟨answer, e'⟩ := r
  cases hf
  exact library

lemma library_renderCompiled (e : Engine) (h : Host) (t : Template) (σ : Store) (c : Context) (sink : Sink) :
    (e.renderCompiled h t σ c sink).engine.library = e.library := by
  unfold renderCompiled renderWithin
  cases Render.outermostWithin maxNesting t (e.env h) (e.start σ c sink) <;> rfl

/-- Rendering registers nothing. -/
lemma library_serve (e : Engine) (h : Host) (σ : Store) (c : Context) (sink : Sink) (request : Request) :
    (e.serve h σ c sink request).engine.library = e.library := by
  cases request with
  | named name =>
    have library := e.library_template h name
    dsimp only [serve, renderNamed]
    generalize e.template h name = r at library
    obtain ⟨answer, e'⟩ := r
    cases answer with
    | error f => exact library
    | ok t => exact (library_renderCompiled e' h t σ c sink).trans library
  | text text =>
    dsimp only [serve, renderText]
    cases e.inline text with
    | error f => rfl
    | ok t => exact library_renderCompiled e h t σ c sink
  | compiled t => exact library_renderCompiled e h t σ c sink

/-- The macros of a library are those of the templates that were registered, the latest first. -/
theorem Registered.get?_library (he : Registered ts e) : e.Stocked ∧ (∀ t ∈ ts, t.Compiled) ∧
    ∀ name, e.library.get? name = ts.findSome? (·.macro? name) := by
  induction he with
  | initial settings => exact ⟨⟨TemplateCache.stocked_empty _ _, nofun⟩, nofun, fun _ => rfl⟩
  | template h name _ ih => exact ⟨(ih.1.template h name).2, ih.2⟩
  | @accepted ts e h name t _ ht ih =>
    obtain ⟨stocked, compiled, library⟩ := ih
    have found := (stocked.template h name).1 t ht
    refine ⟨stocked.register h name, List.forall_mem_cons.mpr ⟨found, compiled⟩, fun other => ?_⟩
    rw [library_registerLibrary ht, MacroLibrary.get?_register found, library, List.findSome?_cons]
    cases t.macro? other <;> rfl
  | @refused ts e h name f _ hf ih =>
    obtain ⟨stocked, compiled, library⟩ := ih
    refine ⟨stocked.register h name, compiled, fun other => ?_⟩
    rw [library_registerLibrary_of_error hf, library]
  | @serve ts e h σ c sink request hr _ ih =>
    obtain ⟨stocked, compiled, library⟩ := ih
    refine ⟨stocked.serve h σ c sink hr, compiled, fun other => ?_⟩
    rw [library_serve, library]
  | evict name _ ih => exact ⟨⟨ih.1.cache.evict name, ih.1.library⟩, ih.2⟩
  | clear _ ih => exact ⟨⟨nofun, ih.1.library⟩, ih.2⟩

/-- The configured libraries are registered in order. -/
lemma Registered.registerAll {h : Host} {names : List String} {e' : Engine} (he : Registered ts e)
    (hr : e.registerAll h names = .ok e') :
    ∃ found, found.length = names.length ∧ Registered (found ++ ts) e' := by
  induction names generalizing ts e with
  | nil =>
    obtain rfl := Except.ok.inj hr
    exact ⟨[], rfl, he⟩
  | cons name names ih =>
    unfold Engine.registerAll at hr
    cases ht : (e.template h name).1 with
    | error f =>
      have stops : (e.registerLibrary h name).1 = .error f := by
        unfold registerLibrary
        generalize e.template h name = r at ht
        obtain ⟨answer, e'⟩ := r
        cases ht
        rfl
      generalize e.registerLibrary h name = r at hr stops
      obtain ⟨answer, next⟩ := r
      cases stops
      cases hr
    | ok t =>
      have next := he.accepted ht
      generalize e.registerLibrary h name = r at hr next
      obtain ⟨answer, e'⟩ := r
      cases answer with
      | error f => cases hr
      | ok _ =>
        obtain ⟨found, length, registered⟩ := ih next hr
        refine ⟨found ++ [t], by simp [length], ?_⟩
        rwa [List.append_assoc]

lemma registered_of_build {settings : Settings} {h : Host} (hb : build settings h = .ok e) :
    ∃ ts, ts.length = settings.macroLibraries.length ∧ Registered ts e := by
  unfold build at hb
  cases hv : settings.validate with
  | error f =>
    rw [hv] at hb
    cases hb
  | ok _ =>
    rw [hv] at hb
    have hb : (initial settings).registerAll h settings.macroLibraries = .ok e := hb
    obtain ⟨found, length, registered⟩ := Registered.registerAll (.initial settings) hb
    exact ⟨found, length, List.append_nil found ▸ registered⟩

/-! ### Renders -/

lemma macro?_eq {env : RenderEnv} (library : ∀ name, env.library.get? name = ts.findSome? (·.macro? name))
    (name : String) : env.macro? name = (env.templates ++ ts).findSome? (·.macro? name) := by
  rw [List.findSome?_append, ← library]
  exact Option.orElse_eq_or

/-- A macro call runs the definition that starts last in the innermost open template that has one of the name, and
otherwise in the template registered last of those that have one. The table of every compiled template has of each name
the definition that starts last, wherever in the tree, and no other names; and whatever an engine registered, when it
was set up and later, and rendered before, all code of a render finds macros in the open templates, the innermost
first, and then in those that were registered, the latest first. -/
theorem runs_last_definition (he : Registered ts e) :
    (∀ t : Template, t.Compiled → ∀ name,
      (∀ d, t.macros.get? name = some d ↔ ∃ p, t.root.DefinesLast name d p) ∧
        (t.macros.get? name = none ↔ ∀ d p, t.root.Defines d p → d.name ≠ name)) ∧
      (∀ t ∈ ts, t.Compiled) ∧
      (∀ settings h e', build settings h = .ok e' →
        ∃ us, us.length = settings.macroLibraries.length ∧ Registered us e') ∧
      ∀ h t σ c sink, Interpreter.Confined
        (fun env _ => ∀ name, env.macro? name = (env.templates ++ ts).findSome? (·.macro? name))
        (fun self => self.outermost t) (e.env h) (e.start σ c sink) := by
  obtain ⟨-, compiled, library⟩ := he.get?_library
  refine ⟨fun t ht name => Template.get?_macros ht name, compiled, fun _ _ _ => registered_of_build,
    fun h t σ c sink other depth => ?_⟩
  have all : Scoped fun _ => True := ⟨fun _ _ => trivial, fun _ => trivial⟩
  have near : Surrounding fun env => env.library = e.library := ⟨fun same _ _ _ => same, fun same _ => same⟩
  have start : ((e.env h).opening t).library = e.library := rfl
  have root := (@Scoped.holds_besideGuarded _
    (fun env _ => ∀ name, env.macro? name = (env.templates ++ ts).findSome? (·.macro? name)) other all _ near
    (fun same _ _ => macro?_eq fun name => same ▸ library name) depth _ start).2 t.root
  exact (all.lockstep.holds_outermost root (e.start σ c sink) trivial).same

/-- An engine with two libraries that define one macro, the first of them twice. -/
theorem runs_last_definition_overlapping :
    let h := Host.ofTemplates [("a", "#macro(m)1#end#if(true)#macro(m)2#end#end"), ("b", "#macro(m)3#end")] id
    let e := (((initial .standard).registerLibrary h "a").2.registerLibrary h "b").2
    ∃ t u, Registered [u, t] e ∧
      (∀ name d, t.macros.get? name = some d ↔ ∃ p, t.root.DefinesLast name d p) ∧
      ∀ σ c sink, Interpreter.Confined
        (fun env _ => ∀ name, env.macro? name = (env.templates ++ [u, t]).findSome? (·.macro? name))
        (fun self => self.outermost t) (e.env h) (e.start σ c sink) := by
  intro h e
  have first : ((initial .standard).template h "a").1.toBool = true := by decide +kernel
  have second : (((initial .standard).registerLibrary h "a").2.template h "b").1.toBool = true := by decide +kernel
  cases ht : ((initial .standard).template h "a").1 with
  | error f =>
    rw [ht] at first
    cases first
  | ok t =>
    cases hu : (((initial .standard).registerLibrary h "a").2.template h "b").1 with
    | error f =>
      rw [hu] at second
      cases second
    | ok u =>
      have registered : Registered [u, t] e := .accepted (.accepted (.initial .standard) ht) hu
      have facts := runs_last_definition registered
      have compiled := facts.2.1 t (List.mem_cons_of_mem _ (List.mem_singleton_self t))
      exact ⟨t, u, registered, fun name => (facts.1 t compiled name).1, facts.2.2.2 h t⟩

end Engine

end Stencil
