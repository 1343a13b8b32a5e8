import Stencil.Proofs.Fitness
import Stencil.Proofs.History
import Stencil.Proofs.Nesting

/-!
# What no render meets

An interpreter may do something else in place of the words, assignments and `#break`s that compiling refuses. On
compiled templates, and with whatever they parse, call and evaluate, that makes no difference. Main statements:
`Engine.never_unfit` and `Template.compiles_exactly`.
-/

namespace Stencil

/-! ### Caches that hold compiled templates -/

lemma Template.Compiled.inUnit {t : Template} (h : t.Compiled) (u : CodeUnit) : (t.inUnit u).Compiled := by
  obtain ⟨unit, s, policy, h⟩ := h
  refine ⟨u, s, policy, ?_⟩
  rw [compile_inUnit] at h ⊢
  cases hc : compile .inline s policy with
  | error e =>
    rw [hc] at h
    cases h
  | ok t' =>
    rw [hc] at h
    cases h
    rfl

/-- A cache that holds compiled templates only. -/
def TemplateCache.Stocked (c : TemplateCache) : Prop := ∀ e ∈ c.entries.entries, e.2.template.Compiled

/-- An answer that is a compiled template, if any, with a cache that holds such templates only. -/
structure Consulted.Stocked (r : Consulted Template) : Prop where
  cache : r.cache.Stocked
  answer : ∀ t, r.answer = .ok t → t.Compiled

namespace TemplateCache

variable {c : TemplateCache}

lemma stocked_empty (interval : Nat) (gobbling : GobblingPolicy) : (empty interval gobbling).Stocked := nofun

lemma Stocked.evict (h : c.Stocked) (name : String) : (c.evict name).Stocked :=
  fun e he => h e (List.mem_of_mem_filter he)

lemma Stocked.store (h : c.Stocked) (name : String) {e : CacheEntry} (he : e.template.Compiled) :
    (c.store name e).Stocked := by
  intro x hx
  rcases Dict.mem_entries_insert hx with rfl | hx
  · exact he
  · exact h x hx

variable {d : TemplateCache} {loaders : List Loader} {now place : Nat} {name : String} {l : Loader}

/-- Compiling a name adds nothing to the cache, and what it answers is compiled. -/
lemma CompilesBy.stocked {answer : Except TemplateError (Option CacheEntry)}
    (h : CompilesBy c now name place l answer d) (hc : c.Stocked) :
    d.Stocked ∧ ∀ e, answer = .ok (some e) → e.template.Compiled := by
  cases h with
  | failing _ => exact ⟨hc, nofun⟩
  | absent _ => exact ⟨hc, nofun⟩
  | faulty _ _ => exact ⟨hc, nofun⟩
  | compiled _ ht =>
    refine ⟨hc, ?_⟩
    rintro e ⟨⟩
    exact ⟨_, _, _, ht⟩

/-- A search for a name adds at most a compiled template, which is the answer then. -/
lemma Searches.stocked {answer : Except TemplateError Template} (h : Searches c loaders now name answer d)
    (hc : c.Stocked) : d.Stocked ∧ ∀ t, answer = .ok t → t.Compiled := by
  cases h with
  | nowhere _ => exact ⟨hc, nofun⟩
  | refused _ _ step => exact ⟨(step.stocked hc).1, nofun⟩
  | found _ _ step =>
    obtain ⟨stocked, compiled⟩ := step.stocked hc
    refine ⟨stocked.store name (compiled _ rfl), ?_⟩
    rintro t ⟨⟩
    exact compiled _ rfl

/-- A cache of compiled templates answers with compiled templates and stays such a cache. -/
theorem Stocked.get (h : c.Stocked) (loaders : List Loader) (now : Nat) (name : String) :
    (c.get loaders now name).Stocked := by
  have held {e : CacheEntry} (he : c.entries.get? name = some e) : e.template.Compiled :=
    h _ (Dict.mem_entries_of_get? he)
  have stays : (c.get loaders now name).cache.Stocked ∧
      ∀ t, (c.get loaders now name).answer = .ok t → t.Compiled := by
    have way := c.gets loaders now name
    generalize (c.get loaders now name).answer = answer, (c.get loaders now name).cache = d at way ⊢
    cases way with
    | missing _ search => exact search.stocked h
    | held he _ =>
      refine ⟨h, ?_⟩
      rintro t ⟨⟩
      exact held he
    | checked he _ _ _ _ =>
      have compiled := held he
      refine ⟨h.store name compiled, ?_⟩
      rintro t ⟨⟩
      exact compiled
    | renewed _ _ _ _ _ step =>
      obtain ⟨stocked, compiled⟩ := step.stocked h
      refine ⟨stocked.store name (compiled _ rfl), ?_⟩
      rintro t ⟨⟩
      exact compiled _ rfl
    | refused _ _ _ _ _ step => exact ⟨(step.stocked h).1.evict name, nofun⟩
    | gone _ _ _ search => exact search.stocked (h.evict name)
  exact ⟨stays.1, stays.2⟩

end TemplateCache

/-! ### Surroundings of compiled templates -/

/-- Whether a macro is one of a compiled template. -/
def MacroDef.Compiled (d : MacroDef) : Prop := ∃ t : Template, t.Compiled ∧ ∃ e ∈ t.macros.entries, e.2 = d

lemma MacroDef.Compiled.fit {d : MacroDef} (h : d.Compiled) : d.Fit := by
  obtain ⟨t, ht, e, he, rfl⟩ := h
  exact ht.fit.macros e he

/-- A library of macros of compiled templates. -/
def MacroLibrary.Compiled (l : MacroLibrary) : Prop := ∀ e ∈ l.macros.entries, e.2.2.Compiled

lemma MacroLibrary.Compiled.register {l : MacroLibrary} (h : l.Compiled) (name : String) {t : Template}
    (ht : t.Compiled) : (l.register name t).Compiled :=
  Dict.forall_entries_foldl_insert (P := fun v : CodeUnit × MacroDef => v.2.Compiled) Prod.fst
    (fun e => (t.unit, e.2)) h fun e he => ⟨t, ht, e, he, rfl⟩

/-- Surroundings in which every macro is one of a compiled template. -/
structure RenderEnv.Compiled (env : RenderEnv) : Prop where
  templates : ∀ t ∈ env.templates, t.Compiled
  library : env.library.Compiled

namespace RenderEnv.Compiled

variable {env : RenderEnv}

lemma calling (h : env.Compiled) (name : String) (u : CodeUnit) : (env.calling name u).Compiled :=
  ⟨h.templates, h.library⟩

lemma opening (h : env.Compiled) {t : Template} (ht : t.Compiled) : (env.opening t).Compiled :=
  ⟨List.forall_mem_cons.mpr ⟨ht, h.templates⟩, h.library⟩

lemma macro? (h : env.Compiled) {name : String} {u : CodeUnit} {d : MacroDef}
    (hm : env.macro? name = some (u, d)) : d.Compiled := by
  unfold RenderEnv.macro? at hm
  cases hf : env.templates.findSome? fun t => (t.macros.get? name).map fun d => (t.unit, d) with
  | some found =>
    rw [hf] at hm
    cases hm
    obtain ⟨t, ht, hd⟩ := List.exists_of_findSome?_eq_some hf
    obtain ⟨d', hd, same⟩ := Option.map_eq_some_iff.mp hd
    cases same
    exact ⟨t, h.templates t ht, _, Dict.mem_entries_of_get? hd, rfl⟩
  | none =>
    rw [hf] at hm
    exact h.library _ (Dict.mem_entries_of_get? hm)

end RenderEnv.Compiled

/-! ### Screened renders -/

namespace Interpreter

/-- Renders a node, or does what another interpreter does where it is unfit. -/
def screenedNode (self other : Interpreter) (n : Node) : Render Flow :=
  if n.kind.isUnfit then other.render [n] else self.node n

def screenedBlock (self other : Interpreter) : Block → Render Flow
  | [] => return .next
  | n :: ns => do
    match ← self.screenedNode other n with
    | .next => self.screenedBlock other ns
    | flow => return flow

/-- The interpreter that follows code nested at most `depth` deep, and does what another one does in place of every
word without quotes whose value is asked for, every assignment to a method call and every `#break` with a label
that no scope answers to. -/
def screened (other : Interpreter) : Nat → Interpreter
  | 0 => .ofDepth 0
  | depth + 1 =>
    { eval := fun lenient e =>
        if e.isWord then other.eval lenient e else (screened other depth).evaluate lenient e
      render := fun b => (screened other depth).screenedBlock other b }

/-- An interpreter of some depth beside the screened one. -/
def besideScreened (other : Interpreter) (depth : Nat) : Bool → Interpreter
  | false => .ofDepth depth
  | true => .screened other depth

end Interpreter

namespace Screening

variable {α β : Type}

/-- Outcomes of a screened step and of the step itself: they are the same, with a cache of compiled templates. -/
structure Alike (screened plain : Outcome α) : Prop where
  same : screened = plain
  stocked : plain.state.cache.Stocked

lemma Alike.next {r r' : Outcome α} (h : Alike r r') {f g : α → RenderState → Outcome β}
    (hf : ∀ x t, t.cache.Stocked → Alike (f x t) (g x t)) : Alike (r.next f) (r'.next g) := by
  obtain ⟨rfl, stocked⟩ := h
  cases r with
  | ok x t => exact hf x t stocked
  | error halt t => exact ⟨rfl, stocked⟩

lemma Alike.leaving {r r' : Outcome α} (h : Alike r r') {leave : RenderState → RenderState}
    (hl : ∀ t, (leave t).cache = t.cache) : Alike (r.leaving leave) (r'.leaving leave) := by
  obtain ⟨rfl, stocked⟩ := h
  refine ⟨rfl, ?_⟩
  rw [Outcome.state_leaving, hl]
  exact stocked

lemma Alike.telling {r r' : Outcome α} (h : Alike r r') (f : TemplateError → TemplateError) :
    Alike (r.telling f) (r'.telling f) := by
  obtain ⟨rfl, stocked⟩ := h
  refine ⟨rfl, ?_⟩
  rwa [Outcome.state_telling]

lemma cache_of_plain {f : RenderState → RenderState} (hf : RenderState.Plain fun s => ((), f s)) (s : RenderState) :
    (f s).cache = s.cache :=
  congrArg Memos.cache (hf.memos s)

lemma cache_chosen (p : Position) (q : MemberRequest) (env : RenderEnv) (s : RenderState) :
    (Outcome.state (Render.chosen p q env s)).cache = s.cache := by
  rw [Render.chosen_eq]
  cases s.choices.lookup ⟨env.unit, p.span.start, q⟩ with
  | some choice => rfl
  | none => cases (s.memory.resolve env.types q).1 <;> rfl

/-- Renders that start from the same state with a cache of compiled templates. -/
def lockstep : Lockstep Bool where
  toSurroundings := .sameWith Template.Compiled Template.compiled_of_compile
  Holds env m := ∀ s, s.cache.Stocked → Alike (m true (env true) s) (m false (env false) s)
  holds_pure x s hs := ⟨rfl, hs⟩
  holds_bind hm hf s hs := by
    simp only [Render.bind_apply]
    exact (hm s hs).next hf
  holds_raise e s hs := ⟨rfl, hs⟩
  holds_unless := by
    rintro α env _ m e ⟨strict, rfl⟩ hm
    cases strict with
    | true => exact fun s hs => ⟨rfl, hs⟩
    | false => exact hm
  holds_read hf s hs := hf s hs
  holds_get _ hf s hs := hf s s hs
  holds_change _ s hs := ⟨rfl, hs⟩
  holds_put name v s hs := ⟨rfl, (cache_of_plain (RenderState.plain_put name v) s).symm ▸ hs⟩
  holds_emit t s hs := by
    simp only [Render.emit_apply]
    rcases s.sink.write t with ⟨_ | f, sink⟩
    · exact ⟨rfl, hs⟩
    · exact ⟨rfl, hs⟩
  holds_captured hm s hs := by
    simp only [Outcome.captured_eq]
    have text := (hm { s with sink := .empty } hs).next fun x t ht =>
      (⟨rfl, ht⟩ : Alike (.ok (x, t.sink.written) t) (.ok (x, t.sink.written) t))
    exact text.leaving fun _ => rfl
  holds_inFrame hm s hs := (hm { s with frames := ∅ :: s.frames } hs).leaving fun _ => rfl
  holds_restoreLoop var item status hm s hs :=
    (hm s hs).leaving (cache_of_plain (RenderState.plain_restoreLoop var item status))
  holds_onError _ hm s hs := (hm s hs).telling _
  holds_withReader hm := hm
  holds_chosen := by
    rintro _ ⟨e, rfl⟩ p q s hs
    obtain ⟨x, t, h, -⟩ := Render.chosen_ok p q e s
    have kept := cache_chosen p q e s
    rw [h] at kept
    simp only [h]
    exact ⟨rfl, kept.symm ▸ hs⟩
  holds_template := by
    rintro α _ f ⟨e, rfl⟩ he hf name s hs
    have found := hs.get e.loaders (e.clock s.readings) name
    have run : Render.template name e s =
        .ok (s.cache.get e.loaders (e.clock s.readings) name).answer
          { s with
            cache := (s.cache.get e.loaders (e.clock s.readings) name).cache
            readings := s.readings + 1 } := rfl
    simp only [Render.bind_apply, run]
    cases ha : (s.cache.get e.loaders (e.clock s.readings) name).answer with
    | error failure => exact he failure _ found.cache
    | ok t => exact hf t _ (found.answer t ha) ⟨t.unit, rfl⟩ _ found.cache
  holds_resource := by
    rintro _ ⟨e, rfl⟩ name s hs
    refine ⟨rfl, ?_⟩
    show (s.cache.readText name 0 e.loaders).cache.Stocked
    rw [TemplateCache.cache_readText]
    exact hs
  holds_nextUnit hf s hs := hf (fun _ => .evaluated s.evaluated) ⟨_, rfl⟩ (fun _ => ⟨_, rfl⟩) _ hs

open Interpreter (besideScreened)

variable {env : RenderEnv} {other : Interpreter}

/-- A block of nodes that are fit is rendered as it is. -/
lemma holds_screenedBlock {self : Bool → Interpreter} {b : Block}
    (h : ∀ n ∈ b, n.kind.isUnfit = false ∧ lockstep.Holds (fun _ => env) fun i => (self i).node n) :
    lockstep.Holds (fun _ => env) fun
      | false => (self false).block b
      | true => (self true).screenedBlock other b := by
  induction b with
  | nil => exact lockstep.holds_congr (lockstep.holds_pure Flow.next) fun i => by cases i <;> rfl
  | cons n b ih =>
    obtain ⟨fit, first⟩ := h n (List.mem_cons_self ..)
    have later := ih fun x hx => h x (List.mem_cons_of_mem _ hx)
    refine lockstep.holds_congr (lockstep.holds_bind first (lockstep.holds_before later)) fun i => ?_
    cases i with
    | false => exact (self false).block_cons n b
    | true =>
      have kept : (self true).screenedNode other n = (self true).node n := by
        unfold Interpreter.screenedNode
        rw [fit]
        rfl
      show (self true).screenedBlock other (n :: b) = (self true).node n >>= Flow.before _
      rw [← kept, Interpreter.screenedBlock]
      congr

lemma fit_exprs {n : Node} (h : n.Fit) : ∀ e ∈ n.kind.exprs, e.isWord = false ∧ e.Fit := by
  intro e he
  have sub : e ∈ n.kind.subexprs := by
    obtain ⟨kind, p⟩ := n
    cases kind with
    | macroDef d => cases he
    | _ => exact he
  exact ⟨h.kind.noWord e sub, h.exprs e sub⟩

lemma fit_blocks {n : Node} (h : n.Fit) : ∀ b ∈ n.kind.blocks, Block.Fit b := by
  intro b hb
  obtain ⟨kind, p⟩ := n
  cases kind with
  | macroDef d => cases hb
  | _ => exact h.blocks b hb

/-- Where all code is fit, a screened interpreter agrees with the one that screens nothing: by induction on the
depth, since what fit code calls is fit again. -/
theorem holds_besideScreened (other : Interpreter) (depth : Nat) {env : RenderEnv} (he : env.Compiled) :
    (∀ e : Expr, e.isWord = false → e.Fit → lockstep.Evaluates (besideScreened other depth) (fun _ => env) e) ∧
      ∀ b : Block, b.Fit → lockstep.Renders (besideScreened other depth) (fun _ => env) b := by
  induction depth generalizing env with
  | zero =>
    have given_up (i : Bool) : besideScreened other 0 i = .ofDepth 0 := by cases i <;> rfl
    constructor
    · intro e _ _ lenient s hs
      simp only [given_up]
      exact ⟨rfl, hs⟩
    · intro b _ s hs
      simp only [given_up]
      exact ⟨rfl, hs⟩
  | succ depth ih =>
    have around : lockstep.Around fun _ => env := ⟨env, rfl⟩
    have callees : lockstep.Callees (besideScreened other depth) fun _ => env :=
      { calling := by
          rintro name _ d ⟨u, rfl⟩ hm -
          have fit := (he.macro? (hm false)).fit
          have inner := ih (he.calling d.name u)
          exact ⟨fun q hq e h => inner.1 e (fit.noWord q hq e h) (fit.fallback q hq e h), inner.2 d.body fit.body⟩
        parsing := by
          rintro _ ⟨u, rfl⟩ t ht -
          exact (ih (he.opening (ht.inUnit u))).2 t.root ht.fit.root
        evaluating := by
          rintro _ ⟨u, rfl⟩ - t ht
          exact (ih (he.opening (ht.inUnit u))).2 t.root ht.fit.root }
    constructor
    · intro e hw fit lenient
      have value : lockstep.Holds (fun _ => env) fun i => (besideScreened other depth i).evaluate lenient e :=
        lockstep.holds_evaluate around (fun x hx => (ih he).1 x (fit.kind x hx) (fit.exprs x hx))
          (fun b hb => (ih he).2 b (fit.blocks b hb)) lenient
      refine lockstep.holds_congr value fun i => ?_
      cases i with
      | false => rfl
      | true =>
        show (if e.isWord then _ else _) = _
        rw [hw]
        rfl
    · intro b fit
      have nodes : ∀ n ∈ b, n.kind.isUnfit = false ∧
          lockstep.Holds (fun _ => env) fun i => (besideScreened other depth i).node n :=
        fun n hn => ⟨(fit n hn).kind.notUnfit, lockstep.holds_node around callees
          (fun e he' => (ih he).1 e (fit_exprs (fit n hn) e he').1 (fit_exprs (fit n hn) e he').2)
          fun b hb => (ih he).2 b (fit_blocks (fit n hn) b hb)⟩
      have block := @holds_screenedBlock env other _ _ nodes
      refine lockstep.holds_congr block fun i => ?_
      cases i <;> rfl

end Screening

/-! ### Engines -/

/-- An engine whose library and whose cache come from compiled templates. -/
structure Engine.Stocked (e : Engine) : Prop where
  cache : e.cache.Stocked
  library : e.library.Compiled

/-- Whether a request is for a compiled template, where it brings its own. -/
def Request.Compiled : Request → Prop
  | .compiled t => t.Compiled
  | _ => True

/-- The engines that are reached, whatever hosts they were used with: they are set up, are asked for templates,
register libraries, render, and forget what they have in their cache. -/
inductive Engine.Used : Engine → Prop
  | build {settings : Settings} {h : Host} {e : Engine} : Engine.build settings h = .ok e → Used e
  | template {e : Engine} (h : Host) (name : String) : Used e → Used (e.template h name).2
  | register {e : Engine} (h : Host) (name : String) : Used e → Used (e.registerLibrary h name).2
  | serve {e : Engine} (h : Host) (σ : Store) (c : Context) (sink : Sink) {request : Request} :
    request.Compiled → Used e → Used (e.serve h σ c sink request).engine
  | evict {e : Engine} (name : String) : Used e → Used { e with cache := e.cache.evict name }
  | clear {e : Engine} : Used e → Used { e with cache := e.cache.clear }

namespace Engine

variable {e : Engine} {t : Template}

lemma Stocked.env (he : e.Stocked) (h : Host) : (e.env h).Compiled := ⟨nofun, he.library⟩

lemma Stocked.template (he : e.Stocked) (h : Host) (name : String) :
    (∀ t, (e.template h name).1 = .ok t → t.Compiled) ∧ (e.template h name).2.Stocked :=
  have found := he.cache.get (e.settings.allLoaders h) (h.clock e.readings) name
  ⟨found.answer, found.cache, he.library⟩

lemma Stocked.register (he : e.Stocked) (h : Host) (name : String) : (e.registerLibrary h name).2.Stocked := by
  have found := he.template h name
  unfold registerLibrary
  generalize e.template h name = r at found
  obtain ⟨answer, e'⟩ := r
  obtain ⟨compiled, stocked⟩ := found
  cases answer with
  | error f => exact stocked
  | ok t => exact ⟨stocked.cache, stocked.library.register name (compiled t rfl)⟩

/-- Rendering a compiled template is not changed by screening, and leaves compiled templates in the cache. -/
lemma Stocked.outermost (he : e.Stocked) (h : Host) (ht : t.Compiled) (σ : Store) (c : Context) (sink : Sink)
    (other : Interpreter) (depth : Nat) :
    Screening.Alike ((Interpreter.screened other depth).outermost t (e.env h) (e.start σ c sink))
      ((Interpreter.ofDepth depth).outermost t (e.env h) (e.start σ c sink)) := by
  have root := (Screening.holds_besideScreened other depth ((he.env h).opening ht)).2 t.root ht.fit.root
  exact Screening.lockstep.holds_outermost (t := t) (u := fun _ => t.unit) root (e.start σ c sink) he.cache

lemma Stocked.finish (he : e.Stocked) (halt : Option Halt) {s : RenderState} (hs : s.cache.Stocked) :
    (e.finish halt s).engine.Stocked := ⟨hs, he.library⟩

lemma Stocked.renderCompiled (he : e.Stocked) (h : Host) (ht : t.Compiled) (σ : Store) (c : Context) (sink : Sink) :
    (e.renderCompiled h t σ c sink).engine.Stocked := by
  have alike := he.outermost h ht σ c sink (.ofDepth 0) maxNesting
  rw [Interpreter.outermost_ofDepth] at alike
  have cache := alike.stocked
  unfold Engine.renderCompiled renderWithin
  generalize Render.outermostWithin maxNesting t (e.env h) (e.start σ c sink) = r at cache
  cases r with
  | ok x s => exact he.finish none cache
  | error halt s => exact he.finish _ cache

lemma Stocked.serve (he : e.Stocked) (h : Host) (σ : Store) (c : Context) (sink : Sink) {request : Request}
    (hr : request.Compiled) : (e.serve h σ c sink request).engine.Stocked := by
  cases request with
  | named name =>
    have found := he.template h name
    dsimp only [Engine.serve, renderNamed]
    generalize e.template h name = r at found
    obtain ⟨answer, e'⟩ := r
    obtain ⟨compiled, stocked⟩ := found
    cases answer with
    | error f => exact stocked
    | ok t => exact stocked.renderCompiled h (compiled t rfl) σ c sink
  | text text =>
    dsimp only [Engine.serve, renderText]
    cases ht : e.inline text with
    | error f => exact he
    | ok t => exact he.renderCompiled h ⟨_, _, _, ht⟩ σ c sink
  | compiled t => exact he.renderCompiled h hr σ c sink

lemma Stocked.registerAll {names : List String} (he : e.Stocked) {h : Host} {e' : Engine}
    (hr : e.registerAll h names = .ok e') : e'.Stocked := by
  induction names generalizing e with
  | nil =>
    obtain rfl := Except.ok.inj hr
    exact he
  | cons name names ih =>
    have step := he.register h name
    unfold Engine.registerAll at hr
    generalize e.registerLibrary h name = r at hr step
    obtain ⟨answer, next⟩ := r
    cases answer with
    | error f => cases hr
    | ok _ => exact ih step hr

/-- Engines hold compiled templates only. -/
theorem Used.stocked (he : e.Used) : e.Stocked := by
  induction he with
  | build hb =>
    rename_i settings h e
    unfold Engine.build at hb
    cases hv : settings.validate with
    | error f =>
      rw [hv] at hb
      cases hb
    | ok _ =>
      rw [hv] at hb
      refine Stocked.registerAll ?_ hb
      exact ⟨TemplateCache.stocked_empty _ _, nofun⟩
  | template h name _ ih => exact (ih.template h name).2
  | register h name _ ih => exact ih.register h name
  | serve h σ c sink hr _ ih => exact ih.serve h σ c sink hr
  | evict name _ ih => exact ⟨ih.cache.evict name, ih.library⟩
  | clear _ ih => exact ⟨nofun, ih.library⟩

/-- No render of a compiled template meets a word without quotes as a value, an assignment to a method call or a
`#break` with a label that no scope answers to: what would be done there makes no difference. -/
theorem never_unfit (he : e.Used) (h : Host) (ht : t.Compiled) (σ : Store) (c : Context) (sink : Sink)
    (other : Interpreter) (depth : Nat) :
    e.renderBy h t σ c sink (.screened other depth) = e.renderWithin depth h t σ c sink := by
  have alike := he.stocked.outermost h ht σ c sink other depth
  rw [← renderBy_ofDepth]
  unfold renderBy
  rw [alike.same]

end Engine

/-! ### What compiling promises -/

namespace Template

/-- Compiling accepts exactly the well-formed trees. A text compiles if and only if it parses as a tree with nothing
wrong at any place; otherwise all that is wrong is reported, the failure itself where there is one. Templates that an
engine answers are compiled, and no render of a compiled template meets what compiling refuses. -/
theorem compiles_exactly :
    (∀ unit s policy f, parse s policy = .error f → compile unit s policy = .error f) ∧
    (∀ unit s policy,
      (∃ t, compile unit s policy = .ok t) ↔ ∃ root, parse s policy = .ok root ∧ root.WellFormed) ∧
    (∀ unit s policy root, parse s policy = .ok root → ¬root.WellFormed →
      ∃ fs, fs.Perm root.violations ∧ fs ≠ [] ∧ compile unit s policy = .error (.reporting s fs)) ∧
    ∀ e : Engine, e.Used → ∀ h : Host,
      (∀ name t, (e.template h name).1 = .ok t → t.Compiled) ∧
      ∀ t : Template, t.Compiled → ∀ σ c sink other depth,
        e.renderBy h t σ c sink (.screened other depth) = e.renderWithin depth h t σ c sink := by
  refine ⟨?_, ?_, ?_, ?_⟩
  · intro unit s policy f hf
    unfold compile
    rw [hf]
  · intro unit s policy
    constructor
    · rintro ⟨t, ht⟩
      have parsed := parse_of_compile ht
      obtain ⟨formed, -⟩ | ⟨-, fs, -, hf⟩ := compile_of_parse unit parsed
      · exact ⟨t.root, parsed, formed⟩
      · rw [ht] at hf
        cases hf
    · rintro ⟨root, parsed, formed⟩
      obtain ⟨-, ht⟩ | ⟨unformed, -⟩ := compile_of_parse unit parsed
      · exact ⟨_, ht⟩
      · exact absurd formed unformed
  · intro unit s policy root parsed unformed
    obtain ⟨formed, -⟩ | ⟨-, fs, found, hf⟩ := compile_of_parse unit parsed
    · exact absurd formed unformed
    · refine ⟨fs, found, ?_, hf⟩
      rintro rfl
      exact unformed (Block.violations_eq_nil_iff.mp found.symm.eq_nil)
  · intro e he h
    exact ⟨fun name t ht => (he.stocked.template h name).1 t ht,
      fun t ht σ c sink other depth => Engine.never_unfit he h ht σ c sink other depth⟩

/-- A `#break` in a string, with a label that no scope answers to. -/
def strayBreak : Source := ⟨"t.vm", "#set($s = \"#break($x)\")"⟩

/-- Whether a block is an assignment of a string with such a `#break` in it. -/
def assignsStrayBreak : Except TemplateError Block → Bool
  | .ok [⟨.assign ⟨_, _, [], _, _⟩ ⟨.interpolated [⟨.leave (.unknown "x"), _⟩], _⟩, _⟩] => true
  | _ => false

lemma parse_strayBreak : ∃ r p q o, parse strayBreak .none =
    .ok [⟨.assign r ⟨.interpolated [⟨.leave (.unknown "x"), p⟩], q⟩, o⟩] ∧ r.segments = [] := by
  have shape : assignsStrayBreak (parse strayBreak .none) = true := by decide +kernel
  unfold assignsStrayBreak at shape
  split at shape
  · next h => exact ⟨_, _, _, _, h, rfl⟩
  · cases shape

lemma spots_strayBreak {r : Reference} (hr : r.segments = []) (p q o : Position) :
    Block.spots [⟨.assign r ⟨.interpolated [⟨.leave (.unknown "x"), p⟩], q⟩, o⟩] =
      [⟨⟨false, false⟩, .node ⟨.assign r ⟨.interpolated [⟨.leave (.unknown "x"), p⟩], q⟩, o⟩⟩,
        ⟨⟨false, false⟩, .expr ⟨.interpolated [⟨.leave (.unknown "x"), p⟩], q⟩⟩,
        ⟨⟨false, true⟩, .node ⟨.leave (.unknown "x"), p⟩⟩] := by
  have path : r.exprs = [] := by
    unfold Reference.exprs
    rw [hr]
    rfl
  have inString : Spot.all ⟨⟨false, true⟩, .node ⟨.leave (.unknown "x"), p⟩⟩ =
      [⟨⟨false, true⟩, .node ⟨.leave (.unknown "x"), p⟩⟩] := by
    rw [Spot.all_eq]
    rfl
  have value : Spot.all ⟨⟨false, false⟩, .expr ⟨.interpolated [⟨.leave (.unknown "x"), p⟩], q⟩⟩ =
      [⟨⟨false, false⟩, .expr ⟨.interpolated [⟨.leave (.unknown "x"), p⟩], q⟩⟩,
        ⟨⟨false, true⟩, .node ⟨.leave (.unknown "x"), p⟩⟩] := by
    rw [Spot.all_eq]
    exact congrArg (_ :: ·) ((List.append_nil _).trans inString)
  have parts : Spot.parts ⟨⟨false, false⟩, .node ⟨.assign r ⟨.interpolated [⟨.leave (.unknown "x"), p⟩], q⟩, o⟩⟩ =
      [⟨⟨false, false⟩, .expr ⟨.interpolated [⟨.leave (.unknown "x"), p⟩], q⟩⟩] := by
    show ((⟨.interpolated [⟨.leave (.unknown "x"), p⟩], q⟩ :: r.exprs).map fun x => (⟨⟨false, false⟩, .expr x⟩ : Spot)) ++
      [] = _
    rw [path]
    rfl
  unfold Block.spots
  rw [List.flatMap_singleton, Spot.all_eq, parts, List.flatMap_singleton, value]

/-- A `#break` in a string with a label that no scope answers to breaks two rules at one place, and a single failure
is reported, of the string alone. -/
theorem one_failure_of_two :
    ∃ root p, parse strayBreak .none = .ok root ∧ ⟨⟨false, true⟩, .node ⟨.leave (.unknown "x"), p⟩⟩ ∈ root.spots ∧
      compile .inline strayBreak .none =
        .error (.single ((Failure.at_ (.init .flowInString) p).inSource strayBreak)) := by
  obtain ⟨r, p, q, o, parsed, hr⟩ := parse_strayBreak
  have spots := spots_strayBreak hr p q o
  have last : r.lastCall? = none := by
    unfold Reference.lastCall?
    rw [hr]
    rfl
  have violations : Block.violations [⟨.assign r ⟨.interpolated [⟨.leave (.unknown "x"), p⟩], q⟩, o⟩] =
      [.at_ (.init .flowInString) p] := by
    unfold Block.violations
    rw [spots]
    show (r.lastCall?.toList.map _) ++ _ = _
    rw [last]
    rfl
  refine ⟨_, p, parsed, ?_, ?_⟩
  · rw [spots]
    simp
  · obtain ⟨formed, -⟩ | ⟨-, fs, found, hf⟩ := compile_of_parse .inline parsed
    · rw [← Block.violations_eq_nil_iff, violations] at formed
      cases formed
    · rw [violations] at found
      obtain rfl := List.perm_singleton.mp found
      exact hf

/-- A call with two words for arguments does not compile, and with two strings it compiles and is rendered as it
is. -/
theorem compiles_exactly_calls :
    (∃ root fs, parse ⟨"t.vm", "#m(a b)"⟩ .none = .ok root ∧ ¬root.WellFormed ∧ fs.Perm root.violations ∧
      compile .inline ⟨"t.vm", "#m(a b)"⟩ .none = .error (.reporting ⟨"t.vm", "#m(a b)"⟩ fs)) ∧
    ∃ e t, Engine.build .standard (.ofTemplates [] id) = .ok e ∧ e.Used ∧
      compile .inline ⟨"t.vm", "#m('a' \"$b\")"⟩ .none = .ok t ∧
      e.renderBy (.ofTemplates [] id) t .empty .empty .empty (.screened (.ofDepth 0) 5) =
        e.renderWithin 5 (.ofTemplates [] id) t .empty .empty .empty := by
  obtain ⟨-, accepted, reported, rendered⟩ := compiles_exactly
  have success {α : Type} {r : Except TemplateError α} (h : r.isOk = true) : ∃ x, r = .ok x := by
    cases r with
    | ok x => exact ⟨x, rfl⟩
    | error e => cases h
  constructor
  · have parses : (parse ⟨"t.vm", "#m(a b)"⟩ .none).isOk = true := by decide +kernel
    have refused : (compile .inline ⟨"t.vm", "#m(a b)"⟩ .none).isOk = false := by decide +kernel
    obtain ⟨root, parsed⟩ := success parses
    have unformed : ¬root.WellFormed := by
      intro formed
      obtain ⟨t, ht⟩ := (accepted .inline _ _).mpr ⟨root, parsed, formed⟩
      rw [ht] at refused
      cases refused
    obtain ⟨fs, found, -, hf⟩ := reported .inline _ _ root parsed unformed
    exact ⟨root, fs, parsed, unformed, found, hf⟩
  · have compiles : (compile .inline ⟨"t.vm", "#m('a' \"$b\")"⟩ .none).isOk = true := by decide +kernel
    obtain ⟨t, ht⟩ := success compiles
    have built := Engine.build_initial Settings.validate_standard rfl (.ofTemplates [] id)
    have used : Engine.Used _ := .build built
    exact ⟨_, t, built, used, ht, (rendered _ used _).2 t ⟨_, _, _, ht⟩ _ _ _ _ _⟩

end Template

end Stencil
