import Stencil.Proofs.Reports
import Stencil.Proofs.Screening

/-!
# Failures point into sources

A failure gets a source late, from the first macro call, template or text that it leaves. What runs there is placed
in that source, and so is the position of the failure, but for one kind of failure: a call that is refused for its
depth is placed where the call is, and gets the source of the macro. Main statement: `Engine.points_into_source`.
-/

namespace Stencil

/-- Whether a failure is a macro call that was refused because too many were in progress. -/
def Cause.isMacroDepth : Cause → Bool
  | .macroDepth .. => true
  | _ => false

namespace Failure

/-- A failure that has no position, or tells the source in which its position is exact. -/
def Located (f : Failure) : Prop := ∀ p ∈ f.position, ∃ s ∈ f.source, p.Exact s

/-- A failure in code of a source: its position is exact in the source that it tells, or in that of the code while it
tells none. A macro call that was refused for its depth may tell another source. -/
def PointsFrom (s : Source) (f : Failure) : Prop :=
  ∀ p ∈ f.position, ∃ home, p.Exact home ∧ (f.source.getD s = home ∨ f.cause.isMacroDepth = true)

variable {s : Source} {f : Failure}

lemma Located.pointsFrom (h : f.Located) (s : Source) : f.PointsFrom s := by
  intro p hp
  obtain ⟨home, hs, exact_⟩ := h p hp
  exact ⟨home, exact_, .inl (by rw [Option.mem_def.mp hs]; rfl)⟩

lemma Raised.pointsFrom (h : f.Raised s) : f.PointsFrom s := fun p hp => ⟨s, h.exact p hp, .inl (by rw [h.source]; rfl)⟩

lemma Raised.located (h : f.Raised s) : (f.inSource s).Located :=
  fun p hp => ⟨s, by rw [inSource, h.source]; rfl, h.exact p hp⟩

/-- What leaves the code of a source tells it, and points the same way wherever it goes. -/
lemma PointsFrom.inSource (h : f.PointsFrom s) (outer : Source) : (f.inSource s).PointsFrom outer := by
  intro p hp
  obtain ⟨home, exact_, told⟩ := h p hp
  refine ⟨home, exact_, told.imp_left fun same => ?_⟩
  rw [← same]
  unfold Failure.inSource
  cases f.source <;> rfl

end Failure

namespace TemplateError

/-- The failures that an error reports. -/
def failures : TemplateError → List Failure
  | .single f => [f]
  | .compile _ fs => fs

/-- Errors in code of a source. Several failures of one template tell their source when they arise. -/
def PointsFrom (s : Source) : TemplateError → Prop
  | .single f => f.PointsFrom s
  | .compile _ fs => ∀ f ∈ fs, f.Located

variable {s : Source} {e : TemplateError}

lemma pointsFrom_of_located (h : ∀ f ∈ e.failures, f.Located) (s : Source) : e.PointsFrom s := by
  cases e with
  | single f => exact (h f (List.mem_singleton_self f)).pointsFrom s
  | compile name fs => exact h

lemma PointsFrom.leaving (h : e.PointsFrom s) (a : Activation) (p : Position) : (e.leaving a p).PointsFrom s := by
  cases e with
  | single f => exact h
  | compile name fs => exact h

lemma PointsFrom.inSource (h : e.PointsFrom s) (outer : Source) : (e.inSource s).PointsFrom outer := by
  cases e with
  | single f => exact Failure.PointsFrom.inSource h outer
  | compile name fs => exact h

end TemplateError

/-- A loader whose errors have no position, or tell the source in which it is exact. -/
def Loader.Honest (l : Loader) : Prop := ∀ name e, l.load name = .error e → ∀ f ∈ e.failures, f.Located

lemma Failure.located_of (c : Cause) : ∀ f ∈ (TemplateError.of c).failures, f.Located := by
  intro f hf
  obtain rfl := List.mem_singleton.mp hf
  exact nofun

lemma FileLoader.honest (files : FileTree) (l : FileLoader) : (l.loader files).Honest := by
  intro name e he
  dsimp only [FileLoader.loader] at he
  cases found : l.locate files name with
  | error e' =>
    rw [found] at he
    cases he
    unfold FileLoader.locate at found
    split at found
    · cases found
    · cases found
      exact Failure.located_of _
  | ok path? =>
    rw [found] at he
    cases path? with
    | none => cases he
    | some path =>
      have same : files.text? path >>= (fun found => pure (found.map fun r => (⟨r.1, some r.2⟩ : Resource))) =
        .error e := he
      cases read : files.text? path with
      | ok text =>
        rw [read] at same
        cases same
      | error e' =>
        rw [read] at same
        cases same
        unfold FileTree.text? at read
        split at read
        · cases read
        · split at read
          · cases read
          · cases read
            exact Failure.located_of _

/-- The configured loaders fail without a position. -/
lemma LoaderSetting.honest (files : FileTree) (setting : LoaderSetting) : (setting.loader files).Honest := by
  cases setting with
  | files paths => exact FileLoader.honest files _
  | strings templates => exact fun name e he => by cases he

/-- What a text does not compile for tells the source, and points into it. -/
lemma Template.located_of_compile {unit : CodeUnit} {s : Source} {policy : GobblingPolicy} {e : TemplateError}
    (h : compile unit s policy = .error e) :
    ∀ f ∈ e.failures, f.source = some s ∧ f.Located := by
  obtain ⟨fs, -, raised, rfl⟩ := raised_of_compile h
  have failures : (TemplateError.reporting s fs).failures = fs.map (·.inSource s) := by
    unfold TemplateError.reporting
    split
    · next f hf => exact hf.symm
    · rfl
  rw [failures]
  intro f hf
  obtain ⟨g, hg, rfl⟩ := List.mem_map.mp hf
  refine ⟨?_, (raised g hg).located⟩
  rw [Failure.inSource, (raised g hg).source]
  rfl

/-- An error for a name tells the source that it points into. -/
lemma Loader.Refuses.located {loaders : List Loader} (hl : ∀ l ∈ loaders, l.Honest) {name : String}
    {e : TemplateError} (h : Loader.Refuses loaders name e) : ∀ f ∈ e.failures, f.Located := by
  cases h with
  | missing => exact Failure.located_of _
  | loading hm hload => exact hl _ hm name e hload
  | compiling hc => exact fun f hf => (Template.located_of_compile hc f hf).2

lemma MacroDef.Compiled.placed {d : MacroDef} (h : d.Compiled) : d.Placed := by
  obtain ⟨t, ht, e, he, rfl⟩ := h
  exact ht.placed_macros e he

/-! ### Steps of a render -/

/-- How a step ends that runs code of a source: a failure points from there, and the cache holds compiled
templates. -/
structure Outcome.PointsFrom {α : Type} (s : Source) (r : Outcome α) : Prop where
  stocked : r.state.cache.Stocked
  failed : ∀ e t, r = .error (.failed e) t → e.PointsFrom s

namespace Outcome.PointsFrom

variable {α β : Type} {s : Source} {r : Outcome α}

lemma ok {t : RenderState} (ht : t.cache.Stocked) (x : α) : PointsFrom s (.ok x t) :=
  ⟨ht, fun _ _ h => by cases h⟩

lemma exhausted {t : RenderState} (ht : t.cache.Stocked) : PointsFrom s (.error .exhausted t : Outcome α) :=
  ⟨ht, fun _ _ h => by cases h⟩

lemma raised {t : RenderState} (ht : t.cache.Stocked) {e : TemplateError} (he : e.PointsFrom s) :
    PointsFrom s (.error (.failed e) t : Outcome α) := by
  refine ⟨ht, fun e' t' h => ?_⟩
  cases h
  exact he

lemma next (h : PointsFrom s r) {f : α → RenderState → Outcome β}
    (hf : ∀ x t, t.cache.Stocked → PointsFrom s (f x t)) : PointsFrom s (r.next f) := by
  cases r with
  | ok x t => exact hf x t h.stocked
  | error halt t =>
    refine ⟨h.stocked, fun e t' he => ?_⟩
    cases he
    exact h.failed e t rfl

lemma leaving (h : PointsFrom s r) {leave : RenderState → RenderState} (hl : ∀ t, (leave t).cache = t.cache) :
    PointsFrom s (r.leaving leave) := by
  refine ⟨?_, fun e t he => ?_⟩
  · rw [Outcome.state_leaving, hl]
    exact h.stocked
  · cases r with
    | ok x t => cases he
    | error halt t =>
      cases he
      exact h.failed e t rfl

lemma telling {outer : Source} (h : PointsFrom s r) {f : TemplateError → TemplateError}
    (hf : ∀ e, e.PointsFrom s → (f e).PointsFrom outer) : PointsFrom outer (r.telling f) := by
  refine ⟨?_, fun e t he => ?_⟩
  · rw [Outcome.state_telling]
    exact h.stocked
  · cases r with
    | ok x t => cases he
    | error halt t =>
      cases halt with
      | exhausted => cases he
      | failed e' =>
        cases he
        exact hf e' (h.failed e' t rfl)

/-- What leaves the code of a source tells it. -/
lemma left (h : PointsFrom s r) (outer : Source) (a : Activation) (p : Position) :
    PointsFrom outer (r.telling fun e => (e.inSource s).leaving a p) :=
  h.telling fun _ he => (he.inSource outer).leaving a p

end Outcome.PointsFrom

namespace Pointing

variable {α β : Type} {s : Source} {env : RenderEnv}

/-- Steps of a render that run code of a source. -/
def pace (s : Source) : Pace Unit where
  Strict := (Surroundings.same Unit).Strict
  Around := (Surroundings.same Unit).Around
  Place p := (p ()).Exact s
  Holds env m := ∀ t, t.cache.Stocked → Outcome.PointsFrom s (m () (env ()) t)
  strict_and := (Surroundings.same Unit).strict_and
  settings := (Surroundings.same Unit).settings
  types := (Surroundings.same Unit).types
  calls := (Surroundings.same Unit).calls
  opened {env} _ := ⟨(env ()).templates.length, fun _ => rfl⟩
  resolve {env} _ := ⟨(env ()).resolve, fun _ => rfl⟩
  holds_pure x t ht := .ok ht x
  holds_bind hm hf t ht := by
    simp only [Render.bind_apply]
    exact (hm t ht).next fun x t' ht' => hf x t' ht'
  holds_fail c hp t ht := .raised ht (Failure.Raised.pointsFrom (Failure.raised_at hp c))
  holds_fail_if := by
    intro α env b p m c hb hp h t ht
    dsimp only
    cases b () with
    | true => exact .raised ht (Failure.Raised.pointsFrom (Failure.raised_at hp c))
    | false => exact h t ht
  holds_read h t ht := h t ht
  holds_get _ h t ht := h t t ht
  holds_change _ t ht := .ok ht _
  holds_put name v t ht := .ok ((Screening.cache_of_plain (RenderState.plain_put name v) t).symm ▸ ht) _
  holds_emit text t ht := by
    simp only [Render.emit_apply]
    rcases t.sink.write text with ⟨_ | f, sink⟩
    · refine Outcome.PointsFrom.ok ?_ ()
      exact ht
    · refine Outcome.PointsFrom.raised ?_ (Failure.Raised.pointsFrom (Failure.raised_of s (.io f)))
      exact ht
  holds_captured hm t ht := by
    simp only [Outcome.captured_eq]
    exact ((hm { t with sink := .empty } ht).next fun x t' ht' => .ok ht' _).leaving fun _ => rfl
  holds_inFrame hm t ht := (hm { t with frames := ∅ :: t.frames } ht).leaving fun _ => rfl
  holds_restoreLoop var item status hm t ht :=
    (hm t ht).leaving (Screening.cache_of_plain (RenderState.plain_restoreLoop var item status))
  holds_chosen := by
    intro env p _ _ q t ht
    obtain ⟨x, t', h, -⟩ := Render.chosen_ok (p ()) q (env ()) t
    have kept := Screening.cache_chosen (p ()) q (env ()) t
    rw [h] at kept
    simp only [h]
    exact .ok (kept.symm ▸ ht) x

/-- Surroundings of compiled templates, with loaders that are honest. -/
structure Charted (env : RenderEnv) : Prop where
  compiled : env.Compiled
  honest : ∀ l ∈ env.loaders, l.Honest

lemma Charted.calling (h : Charted env) (name : String) (u : CodeUnit) : Charted (env.calling name u) :=
  ⟨h.compiled.calling name u, h.honest⟩

lemma Charted.opening (h : Charted env) {t : Template} (ht : t.Compiled) : Charted (env.opening t) :=
  ⟨h.compiled.opening ht, h.honest⟩

/-- Expressions and blocks that are placed in a source fail there, and what they call fails where it is placed. -/
structure Points (depth : Nat) (s : Source) (env : RenderEnv) : Prop where
  value : ∀ e, (Element.expr e).Placed s →
    (pace s).Evaluates (fun _ => .ofDepth depth) (fun _ => .stay) (fun _ => env) e
  block : ∀ b : Block, (∀ n ∈ b, (Element.node n).Placed s) →
    (pace s).Renders (fun _ => .ofDepth depth) (fun _ => .stay) (fun _ => env) b

section

variable {depth : Nat}

lemma around (env : RenderEnv) : (pace s).Around fun _ => env := ⟨env, rfl⟩

lemma sited {ps : List Position} (h : ∀ p ∈ ps, p.Exact s) : (pace s).Sited (fun _ => .stay) ps := h

lemma holds_nested {t : Template} (ht : t.Compiled) (h : Points depth t.source (env.opening t)) (a : Activation)
    (p : Position) {around : Render Flow → Render Flow}
    (hr : ∀ {m : Unit → Render Flow}, (pace t.source).Holds (fun _ => env.opening t) m →
      (pace t.source).Holds (fun _ => env.opening t) fun i => around (m i)) :
    (pace s).Holds (fun _ => env) fun _ => (Interpreter.ofDepth depth).nested t a p around := by
  intro state hs
  have root := hr (h.block t.root ht.placed_root) state hs
  simp only [Relocation.block, Relocation.nodeList_stay] at root
  exact root.left s a p

lemma holds_template (he : Charted env) {f : Except TemplateError Template → Render α}
    (hf : ∀ e, (∀ g ∈ e.failures, g.Located) → (pace s).Holds (fun _ => env) fun _ => f (.error e))
    (ht : ∀ t, t.Compiled → (pace s).Holds (fun _ => env) fun _ => f (.ok t)) (name : String) :
    (pace s).Holds (fun _ => env) fun _ => Render.template name >>= f := by
  intro state hs
  have found := hs.get env.loaders (env.clock state.readings) name
  have run : Render.template name env state =
      .ok (state.cache.get env.loaders (env.clock state.readings) name).answer
        { state with
          cache := (state.cache.get env.loaders (env.clock state.readings) name).cache
          readings := state.readings + 1 } := rfl
  simp only [Render.bind_apply, run]
  cases ha : (state.cache.get env.loaders (env.clock state.readings) name).answer with
  | error e => exact hf e ((TemplateCache.refuses_get e ha).located he.honest) _ found.cache
  | ok t => exact ht t (found.answer t ha) _ found.cache

lemma holds_resource (he : Charted env) {f : Except TemplateError String → Render α}
    (hf : ∀ e, (∀ g ∈ e.failures, g.Located) → (pace s).Holds (fun _ => env) fun _ => f (.error e))
    (ht : ∀ text, (pace s).Holds (fun _ => env) fun _ => f (.ok text)) (name : String) :
    (pace s).Holds (fun _ => env) fun _ => Render.resource name >>= f := by
  intro state hs
  have kept : (state.cache.readText name 0 env.loaders).cache.Stocked := by
    rw [TemplateCache.cache_readText]
    exact hs
  have run : Render.resource name env state =
      .ok (state.cache.readText name 0 env.loaders).answer
        { state with cache := (state.cache.readText name 0 env.loaders).cache } := rfl
  simp only [Render.bind_apply, run]
  cases ha : (state.cache.readText name 0 env.loaders).answer with
  | error e =>
    have refused := TemplateCache.refuses_readText 0 (List.Subset.refl env.loaders) e ha
    exact hf e (refused.located he.honest) _ kept
  | ok text => exact ht text _ kept

lemma holds_raise {e : TemplateError} (h : e.PointsFrom s) (f : α → Render β) :
    (pace s).Holds (fun _ => env) fun _ => Render.raise e >>= f :=
  fun _ ht => .raised ht h

lemma holds_parse (he : Charted env) (hc : ∀ s env, Charted env → Points depth s env) {arg : Expr}
    (ha : (Element.expr arg).Placed s) {p : Position} (hp : p.Exact s) :
    (pace s).Holds (fun _ => env) fun _ => (Interpreter.ofDepth depth).parse arg p := by
  have parsed := (pace s).holds_parseBy (around env) (p := fun _ => p)
    (sited (List.forall_mem_singleton.mpr ha.exact) _ (List.mem_singleton_self _)) ((hc s env he).value arg ha) hp
    (f := fun _ name => do
      let t ← Render.orRaise (·.leaving (.parse name) p) (← Render.template name)
      let flow ← (Interpreter.ofDepth depth).nested t (.parse name) p Render.inFrame
      return if flow.endsTemplate then .next else flow) fun _ name => by
    refine holds_template he (fun e located => ?_) (fun t ht => ?_) name
    · exact holds_raise ((TemplateError.pointsFrom_of_located located s).leaving _ p) _
    · have nested : (pace s).Holds (fun _ => env) fun _ => do
          let flow ← (Interpreter.ofDepth depth).nested t (.parse name) p Render.inFrame
          return if flow.endsTemplate then .next else flow :=
        (pace s).holds_bind (holds_nested ht (hc t.source _ (he.opening ht)) _ p (pace t.source).holds_inFrame)
          fun flow => (pace s).holds_pure _
      exact nested
  simpa only [Relocation.expr_stay, Interpreter.parse_eq] using parsed

lemma holds_inclusions (he : Charted env) (h : Points depth s env) {args : List Expr}
    (ha : ∀ arg ∈ args, (Element.expr arg).Placed s) (p : Position) :
    (pace s).Holds (fun _ => env) fun _ => args.forM ((Interpreter.ofDepth depth).inclusion p) := by
  have included : (pace s).Holds (fun _ => env) fun _ =>
      (Relocation.stay.exprList args).forM ((Interpreter.ofDepth depth).inclusion p) := by
    refine (pace s).holds_forM fun arg hm => ?_
    simp only [Interpreter.inclusion_eq]
    refine (pace s).holds_includeBy (around env)
      (sited (List.forall_mem_singleton.mpr (ha arg hm).exact) _ (List.mem_singleton_self _))
      (h.value arg (ha arg hm)) fun name => ?_
    refine holds_resource he (fun e located => ?_) (fun text => (pace s).holds_pure text) name
    exact fun t ht => .raised ht ((TemplateError.pointsFrom_of_located located s).leaving _ p)
  simpa only [Relocation.exprList_stay] using included

lemma holds_evaluateText (he : Charted env) (hc : ∀ s env, Charted env → Points depth s env) {arg : Expr}
    (ha : (Element.expr arg).Placed s) (p : Position) :
    (pace s).Holds (fun _ => env) fun _ => (Interpreter.ofDepth depth).evaluateText arg p := by
  have evaluated := (pace s).holds_evaluateBy ((hc s env he).value arg ha) (f := fun _ text => do
      let unit ← Render.nextUnit
      let policy := (← read).settings.gobbling
      let t ← Render.orRaise (·.leaving .evaluation p)
        (Template.compile unit ⟨"#evaluate at " ++ p.display, text⟩ policy)
      (Interpreter.ofDepth depth).nested t .evaluation p id) fun text => by
    have next : (pace s).Holds (fun _ => env) fun _ => Render.nextUnit :=
      fun t ht => .ok (t := { t with evaluated := t.evaluated + 1 }) ht (CodeUnit.evaluated t.evaluated)
    refine (pace s).holds_bind next fun unit => ?_
    refine (pace s).holds_read ?_
    dsimp only
    cases compiled : Template.compile unit ⟨"#evaluate at " ++ p.display, text⟩ env.settings.gobbling with
    | error e =>
      refine holds_raise (TemplateError.PointsFrom.leaving ?_ .evaluation p) _
      exact TemplateError.pointsFrom_of_located (fun f hf => (Template.located_of_compile compiled f hf).2) s
    | ok t =>
      have ht : t.Compiled := Template.compiled_of_compile compiled
      exact holds_nested ht (hc t.source _ (he.opening ht)) .evaluation p id
  simpa only [Relocation.expr_stay, Interpreter.evaluateText_eq] using evaluated

/-- A macro runs in its own source. The refusal of the call is placed in the caller's, and gets the macro's. -/
lemma holds_invoke (he : Charted env) (hc : ∀ s env, Charted env → Points depth s env) (unit : CodeUnit)
    {d : MacroDef} (hd : d.Compiled) {p : Position} (hp : p.Exact s) (args : Arguments) (content : Option String) :
    (pace s).Holds (fun _ => env) fun _ => (Interpreter.ofDepth depth).invoke unit d p args content := by
  have placed := hd.placed
  have body (t : RenderState) (ht : t.cache.Stocked) : Outcome.PointsFrom d.source
      (Interpreter.inMacro unit d p ((Interpreter.ofDepth depth).runMacro d args content) env t) := by
    simp only [Interpreter.inMacro, Render.read_bind_apply]
    split
    · refine .raised ht fun q hq => ⟨s, ?_, .inr rfl⟩
      obtain rfl := Option.some.inj hq
      exact hp
    · have inside := hc d.source _ (he.calling d.name unit)
      have run := (pace d.source).holds_runMacro (d := d)
        (fun q hq e hfallback => inside.value e (placed.fallbacks q hq e hfallback)) (inside.block d.body placed.body)
        args content t ht
      simp only [Relocation.macroDef_stay] at run
      exact run
  refine (pace s).holds_bind (m := fun _ => Render.onError _ _) (fun t ht => ?_) fun flow => (pace s).holds_pure _
  exact (body t ht).left s (.macroCall d.name) p

lemma holds_macroCall (he : Charted env) (hc : ∀ s env, Charted env → Points depth s env) {c : MacroCall}
    {p : Position} (hn : (Element.node ⟨.macroCall c, p⟩).Placed s) :
    (pace s).Holds (fun _ => env) fun _ => (Interpreter.ofDepth depth).macroCall c p := by
  have here := hc s env he
  simp only [Interpreter.macroCall_eq]
  exact (pace s).holds_macroCallBy_stay (around env) (p := fun _ => p) hn.exact
    (sited fun q hq => hn.exact_places q (List.mem_cons_of_mem _ hq))
    (fun arg ha => here.value arg.value (hn.operands _ (List.mem_map_of_mem ha)))
    (fun b hb => here.block b (hn.subblocks b (Option.mem_toList.mpr hb)))
    fun hm args content => holds_invoke he hc _ (he.compiled.macro? hm) hn.exact args content

/-- Rendering a node that is placed in a source fails there. -/
lemma holds_node (he : Charted env) (hc : ∀ s env, Charted env → Points depth s env) {n : Node}
    (hn : (Element.node n).Placed s) : (pace s).Holds (fun _ => env) fun _ => (Interpreter.ofDepth depth).node n := by
  have here := hc s env he
  have same := (pace s).holds_node (n := n) (around env) (sited hn.exact_places)
    (fun e h => here.value e (hn.exprs_node e h)) (fun b h => here.block b (hn.blocks_node b h)) fun calls => by
    simp only [Relocation.node_stay]
    obtain ⟨kind, p⟩ := n
    cases kind with
    | macroCall c => exact holds_macroCall he hc hn
    | parse arg => exact holds_parse he hc (hn.operands arg (List.mem_singleton_self _)) hn.exact
    | inclusion args => exact (pace s).holds_doing (holds_inclusions he here hn.operands p)
    | evaluate arg => exact holds_evaluateText he hc (hn.operands arg (List.mem_singleton_self _)) p
    | _ => cases calls
  simpa only [Relocation.node_stay] using same

/-- However deep code is nested, it fails where it is placed: by induction on the depth, since what it calls is placed
in a source of its own. -/
theorem points (depth : Nat) (s : Source) (env : RenderEnv) (he : Charted env) : Points depth s env := by
  induction depth generalizing s env with
  | zero => exact ⟨fun e _ lenient t ht => .exhausted ht, fun b _ t ht => .exhausted ht⟩
  | succ depth ih =>
    refine ⟨fun e placed lenient => ?_, fun b placed => ?_⟩
    · exact (pace s).holds_evaluate (around env) (sited placed.exact_places_expr)
        (fun x hx => (ih s env he).value x (placed.exprs x hx))
        (fun b hb => (ih s env he).block b (placed.blocks b hb)) lenient
    · have block : (pace s).Holds (fun _ => env) fun _ =>
          (Interpreter.ofDepth depth).block (Relocation.stay.block b) := by
        refine (pace s).holds_block fun n hn => ?_
        simp only [Relocation.node_stay]
        exact holds_node he ih (placed n hn)
      exact block

end

end Pointing

/-! ### Engines -/

/-- A failure outside of all renders: it has no position, or tells the source in which that is exact, unless it is a
macro call that was refused for its depth. -/
def Failure.Told (f : Failure) : Prop :=
  ∀ p ∈ f.position, ∃ s ∈ f.source, p.Exact s ∨ (f.cause.isMacroDepth = true ∧ ∃ home, p.Exact home)

lemma Failure.Located.told {f : Failure} (h : f.Located) : f.Told := by
  intro p hp
  obtain ⟨s, hs, exact_⟩ := h p hp
  exact ⟨s, hs, .inl exact_⟩

lemma Failure.PointsFrom.told {s : Source} {f : Failure} (h : f.PointsFrom s) : (f.inSource s).Told := by
  have source : (f.inSource s).source = some (f.source.getD s) := by
    unfold Failure.inSource
    cases f.source <;> rfl
  intro p hp
  obtain ⟨home, exact_, same | depth⟩ := h p hp
  · exact ⟨home, by rw [source, same]; rfl, .inl exact_⟩
  · exact ⟨_, source, .inr ⟨depth, home, exact_⟩⟩

/-- What leaves the outermost template tells its source. -/
lemma TemplateError.PointsFrom.told {s : Source} {e : TemplateError} (h : e.PointsFrom s) :
    ∀ f ∈ (e.inSource s).failures, f.Told := by
  cases e with
  | single f =>
    have told : (f.inSource s).Told := Failure.PointsFrom.told h
    exact List.forall_mem_singleton.mpr told
  | compile name fs => exact fun f hf => (h f hf).told

/-- The failure that ended a render, where it was a single one. -/
def Rendering.failure? (r : Rendering) : Option Failure :=
  match r.halt with
  | some (.failed (.single f)) => some f
  | _ => none

lemma Rendering.halt_of_failure? {r : Rendering} {f : Failure} (h : r.failure? = some f) :
    r.halt = some (.failed (.single f)) := by
  unfold failure? at h
  split at h
  · next f' hr =>
    obtain rfl := Option.some.inj h
    exact hr
  · cases h

namespace Engine

variable {e : Engine} {h : Host}

lemma honest_allLoaders (hl : ∀ l ∈ h.loaders, l.Honest) : ∀ l ∈ e.settings.allLoaders h, l.Honest := by
  intro l hm
  unfold Settings.allLoaders at hm
  split at hm
  · obtain rfl := List.mem_singleton.mp hm
    exact FileLoader.honest h.files _
  · rcases List.mem_append.mp hm with hm | hm
    · exact hl l hm
    · obtain ⟨setting, -, rfl⟩ := List.mem_map.mp hm
      exact setting.honest h.files

lemma points_renderWithin (he : e.Stocked) (hl : ∀ l ∈ h.loaders, l.Honest) {t : Template} (ht : t.Compiled)
    (depth : Nat) (σ : Store) (c : Context) (sink : Sink) {err : TemplateError}
    (hr : (e.renderWithin depth h t σ c sink).halt = some (.failed err)) : ∀ f ∈ err.failures, f.Told := by
  have charted : Pointing.Charted (e.env h) := ⟨he.env h, honest_allLoaders hl⟩
  have root := (Pointing.points depth t.source _ (charted.opening ht)).block t.root ht.placed_root
    (e.start σ c sink) he.cache
  simp only [Relocation.block, Relocation.nodeList_stay] at root
  have points : Outcome.PointsFrom t.source
    (((Interpreter.ofDepth depth).render t.root).inTemplate t (e.env h) (e.start σ c sink)) := root
  unfold renderWithin Render.outermostWithin Render.onError at hr
  rw [Render.bind_apply] at hr
  generalize ((Interpreter.ofDepth depth).render t.root).inTemplate t (e.env h) (e.start σ c sink) = r at hr points
  cases r with
  | ok flow s => cases hr
  | error halt s =>
    cases halt with
    | exhausted => cases hr
    | failed err' =>
      cases hr
      exact (points.failed err' s rfl).told

/-- Whatever is asked for, a failure tells the source that it points into. -/
lemma told_of_serve (he : e.Used) (hl : ∀ l ∈ h.loaders, l.Honest) {request : Request} (hr : request.Compiled)
    (σ : Store) (c : Context) (sink : Sink) {err : TemplateError}
    (failed : (e.serve h σ c sink request).halt = some (.failed err)) : ∀ f ∈ err.failures, f.Told := by
  cases request with
  | named name =>
    have found := he.stocked.template h name
    have refuses : ∀ f, (e.template h name).1 = .error f → Loader.Refuses (e.settings.allLoaders h) name f :=
      fun f hf => TemplateCache.refuses_get f hf
    dsimp only [serve, renderNamed] at failed
    generalize e.template h name = r at found refuses failed
    obtain ⟨answer, e'⟩ := r
    obtain ⟨compiled, stocked⟩ := found
    cases answer with
    | error f =>
      cases failed
      exact fun f hf => ((refuses _ rfl).located (honest_allLoaders hl) f hf).told
    | ok t => exact points_renderWithin stocked hl (compiled t rfl) _ σ c sink failed
  | text text =>
    dsimp only [serve, renderText] at failed
    cases ht : e.inline text with
    | error f =>
      rw [ht] at failed
      cases failed
      exact fun f hf => (Template.located_of_compile ht f hf).2.told
    | ok t =>
      rw [ht] at failed
      exact points_renderWithin he.stocked hl ⟨_, _, _, ht⟩ _ σ c sink failed
  | compiled t => exact points_renderWithin he.stocked hl hr _ σ c sink failed

/-- Failures point into the source that they tell. Whatever a text does not compile for is at an exact position of
it. A render that fails, through whatever it calls, parses, includes and evaluates, fails at a position, if any, that
is exact in the source that the failure tells; only a macro call that is refused for its depth may tell the source of
the macro instead of that of the call. -/
theorem points_into_source (he : e.Used) (hl : ∀ l ∈ h.loaders, l.Honest) :
    (∀ unit s policy err, Template.compile unit s policy = .error err →
      ∀ f ∈ err.failures, f.source = some s ∧ ∀ p ∈ f.position, p.Exact s) ∧
    ∀ request : Request, request.Compiled → ∀ σ c sink err,
      (e.serve h σ c sink request).halt = some (.failed err) → ∀ f ∈ err.failures, ∀ p ∈ f.position,
        ∃ s ∈ f.source, p.Exact s ∨ (f.cause.isMacroDepth = true ∧ ∃ home, p.Exact home) := by
  constructor
  · intro unit s policy err hc f hf
    obtain ⟨told, located⟩ := Template.located_of_compile hc f hf
    refine ⟨told, fun p hp => ?_⟩
    obtain ⟨source, hs, exact_⟩ := located p hp
    rw [told] at hs
    cases hs
    exact exact_
  · intro request hr σ c sink err failed
    exact told_of_serve he hl hr σ c sink failed

lemma honest_ofTemplates (templates : List (String × String)) (clock : Nat → Nat) :
    ∀ l ∈ (Host.ofTemplates templates clock).loaders, l.Honest := by
  intro l hl
  obtain rfl := List.mem_singleton.mp hl
  exact fun name e he => by cases he

/-- A division by zero in a macro, in a template that is parsed by another. -/
theorem points_into_source_of_macro :
    let h := Host.ofTemplates [("a", "é#parse('b')"), ("b", "#macro(m $v)\n#set($x = 1 / $v)#end\n#m(0)")] id
    let e := initial .standard
    e.Used ∧ (∀ l ∈ h.loaders, l.Honest) ∧
      ∃ f p s, (e.serve h .empty .empty .empty (.named "a")).failure? = some f ∧ f.position = some p ∧
        f.source = some s ∧ s.name = "b" ∧ p.Exact s := by
  intro h e
  have used : e.Used := .build (build_initial Settings.validate_standard rfl h)
  have honest := honest_ofTemplates [("a", "é#parse('b')"), ("b", "#macro(m $v)\n#set($x = 1 / $v)#end\n#m(0)")] id
  have shape : (e.serve h .empty .empty .empty (.named "a")).failure?.map
      (fun f => (f.position.isSome, f.source.map Source.name, f.cause.isMacroDepth)) =
        some (true, some "b", false) := by
    decide +kernel
  obtain ⟨f, hf, shape⟩ := Option.map_eq_some_iff.mp shape
  simp only [Prod.mk.injEq] at shape
  obtain ⟨located, named, shallow⟩ := shape
  obtain ⟨p, hp⟩ := Option.isSome_iff_exists.mp located
  obtain ⟨s, hs, exact_ | ⟨deep, -⟩⟩ := (points_into_source used honest).2 (.named "a") trivial _ _ _ _
    (Rendering.halt_of_failure? hf) f (List.mem_singleton_self f) p hp
  · refine ⟨used, honest, f, p, s, hf, hp, hs, ?_, exact_⟩
    rw [hs] at named
    exact Option.some.inj named
  · rw [shallow] at deep
    cases deep

/-- A macro of a page is called for a second time in a template that the page parses: the refusal is placed in that
template, and tells the page, where there is no such place. -/
theorem source_of_refused_call :
    let h := Host.ofTemplates [("page.vm", "#macro(a)#parse('part.vm')#end#macro(b)x#end#a()"),
      ("part.vm", "Some text that is longer than the page that defines the macro.\n\n#b()")] id
    let e := initial { Settings.standard with macroMaxDepth := 1 }
    e.Used ∧ (∀ l ∈ h.loaders, l.Honest) ∧
      ∃ f p s, (e.serve h .empty .empty .empty (.named "page.vm")).failure? = some f ∧ f.position = some p ∧
        f.source = some s ∧ p.template = "part.vm" ∧ s.name = "page.vm" ∧ s.text.utf8ByteSize < p.span.start ∧
        ¬p.Exact s := by
  intro h e
  have valid : ({ Settings.standard with macroMaxDepth := 1 } : Settings).validate = .ok () := by decide
  have used : e.Used := .build (build_initial valid rfl h)
  have shape : (e.serve h .empty .empty .empty (.named "page.vm")).failure?.map
      (fun f => (f.position.map fun p => (p.template, p.span.start), f.source.map fun s => (s.name, s.text.utf8ByteSize))) =
        some (some ("part.vm", 64), some ("page.vm", 48)) := by
    decide +kernel
  obtain ⟨f, hf, shape⟩ := Option.map_eq_some_iff.mp shape
  simp only [Prod.mk.injEq] at shape
  obtain ⟨hp, hs⟩ := shape
  obtain ⟨p, hp, place⟩ := Option.map_eq_some_iff.mp hp
  obtain ⟨s, hs, home⟩ := Option.map_eq_some_iff.mp hs
  simp only [Prod.mk.injEq] at place home
  have elsewhere : ¬p.Exact s := by
    rintro ⟨front, word, back, cuts⟩
    have template := cuts.template
    rw [place.1, home.1] at template
    exact absurd template (by decide)
  refine ⟨used, honest_ofTemplates _ id, f, p, s, hf, hp, hs, place.1, home.1, ?_, elsewhere⟩
  rw [place.2, home.2]
  decide

end Engine

end Stencil
