import Mathlib.Tactic.Choose
import Stencil.Proofs.Caching
import Stencil.Proofs.History.Paired
import Stencil.Proofs.Lockstep.Node

/-!
# Renders that remember different things

Two renders are related as long as templates see the same in both and nothing wrong is remembered in
either; every step of a render keeps that. Main statement: `History.lockstep`.
-/

namespace Stencil

/-! ### Libraries -/

namespace MacroLibrary

def def? (l : MacroLibrary) (name : String) : Option MacroDef := (l.get? name).map Prod.snd

/-- Templates that differ only in their unit add the same definitions. -/
lemma def?_register {l l' : MacroLibrary} (h : ∀ name, l.def? name = l'.def? name) {t t' : Template}
    (ht : t.macros = t'.macros) (library name : String) :
    (l.register library t).def? name = (l'.register library t').def? name := by
  -- Both tables are filled from the same entries; the induction is on these.
  have fold (es : List (String × MacroDef)) {d d' : Dict (CodeUnit × MacroDef)}
      (hd : ∀ name, (d.get? name).map Prod.snd = (d'.get? name).map Prod.snd) (name : String) :
      ((es.foldl (fun d e => d.insert e.1 (t.unit, e.2)) d).get? name).map Prod.snd =
        ((es.foldl (fun d e => d.insert e.1 (t'.unit, e.2)) d').get? name).map Prod.snd := by
    induction es generalizing d d' with
    | nil => exact hd name
    | cons e es ih =>
      refine ih fun other => ?_
      rw [Dict.get?_insert, Dict.get?_insert]
      split
      · rfl
      · exact hd other
  unfold def? get? register
  rw [ht]
  exact fold t'.macros.entries h name

end MacroLibrary

/-! ### Related renders -/

/-- No wrong choice of a member is remembered: each is the one that its request alone would get. -/
structure RenderState.Recalls (types : HostTypes) (s : RenderState) : Prop where
  memory : s.memory.Sound types
  choices : ∀ site p, s.choices.lookup site = some p → site.request.resolve types = .ok p

/-- Where no place has a choice yet, only the memory counts. -/
lemma RenderState.Recalls.of_nil {types : HostTypes} {s : RenderState} (hm : s.memory.Sound types)
    (hc : s.choices = []) : s.Recalls types := by
  refine ⟨hm, fun site p h => ?_⟩
  rw [hc] at h
  cases h

/-- Nothing wrong is remembered: no choice of a member, and every entry of the cache is what compiling anew would
give. -/
structure RenderState.Sound (offer : Offer) (policy : GobblingPolicy) (types : HostTypes)
    (s : RenderState) : Prop where
  cache : s.cache.Sound offer policy
  recalls : s.Recalls types

namespace History

section

variable (settings : Settings) (types : HostTypes) (offer : Offer)
  (defs : String → Option MacroDef)

/-- Surroundings that differ only in clocks, stamps and units. -/
structure Around (env : Bool → RenderEnv) : Prop where
  settings : ∀ i, (env i).settings = settings
  types : ∀ i, (env i).types = types
  offer : ∀ i, Offer.of (env i).loaders = offer
  library : ∀ i name, (env i).library.def? name = defs name
  calls : ∃ calls, ∀ i, (env i).calls = calls
  templates : ∃ ts, ∀ i, (env i).templates.map (·.inUnit .inline) = ts

/-- States that look the same, with nothing wrong remembered. -/
structure Related (s t : RenderState) : Prop where
  view : s.view = t.view
  left : s.Sound offer settings.gobbling types
  right : t.Sound offer settings.gobbling types

end

variable {settings : Settings} {types : HostTypes} {offer : Offer}
  {defs : String → Option MacroDef} {env : Bool → RenderEnv} {s t : RenderState}

lemma Related.plain {α : Type} {f : RenderState → α × RenderState} (hf : RenderState.Plain f)
    (h : Related settings types offer s t) : Related settings types offer (f s).2 (f t).2 := by
  have keeps (s : RenderState) (hs : s.Sound offer settings.gobbling types) :
      (f s).2.Sound offer settings.gobbling types := by
    have hm := hf.memos s
    simp only [RenderState.memos, Memos.mk.injEq] at hm
    obtain ⟨h₁, h₂, h₃, -, -⟩ := hm
    exact ⟨h₁ ▸ hs.cache, h₂ ▸ hs.recalls.memory, h₃ ▸ hs.recalls.choices⟩
  exact ⟨hf.view h.view, keeps s h.left, keeps t h.right⟩

/-- Renders that fail with the same errors, and remember nothing wrong. -/
def pairing (settings : Settings) (types : HostTypes) (offer : Offer) : Pairing where
  Related := Related settings types offer
  Alike := Eq
  view := Related.view
  plain hf _ _ := Related.plain hf
  same _ := rfl

/-- Computations that agree wherever they start from related states. -/
abbrev Holds (settings : Settings) (types : HostTypes) (offer : Offer) {α : Type} (env : Bool → RenderEnv)
    (m : Bool → Render α) : Prop :=
  (pairing settings types offer).Holds env m

/-! ### What is remembered -/

/-- A choice made before is the one that the request alone gets. -/
lemma chosen_spec {env : RenderEnv} (hs : s.Recalls env.types) (p : Position) (q : MemberRequest) :
    ∃ memory choices, Render.chosen p q env s =
        .ok (q.resolve env.types) { s with memory := memory, choices := choices } ∧
      { s with memory := memory, choices := choices }.Recalls env.types := by
  have memory := hs.memory.resolve q
  have answer := ChoiceMemory.resolve_fst hs.memory q
  rw [Render.chosen_eq]
  cases hc : s.choices.lookup ⟨env.unit, p.span.start, q⟩ with
  | some choice => exact ⟨s.memory, s.choices, by rw [hs.choices _ _ hc], hs⟩
  -- A choice that is made now is remembered under a site with this very request.
  | none =>
    rw [answer]
    cases hq : q.resolve env.types with
    | error f => exact ⟨_, _, rfl, memory, hs.choices⟩
    | ok choice =>
      refine ⟨_, _, rfl, memory, fun site choice' h => ?_⟩
      rw [List.lookup_cons] at h
      split at h
      · next hsite =>
        obtain rfl := Option.some.inj h
        rw [eq_of_beq hsite, hq]
      · exact hs.choices site choice' h

/-- The template of a name is the one found anew, but for its unit. -/
lemma template_spec {env : RenderEnv} (ho : Offer.of env.loaders = offer)
    (hs : s.Sound offer settings.gobbling types) (name : String) :
    ∃ u s', Render.template name env s =
        .ok ((offer.fresh settings.gobbling name).map (·.inUnit u)) s' ∧
      s'.view = s.view ∧ s'.Sound offer settings.gobbling types := by
  subst ho
  obtain ⟨⟨u, ha⟩, hc⟩ := TemplateCache.faithful_get hs.cache (env.clock s.readings) name
  have run : Render.template name env s =
      .ok (s.cache.get env.loaders (env.clock s.readings) name).answer
        { s with
          cache := (s.cache.get env.loaders (env.clock s.readings) name).cache
          readings := s.readings + 1 } := rfl
  rw [ha] at run
  exact ⟨u, _, run, rfl, hc, ⟨hs.recalls.memory, hs.recalls.choices⟩⟩

lemma resource_spec {env : RenderEnv} (ho : Offer.of env.loaders = offer)
    (hs : s.Sound offer settings.gobbling types) (name : String) :
    ∃ s', Render.resource name env s = .ok (offer.text name) s' ∧ s'.view = s.view ∧
      s'.Sound offer settings.gobbling types := by
  subst ho
  have run : Render.resource name env s =
      .ok (s.cache.readText name 0 env.loaders).answer
        { s with cache := (s.cache.readText name 0 env.loaders).cache } := rfl
  rw [TemplateCache.answer_readText, TemplateCache.cache_readText] at run
  exact ⟨_, run, rfl, hs⟩

lemma holds_chosen (ha : Around settings types offer defs env) (p : Position) (q : MemberRequest) :
    Holds settings types offer env fun _ => Render.chosen p q := by
  intro s t h
  have left : s.Recalls (env false).types := by
    rw [ha.types]
    exact h.left.recalls
  have right : t.Recalls (env true).types := by
    rw [ha.types]
    exact h.right.recalls
  obtain ⟨m, cs, hs, ss⟩ := chosen_spec left p q
  obtain ⟨m', cs', ht, st⟩ := chosen_spec right p q
  rw [ha.types] at hs ht ss st
  show (pairing settings types offer).Agree (Render.chosen p q (env false) s) (Render.chosen p q (env true) t)
  rw [hs, ht]
  exact .ok _ ⟨h.view, ⟨h.left.cache, ss⟩, ⟨h.right.cache, st⟩⟩

lemma holds_template {α : Type} {f : Bool → Except TemplateError Template → Render α}
    (ha : Around settings types offer defs env)
    (he : ∀ e, Holds settings types offer env fun i => f i (.error e))
    (hf : ∀ (t : Template) (u : Bool → CodeUnit), True → True →
      Holds settings types offer env fun i => f i (.ok (t.inUnit (u i)))) (name : String) :
    Holds settings types offer env fun i => Render.template name >>= f i := by
  intro s t h
  obtain ⟨u, s', hs, vs, ss⟩ := template_spec (ha.offer false) h.left name
  obtain ⟨v, t', ht, vt, st⟩ := template_spec (ha.offer true) h.right name
  have related : Related settings types offer s' t' := ⟨by rw [vs, vt, h.view], ss, st⟩
  simp only [Render.bind_apply, hs, ht]
  cases offer.fresh settings.gobbling name with
  | error e => exact he e related
  -- The two caches may have compiled it at different times: their units differ, and nothing else does.
  | ok found => exact hf found (fun i => if i then v else u) trivial trivial related

lemma holds_resource (ha : Around settings types offer defs env) (name : String) :
    Holds settings types offer env fun _ => Render.resource name := by
  intro s t h
  obtain ⟨s', hs, vs, ss⟩ := resource_spec (ha.offer false) h.left name
  obtain ⟨t', ht, vt, st⟩ := resource_spec (ha.offer true) h.right name
  show (pairing settings types offer).Agree (Render.resource name (env false) s) (Render.resource name (env true) t)
  rw [hs, ht]
  exact .ok _ ⟨by rw [vs, vt, h.view], ss, st⟩

lemma holds_nextUnit {α : Type} {f : Bool → CodeUnit → Render α}
    (hf : ∀ u : Bool → CodeUnit, True → (∀ i, ∃ n, u i = .evaluated n) →
      Holds settings types offer env fun i => f i (u i)) :
    Holds settings types offer env fun i => Render.nextUnit >>= f i := by
  intro s t h
  have counted : Related settings types offer { s with evaluated := s.evaluated + 1 }
      { t with evaluated := t.evaluated + 1 } :=
    ⟨h.view, ⟨h.left.cache, h.left.recalls.memory, h.left.recalls.choices⟩,
      ⟨h.right.cache, h.right.recalls.memory, h.right.recalls.choices⟩⟩
  have units (i : Bool) : ∃ n, (if i then CodeUnit.evaluated t.evaluated
      else .evaluated s.evaluated) = .evaluated n := by
    cases i
    · exact ⟨_, rfl⟩
    · exact ⟨_, rfl⟩
  exact hf _ trivial units counted

/-! ### Surroundings -/

lemma Around.names (ha : Around settings types offer defs env) :
    ∃ names, ∀ i, (env i).templates.map Template.name = names := by
  obtain ⟨ts, hts⟩ := ha.templates
  refine ⟨ts.map Template.name, fun i => ?_⟩
  rw [← hts i, List.map_map]
  rfl

lemma Around.opening (ha : Around settings types offer defs env) (t : Template) (u : Bool → CodeUnit) :
    Around settings types offer defs fun i => (env i).opening (t.inUnit (u i)) where
  settings := ha.settings
  types := ha.types
  offer := ha.offer
  library := ha.library
  calls := ha.calls
  templates := by
    obtain ⟨ts, hts⟩ := ha.templates
    refine ⟨t.inUnit .inline :: ts, fun i => ?_⟩
    rw [← hts i]
    rfl

lemma Around.calling (ha : Around settings types offer defs env) (name : String)
    (u : Bool → CodeUnit) : Around settings types offer defs fun i => (env i).calling name (u i) where
  settings := ha.settings
  types := ha.types
  offer := ha.offer
  library := ha.library
  calls := by
    obtain ⟨calls, hc⟩ := ha.calls
    exact ⟨name :: calls, fun i => congrArg (name :: ·) (hc i)⟩
  templates := ha.templates

/-- The definition of a macro, wherever it was compiled. -/
lemma def?_macro? (env : RenderEnv) (name : String) :
    (env.macro? name).map Prod.snd =
      (((env.templates.map (·.inUnit .inline)).findSome? fun t => t.macros.get? name) <|>
        env.library.def? name) := by
  have inner (ts : List Template) :
      (ts.findSome? fun t => (t.macros.get? name).map fun d => (t.unit, d)).map Prod.snd =
        (ts.map (·.inUnit .inline)).findSome? fun t => t.macros.get? name := by
    induction ts with
    | nil => rfl
    | cons t ts ih =>
      simp only [List.map_cons, List.findSome?_cons]
      cases ht : t.macros.get? name with
      | some d => simp [Template.inUnit, ht]
      | none => simpa [Template.inUnit, ht] using ih
  rw [← inner env.templates]
  unfold RenderEnv.macro? MacroLibrary.def?
  cases env.templates.findSome? fun t => (t.macros.get? name).map fun d => (t.unit, d) <;> rfl

lemma Around.macro? (ha : Around settings types offer defs env) (name : String) :
    (∀ i, (env i).macro? name = none) ∨
      ∃ (u : Bool → CodeUnit) (d : MacroDef), ∀ i, (env i).macro? name = some (u i, d) := by
  obtain ⟨ts, hts⟩ := ha.templates
  have same (i : Bool) : ((env i).macro? name).map Prod.snd =
      ((ts.findSome? fun t => t.macros.get? name) <|> defs name) := by
    rw [def?_macro?, hts, ha.library]
  cases hd : (ts.findSome? fun t => t.macros.get? name) <|> defs name with
  | none => exact .inl fun i => Option.map_eq_none_iff.mp ((same i).trans hd)
  | some d =>
    have found (i : Bool) : ∃ u, (env i).macro? name = some (u, d) := by
      obtain ⟨⟨u, d'⟩, hm, rfl⟩ := Option.map_eq_some_iff.mp ((same i).trans hd)
      exact ⟨u, hm⟩
    choose u hu using found
    exact .inr ⟨u, d, hu⟩

/-- Renders on engines with different histories run in lockstep. -/
def lockstep (settings : Settings) (types : HostTypes) (offer : Offer)
    (defs : String → Option MacroDef) : Lockstep Bool where
  Units _ := True
  Met _ := True
  Strict b := ∃ strict, b = fun _ => strict
  Around := Around settings types offer defs
  Holds := Holds settings types offer
  strict_and := @alike_and Bool
  settings ha := ⟨settings, _, ⟨settings.strictReferences, rfl⟩, ha.settings⟩
  types ha := ⟨types, ha.types⟩
  calls ha := ha.calls
  names ha := ha.names
  macro? ha name := (ha.macro? name).imp id fun ⟨u, d, h⟩ => ⟨u, d, trivial, h⟩
  met_compile _ := trivial
  opening ha _ t _ := ha.opening t _
  calling ha _ name := ha.calling name _
  holds_pure := Pairing.holds_pure
  holds_bind := Pairing.holds_bind
  holds_raise _ := Pairing.holds_raise rfl
  holds_unless := by
    rintro α env _ m e ⟨strict, rfl⟩ hm
    cases strict with
    | true => exact Pairing.holds_raise rfl
    | false => exact hm
  holds_read hf := hf
  holds_get he := Pairing.holds_get fun i _ _ h => he i (RenderState.scene_congr h)
  holds_change _ := Pairing.holds_modifyGet (RenderState.plain_change _)
  holds_put name v := Pairing.holds_modifyGet (RenderState.plain_put name v)
  holds_emit := Pairing.holds_emit
  holds_captured := Pairing.holds_captured
  holds_inFrame := Pairing.holds_inFrame
  holds_restoreLoop var item status := Pairing.holds_andThen (RenderState.plain_restoreLoop var item status)
  holds_onError {_ _ _ f} _ hm := Pairing.holds_onError (fun same => congrArg f same) hm
  holds_withReader hm := hm
  holds_chosen := holds_chosen
  holds_template := holds_template
  holds_resource := holds_resource
  holds_nextUnit := holds_nextUnit

end History

end Stencil
