import Stencil.Proofs.Searching
import Stencil.Proofs.Unit

/-!
# What the template cache answers

As long as the loaders keep their texts, the cache answers what searching and compiling anew would answer,
whatever it holds, whatever the clock shows and whatever the stamps are. Main statements:
`TemplateCache.faithful_get` and `TemplateCache.answer_readText`.
-/

namespace Stencil

/-- What a loader has under a name, whenever it was put there. -/
def Loader.text? (l : Loader) (name : String) : Except TemplateError (Option String) :=
  (l.load name).map (Option.map Resource.text)

/-- The texts of some loaders, in the order in which they are asked. -/
abbrev Offer := List (String → Except TemplateError (Option String))

def compiledBy (text? : String → Except TemplateError (Option String)) (policy : GobblingPolicy)
    (name : String) : Except TemplateError (Option Template) :=
  match text? name with
  | .error e => .error e
  | .ok none => .ok none
  | .ok (some text) => (Template.compile .inline ⟨name, text⟩ policy).map some

namespace Offer

/-- What loaders offer. -/
def of (loaders : List Loader) : Offer := loaders.map Loader.text?

/-- The template of a name when nothing is remembered. -/
def fresh (policy : GobblingPolicy) (name : String) : Offer → Except TemplateError Template
  | [] => .error (.of (.noLoader name))
  | text? :: rest =>
    match compiledBy text? policy name with
    | .error e => .error e
    | .ok (some t) => .ok t
    | .ok none => fresh policy name rest

def text (name : String) : Offer → Except TemplateError String
  | [] => .error (.of (.noLoader name))
  | text? :: rest =>
    match text? name with
    | .error e => .error e
    | .ok (some text) => .ok text
    | .ok none => text name rest

lemma fresh_append {policy : GobblingPolicy} {name : String} {before : Offer}
    (h : ∀ text? ∈ before, compiledBy text? policy name = .ok none) (rest : Offer) :
    fresh policy name (before ++ rest) = fresh policy name rest := by
  induction before with
  | nil => rfl
  | cons text? before ih =>
    have here := h text? (List.mem_cons_self ..)
    have later := ih fun x hx => h x (List.mem_cons_of_mem _ hx)
    simp only [List.cons_append, fresh, here, later]

end Offer

variable {offer : Offer} {policy : GobblingPolicy} {name : String}

/-- An entry that searching and compiling anew would give, up to its unit. -/
def CacheEntry.Valid (offer : Offer) (policy : GobblingPolicy) (name : String) (e : CacheEntry) :
    Prop :=
  ∃ before text? after, offer = before ++ text? :: after ∧ before.length = e.loader ∧
    (∀ text? ∈ before, compiledBy text? policy name = .ok none) ∧
    compiledBy text? policy name = .ok (some (e.template.inUnit .inline))

/-- A valid entry has the template that would be found anew. -/
lemma CacheEntry.Valid.fresh {e : CacheEntry} (h : e.Valid offer policy name) :
    offer.fresh policy name = .ok (e.template.inUnit .inline) := by
  obtain ⟨before, text?, after, rfl, -, hb, ht⟩ := h
  rw [Offer.fresh_append hb, Offer.fresh, ht]

/-- Only valid entries are kept. -/
structure TemplateCache.Sound (offer : Offer) (policy : GobblingPolicy) (c : TemplateCache) : Prop where
  gobbling : c.gobbling = policy
  valid : ∀ {name e}, c.entries.get? name = some e → e.Valid offer policy name

/-- An answer that is the one found anew, up to its unit, from a cache that stays sound. -/
structure Consulted.Faithful (offer : Offer) (policy : GobblingPolicy) (name : String)
    (r : Consulted Template) : Prop where
  answer : ∃ u, r.answer = (offer.fresh policy name).map (·.inUnit u)
  cache : r.cache.Sound offer policy

namespace TemplateCache

variable {c : TemplateCache}

lemma sound_empty (offer : Offer) (interval : Nat) (policy : GobblingPolicy) :
    (empty interval policy).Sound offer policy where
  gobbling := rfl
  valid h := by cases h

lemma Sound.evict (h : c.Sound offer policy) (name : String) : (c.evict name).Sound offer policy where
  gobbling := h.gobbling
  valid := by
    intro other e he
    rw [TemplateCache.evict, Dict.get?_erase] at he
    split at he
    · cases he
    · exact h.valid he

lemma Sound.store (h : c.Sound offer policy) {e : CacheEntry} (he : e.Valid offer policy name) :
    (c.store name e).Sound offer policy where
  gobbling := h.gobbling
  valid := by
    intro other e' he'
    rw [TemplateCache.store, Dict.get?_insert] at he'
    split at he'
    · next heq =>
      obtain rfl := Option.some.inj he'
      exact heq ▸ he
    · exact h.valid he'

variable {d : TemplateCache} {loaders : List Loader} {now place : Nat} {l : Loader}

lemma CompilesBy.sound {answer : Except TemplateError (Option CacheEntry)} (h : CompilesBy c now name place l answer d)
    (hc : c.Sound offer policy) : d.Sound offer policy := by
  cases h <;> exact ⟨hc.gobbling, hc.valid⟩

lemma CompilesBy.compiledBy_eq_error {e : TemplateError} (h : CompilesBy c now name place l (.error e) d) :
    compiledBy l.text? c.gobbling name = .error e := by
  unfold compiledBy Loader.text?
  cases h with
  | failing load =>
    rw [load]
    rfl
  | faulty load compiled =>
    rw [load]
    exact congrArg (Except.map some) (Template.refused_again compiled .inline)

lemma CompilesBy.compiledBy_eq_ok {e : CacheEntry} (h : CompilesBy c now name place l (.ok (some e)) d) :
    compiledBy l.text? c.gobbling name = .ok (some (e.template.inUnit .inline)) ∧ place = e.loader := by
  unfold compiledBy Loader.text?
  cases h with
  | compiled load compiled =>
    rw [load]
    exact ⟨congrArg (Except.map some) (Template.compile_again compiled .inline), rfl⟩

lemma Searches.faithful {answer : Except TemplateError Template} (h : Searches c loaders now name answer d)
    (hc : c.Sound (.of loaders) policy) (questions : List Consultation) :
    Consulted.Faithful (.of loaders) policy name ⟨answer, d, questions⟩ := by
  have policy := hc.gobbling
  subst policy
  -- The loaders asked before the one that decides have nothing under the name, so the search anew passes them too.
  have passed {before : List Loader} (nothing : ∀ x ∈ before, x.load name = .ok none) :
      ∀ text? ∈ Offer.of before, compiledBy text? c.gobbling name = .ok none := by
    intro text? ht
    obtain ⟨x, hx, rfl⟩ := List.mem_map.mp ht
    unfold compiledBy Loader.text?
    rw [nothing x hx]
    rfl
  have offered {before after : List Loader} {l : Loader} (split : loaders = before ++ l :: after) :
      Offer.of loaders = Offer.of before ++ l.text? :: Offer.of after := by
    rw [split, Offer.of, List.map_append]
    rfl
  cases h with
  | nowhere nothing =>
    have fresh := Offer.fresh_append (passed nothing) []
    rw [List.append_nil] at fresh
    refine ⟨⟨.inline, ?_⟩, hc⟩
    rw [fresh]
    rfl
  | refused split nothing step =>
    refine ⟨⟨.inline, ?_⟩, step.sound hc⟩
    rw [offered split, Offer.fresh_append (passed nothing), Offer.fresh, step.compiledBy_eq_error]
    rfl
  | @found before after l e _ split nothing step =>
    obtain ⟨compiled, here⟩ := step.compiledBy_eq_ok
    have valid : e.Valid (.of loaders) c.gobbling name :=
      ⟨Offer.of before, l.text?, Offer.of after, offered split, (List.length_map ..).trans here, passed nothing,
        compiled⟩
    refine ⟨⟨e.template.unit, ?_⟩, (step.sound hc).store valid⟩
    rw [valid.fresh]
    rfl

lemma Gets.faithful {answer : Except TemplateError Template} (h : Gets c loaders now name answer d)
    (hc : c.Sound (.of loaders) policy) (questions : List Consultation) :
    Consulted.Faithful (.of loaders) policy name ⟨answer, d, questions⟩ := by
  have policy := hc.gobbling
  subst policy
  -- An entry names the place of its loader, which is where the offer has the same text.
  have kept {e : CacheEntry} (he : c.entries.get? name = some e) :
      Except.ok e.template = (Offer.fresh c.gobbling name (.of loaders)).map (·.inUnit e.template.unit) := by
    rw [(hc.valid he).fresh]
    rfl
  have same {e : CacheEntry} {l : Loader} (he : c.entries.get? name = some e) (hl : loaders[e.loader]? = some l) :
      compiledBy l.text? c.gobbling name = .ok (some (e.template.inUnit .inline)) := by
    obtain ⟨before, text?, after, ho, hp, -, ht⟩ := hc.valid he
    have at_ : (Offer.of loaders)[e.loader]? = some l.text? := by simp [Offer.of, hl]
    rw [ho, ← hp] at at_
    obtain rfl : text? = l.text? := by simpa using at_
    exact ht
  cases h with
  | missing _ search => exact search.faithful hc _
  | held he _ => exact ⟨⟨_, kept he⟩, hc⟩
  | checked he _ _ _ _ =>
    obtain ⟨before, text?, after, offered, placed, nothing, compiled⟩ := hc.valid he
    exact ⟨⟨_, kept he⟩, hc.store ⟨before, text?, after, offered, placed, nothing, compiled⟩⟩
  | @renewed e fresh _ _ _ he _ hl _ _ step =>
    obtain ⟨compiled, here⟩ := step.compiledBy_eq_ok
    have again : fresh.template.inUnit .inline = e.template.inUnit .inline :=
      Option.some.inj (Except.ok.inj (compiled.symm.trans (same he hl)))
    obtain ⟨before, text?, after, ho, hp, hb, ht⟩ := hc.valid he
    refine ⟨⟨fresh.template.unit, ?_⟩,
      (step.sound hc).store ⟨before, text?, after, ho, hp.trans here, hb, ht.trans (by rw [again])⟩⟩
    rw [(hc.valid he).fresh, ← again]
    rfl
  | refused he _ hl _ _ step => cases step.compiledBy_eq_error.symm.trans (same he hl)
  | gone _ _ _ search => exact search.faithful (hc.evict name) _

/-- Whatever a sound cache holds, it answers what searching and compiling anew would answer, but for the
unit, and stays sound. -/
theorem faithful_get {loaders : List Loader} (h : c.Sound (.of loaders) policy) (now : Nat)
    (name : String) : (c.get loaders now name).Faithful (.of loaders) policy name :=
  (c.gets loaders now name).faithful h _

/-- Reading a text asks the loaders and nothing else. -/
theorem answer_readText (c : TemplateCache) (name : String) (place : Nat) (loaders : List Loader) :
    (c.readText name place loaders).answer = Offer.text name (.of loaders) := by
  induction loaders generalizing place with
  | nil => rfl
  | cons l loaders ih =>
    unfold TemplateCache.readText
    rw [Offer.of, List.map_cons, Offer.text, Loader.text?]
    cases l.load name with
    | error e => rfl
    | ok r? =>
      cases r? with
      | some r => rfl
      | none => exact ih (place + 1)

lemma cache_readText (c : TemplateCache) (name : String) (place : Nat) (loaders : List Loader) :
    (c.readText name place loaders).cache = c := by
  induction loaders generalizing place with
  | nil => rfl
  | cons l loaders ih =>
    unfold TemplateCache.readText
    cases l.load name with
    | error e => rfl
    | ok r? =>
      cases r? with
      | some r => rfl
      | none => exact ih (place + 1)

end TemplateCache

end Stencil
