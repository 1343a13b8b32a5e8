import Stencil.Proofs.Searching
import Stencil.Proofs.Unit

/-!
# What the template cache keeps

An answered name is held with its answer, a refused one is not held, and other names keep their entries. Every entry
comes from what its loader once had under the name, whatever became of the loaders since. Main statement:
`TemplateCache.keeps_what_it_answers`.
-/

namespace Stencil

/-- An entry whose template was compiled from what its loader had under a name, with the stamp that it had. -/
structure CacheEntry.LoadedFrom (loaders : List Loader) (policy : GobblingPolicy) (name : String) (e : CacheEntry) :
    Prop where
  source : ∃ l text, loaders[e.loader]? = some l ∧ l.load name = .ok (some ⟨text, e.stamp⟩) ∧
    Template.compile e.template.unit ⟨name, text⟩ policy = .ok e.template

/-- An entry that is another one, checked at another time. -/
def CacheEntry.Rechecks (e e' : CacheEntry) : Prop := ∃ checked, e = { e' with checked := checked }

namespace TemplateCache

variable {c d : TemplateCache} {loaders : List Loader} {now place : Nat} {name : String} {l : Loader}

/-- Compiling leaves all entries as they are. -/
lemma CompilesBy.keeps {answer : Except TemplateError (Option CacheEntry)} (h : CompilesBy c now name place l answer d) :
    d.entries = c.entries ∧ d.interval = c.interval ∧ d.gobbling = c.gobbling := by
  cases h <;> exact ⟨rfl, rfl, rfl⟩

lemma CompilesBy.loadedFrom {e : CacheEntry} (h : CompilesBy c now name place l (.ok (some e)) d)
    (hl : loaders[place]? = some l) : e.LoadedFrom loaders c.gobbling name := by
  cases h with
  | compiled load compiled =>
    refine ⟨l, _, hl, load, ?_⟩
    dsimp only
    rw [(Template.eq_of_compile compiled).2]
    exact compiled

end TemplateCache

/-! ### Asking for a name -/

/-- What asking a cache for a name answers and leaves behind. -/
structure Consulted.Settled (c : TemplateCache) (loaders : List Loader) (name : String) (r : Consulted Template) :
    Prop where
  held : ∀ t, r.answer = .ok t → ∃ e, r.cache.entries.get? name = some e ∧ e.template = t
  dropped : ∀ f, r.answer = .error f → r.cache.entries.get? name = none
  origin : ∀ e, r.cache.entries.get? name = some e →
    e.LoadedFrom loaders c.gobbling name ∨ ∃ e', c.entries.get? name = some e' ∧ e.Rechecks e'
  others : ∀ other, other ≠ name → r.cache.entries.get? other = c.entries.get? other
  interval : r.cache.interval = c.interval
  gobbling : r.cache.gobbling = c.gobbling

namespace Consulted.Settled

variable {c c' : TemplateCache} {loaders : List Loader} {name : String} {r : Consulted Template}

/-- What is settled from a cache without the name is settled from one that differs in that name. -/
lemma of_evicted (h : r.Settled c' loaders name) (none : c'.entries.get? name = none)
    (others : ∀ other, other ≠ name → c'.entries.get? other = c.entries.get? other)
    (interval : c'.interval = c.interval) (gobbling : c'.gobbling = c.gobbling) : r.Settled c loaders name where
  held := h.held
  dropped := h.dropped
  origin e he := by
    rcases h.origin e he with loaded | ⟨e', he', -⟩
    · exact .inl (gobbling ▸ loaded)
    · rw [none] at he'
      cases he'
  others other ne := (h.others other ne).trans (others other ne)
  interval := h.interval.trans interval
  gobbling := h.gobbling.trans gobbling

/-- Storing a fresh entry and answering with its template. -/
lemma store {e : CacheEntry} (entries : c'.entries = c.entries) (interval : c'.interval = c.interval)
    (gobbling : c'.gobbling = c.gobbling)
    (origin : e.LoadedFrom loaders c.gobbling name ∨ ∃ e', c.entries.get? name = some e' ∧ e.Rechecks e')
    (questions : List Consultation) :
    Consulted.Settled c loaders name ⟨.ok e.template, c'.store name e, questions⟩ where
  held t ht := by
    cases ht
    exact ⟨e, by rw [TemplateCache.store, Dict.get?_insert, if_pos rfl], rfl⟩
  dropped f hf := by cases hf
  origin e' he' := by
    rw [TemplateCache.store, Dict.get?_insert, if_pos rfl] at he'
    cases he'
    exact origin
  others other ne := by rw [TemplateCache.store, Dict.get?_insert, if_neg ne, entries]
  interval := interval
  gobbling := gobbling

/-- Failing with no entry of the name. -/
lemma fail {f : TemplateError} (none : c'.entries.get? name = none)
    (others : ∀ other, other ≠ name → c'.entries.get? other = c.entries.get? other)
    (interval : c'.interval = c.interval) (gobbling : c'.gobbling = c.gobbling) (questions : List Consultation) :
    Consulted.Settled c loaders name ⟨.error f, c', questions⟩ where
  held t ht := by cases ht
  dropped _ _ := none
  origin e he := by
    rw [none] at he
    cases he
  others := others
  interval := interval
  gobbling := gobbling

end Consulted.Settled

namespace TemplateCache

variable {c d : TemplateCache} {loaders : List Loader} {now : Nat} {name : String}
  {answer : Except TemplateError Template}

lemma get?_evict_self (c : TemplateCache) (name : String) : (c.evict name).entries.get? name = none := by
  rw [evict, Dict.get?_erase, if_pos rfl]

lemma get?_evict_of_ne (c : TemplateCache) {name other : String} (h : other ≠ name) :
    (c.evict name).entries.get? other = c.entries.get? other := by
  rw [evict, Dict.get?_erase, if_neg h]

/-- Searching the loaders for a name that has no entry. -/
lemma Searches.settled (h : Searches c loaders now name answer d) (hn : c.entries.get? name = none)
    (questions : List Consultation) : Consulted.Settled c loaders name ⟨answer, d, questions⟩ := by
  cases h with
  | nowhere _ => exact .fail hn (fun _ _ => rfl) rfl rfl _
  | refused _ _ step =>
    obtain ⟨entries, interval, gobbling⟩ := step.keeps
    exact .fail (entries ▸ hn) (fun other _ => by rw [entries]) interval gobbling _
  | found split _ step =>
    obtain ⟨entries, interval, gobbling⟩ := step.keeps
    exact .store entries interval gobbling (.inl (step.loadedFrom (by rw [split]; simp))) _

lemma Gets.settled (h : Gets c loaders now name answer d) (questions : List Consultation) :
    Consulted.Settled c loaders name ⟨answer, d, questions⟩ := by
  cases h with
  | missing hn search => exact search.settled hn _
  | @held e he _ =>
    refine ⟨fun t ht => ?_, fun f hf => ?_, fun e' he' => ?_, fun _ _ => rfl, rfl, rfl⟩
    · cases ht
      exact ⟨e, he, rfl⟩
    · cases hf
    · exact .inr ⟨e', he', e'.checked, rfl⟩
  | @checked e _ _ he _ _ _ _ =>
    exact .store (e := { e with checked := now }) rfl rfl rfl (.inr ⟨e, he, now, rfl⟩) _
  | renewed _ _ hl _ _ step =>
    obtain ⟨entries, interval, gobbling⟩ := step.keeps
    exact .store entries interval gobbling (.inl (step.loadedFrom hl)) _
  | @refused _ _ _ _ d _ _ _ _ _ step =>
    obtain ⟨entries, interval, gobbling⟩ := step.keeps
    exact .fail (d.get?_evict_self name) (fun other ne => by rw [d.get?_evict_of_ne ne, entries]) interval gobbling _
  | gone _ _ _ search =>
    have evicted := c.get?_evict_self name
    exact (search.settled evicted _).of_evicted evicted (fun _ ne => c.get?_evict_of_ne ne) rfl rfl

theorem settled_get (c : TemplateCache) (loaders : List Loader) (now : Nat) (name : String) :
    (c.get loaders now name).Settled c loaders name := (c.gets loaders now name).settled _

end TemplateCache

/-! ### Histories -/

/-- What is done with a cache. The loaders and the clock are what they are at that moment. -/
inductive CacheUse where
  | get (loaders : List Loader) (now : Nat) (name : String)
  | evict (name : String)
  | clear

namespace TemplateCache

/-- The cache after one use. -/
def after (c : TemplateCache) : CacheUse → TemplateCache
  | .get loaders now name => (c.get loaders now name).cache
  | .evict name => c.evict name
  | .clear => c.clear

/-- The cache after some uses, in order. -/
def afterAll (c : TemplateCache) (history : List CacheUse) : TemplateCache := history.foldl after c

/-- An entry that some use in the past loaded, from the loaders that there were then. -/
def Recorded (past : List CacheUse) (policy : GobblingPolicy) (name : String) (e : CacheEntry) : Prop :=
  ∃ loaders now, CacheUse.get loaders now name ∈ past ∧ e.LoadedFrom loaders policy name

/-- Every entry of a cache was loaded in the past, and the interval and the policy are those from the start. -/
structure Grounded (interval : Nat) (policy : GobblingPolicy) (past : List CacheUse) (c : TemplateCache) : Prop where
  interval : c.interval = interval
  gobbling : c.gobbling = policy
  recorded : ∀ {name e}, c.entries.get? name = some e → Recorded past policy name e

variable {c : TemplateCache} {interval : Nat} {policy : GobblingPolicy} {past : List CacheUse} {name : String}
  {e e' : CacheEntry}

lemma Recorded.mono {more : List CacheUse} (h : Recorded past policy name e) :
    Recorded (past ++ more) policy name e := by
  obtain ⟨loaders, now, mem, loaded⟩ := h
  exact ⟨loaders, now, List.mem_append_left _ mem, loaded⟩

lemma Recorded.rechecks (h : Recorded past policy name e') (hr : e.Rechecks e') : Recorded past policy name e := by
  obtain ⟨checked, rfl⟩ := hr
  obtain ⟨loaders, now, mem, ⟨source⟩⟩ := h
  exact ⟨loaders, now, mem, ⟨source⟩⟩

lemma grounded_empty (interval : Nat) (policy : GobblingPolicy) :
    (empty interval policy).Grounded interval policy [] where
  interval := rfl
  gobbling := rfl
  recorded h := by cases h

/-- Every use keeps the entries grounded. -/
lemma Grounded.after (h : c.Grounded interval policy past) (use : CacheUse) :
    (c.after use).Grounded interval policy (past ++ [use]) := by
  cases use with
  | get loaders now name =>
    have settled := c.settled_get loaders now name
    refine ⟨settled.interval.trans h.interval, settled.gobbling.trans h.gobbling, fun {other e} he => ?_⟩
    by_cases hn : other = name
    · subst hn
      rcases settled.origin e he with loaded | ⟨e', he', rechecks⟩
      · exact ⟨loaders, now, List.mem_append_right _ (List.mem_singleton_self _), h.gobbling ▸ loaded⟩
      · exact (h.recorded he').mono.rechecks rechecks
    · exact (h.recorded ((settled.others other hn).symm.trans he)).mono
  | evict name =>
    refine ⟨h.interval, h.gobbling, fun {other e} he => ?_⟩
    by_cases hn : other = name
    · rw [hn, TemplateCache.after, get?_evict_self] at he
      cases he
    · rw [TemplateCache.after, get?_evict_of_ne c hn] at he
      exact (h.recorded he).mono
  | clear => exact ⟨h.interval, h.gobbling, fun he => by cases he⟩

lemma Grounded.afterAll (h : c.Grounded interval policy past) (history : List CacheUse) :
    (c.afterAll history).Grounded interval policy (past ++ history) := by
  induction history generalizing c past with
  | nil =>
    rw [List.append_nil]
    exact h
  | cons use history ih =>
    have later := ih (h.after use)
    rwa [List.append_assoc] at later

/-- After any history, a name that is asked for is held with its answer, or is not held when it is refused; no other
name's entry is touched; every entry was compiled from what its loader had under its name, stamp included, when some
earlier use asked for that name; and an entry whose check is not due is the answer without a question to any loader,
as are all entries where the interval is zero. -/
theorem keeps_what_it_answers (interval : Nat) (policy : GobblingPolicy) (history : List CacheUse)
    (loaders : List Loader) (now : Nat) (name : String) :
    let c := (empty interval policy).afterAll history
    let r := c.get loaders now name
    (∀ t, r.answer = .ok t → ∃ e, r.cache.entries.get? name = some e ∧ e.template = t) ∧
      (∀ f, r.answer = .error f → r.cache.entries.get? name = none) ∧
      (∀ other, other ≠ name → r.cache.entries.get? other = c.entries.get? other) ∧
      (∀ other e, c.entries.get? other = some e → Recorded history policy other e) ∧
      (∀ e, c.entries.get? name = some e → c.isDue now e = false ∨ interval = 0 →
        r = ⟨.ok e.template, c, []⟩) := by
  intro c r
  have grounded : c.Grounded interval policy history := (grounded_empty interval policy).afterAll history
  have settled := c.settled_get loaders now name
  refine ⟨settled.held, settled.dropped, settled.others, fun other e he => grounded.recorded he, ?_⟩
  intro e he unchecked
  have notDue : c.isDue now e = false := by
    rcases unchecked with notDue | zero
    · exact notDue
    · exact isDue_of_interval_zero (grounded.interval.trans zero) now e
  exact get_of_not_due he notDue

end TemplateCache

end Stencil
