import Stencil.Proofs.Retention

/-!
# No stale template

Templates in memory are stamped so that no stamp comes twice for a name, whatever the clock shows. So a cache before
them that checks an entry finds out whether its text is still the one that it compiled. Main statement:
`Depot.answers_current_text`.
-/

namespace Stencil

/-! ### Templates in memory -/

namespace StringLoader

variable {l l' : StringLoader} {name : String}

def text? (l : StringLoader) (name : String) : Option String := (l.templates.get? name).map Resource.text

/-- Every text has a stamp that the loader's clock has passed. -/
def Stamped (l : StringLoader) : Prop :=
  ∀ name r, l.templates.get? name = some r → ∃ s, r.stamp = some s ∧ s ≤ l.clock

/-- A loader some time later: what it has now it had before, or it was put there under a new stamp. -/
structure Later (l l' : StringLoader) : Prop where
  clock : l.clock ≤ l'.clock
  texts : ∀ {name r}, l'.templates.get? name = some r →
    l.templates.get? name = some r ∨ ∃ s, r.stamp = some s ∧ l.clock < s ∧ s ≤ l'.clock

lemma stamped_empty : empty.Stamped := by
  intro name r h
  cases h

lemma Stamped.later (h : l.Stamped) (hl : l.Later l') : l'.Stamped := by
  intro name r hr
  rcases hl.texts hr with before | ⟨s, stamp, -, le⟩
  · obtain ⟨s, stamp, le⟩ := h name r before
    exact ⟨s, stamp, Nat.le_trans le hl.clock⟩
  · exact ⟨s, stamp, le⟩

lemma Later.refl (l : StringLoader) : l.Later l := ⟨Nat.le_refl _, .inl⟩

lemma later_put (l : StringLoader) (now : Stamp) (name text : String) : l.Later (l.put now name text) where
  clock := Nat.le_of_lt (l.clock_lt_clock_put now name text)
  texts {other r} h := by
    rw [put, Dict.get?_insert] at h
    split at h
    · cases h
      exact .inr ⟨_, rfl, l.clock_lt_clock_put now name text, Nat.le_refl _⟩
    · exact .inl h

lemma later_remove (l : StringLoader) (name : String) : l.Later (l.remove name).2 where
  clock := Nat.le_refl _
  texts {other r} h := by
    rw [remove, Dict.get?_erase] at h
    split at h
    · cases h
    · exact .inl h

end StringLoader

/-- An entry that came from its loader under a stamp that no other text of the name has got since. -/
def CacheEntry.Tracks (loaders : List StringLoader) (policy : GobblingPolicy) (name : String) (e : CacheEntry) : Prop :=
  ∃ l s text, loaders[e.loader]? = some l ∧ e.stamp = some s ∧ s ≤ l.clock ∧
    Template.compile e.template.unit ⟨name, text⟩ policy = .ok e.template ∧
    ∀ r, l.templates.get? name = some r → r.stamp = some s → r.text = text

/-- Loaders some time later, each at its place. -/
def LaterAll (loaders loaders' : List StringLoader) : Prop :=
  ∀ {k : Nat} {l : StringLoader}, loaders[k]? = some l → ∃ l', loaders'[k]? = some l' ∧ StringLoader.Later l l'

variable {loaders loaders' : List StringLoader} {policy : GobblingPolicy} {name : String} {e e' : CacheEntry}

/-- What becomes of one loader leaves the others as they are. -/
lemma laterAll_modify {f : StringLoader → StringLoader} (hf : ∀ l : StringLoader, l.Later (f l)) (k : Nat)
    (loaders : List StringLoader) : LaterAll loaders (loaders.modify k f) := by
  intro j l hl
  by_cases hk : k = j
  · exact ⟨f l, by simp [hl, hk], hf l⟩
  · exact ⟨l, by simp [hl, hk], .refl l⟩

lemma CacheEntry.Tracks.later (h : e.Tracks loaders policy name) (hl : LaterAll loaders loaders') :
    e.Tracks loaders' policy name := by
  obtain ⟨l, s, text, at_, stamp, le, compiled, same⟩ := h
  obtain ⟨l', at', later⟩ := hl at_
  refine ⟨l', s, text, at', stamp, Nat.le_trans le later.clock, compiled, fun r hr hs => ?_⟩
  rcases later.texts hr with before | ⟨s', hs', lt, -⟩
  · exact same r before hs
  · -- A text that was put meanwhile has a later stamp than the entry.
    obtain rfl : s' = s := Option.some.inj (hs'.symm.trans hs)
    exact absurd le (Nat.not_le_of_lt lt)

lemma CacheEntry.Tracks.rechecks (h : e'.Tracks loaders policy name) (hr : e.Rechecks e') :
    e.Tracks loaders policy name := by
  obtain ⟨checked, rfl⟩ := hr
  exact h

/-- What was loaded just now tracks its text. -/
lemma CacheEntry.LoadedFrom.tracks (h : e.LoadedFrom (loaders.map StringLoader.loader) policy name)
    (hs : ∀ l ∈ loaders, l.Stamped) : e.Tracks loaders policy name := by
  obtain ⟨loader, text, hl, load, compiled⟩ := h.source
  rw [List.getElem?_map] at hl
  obtain ⟨l, at_, rfl⟩ := Option.map_eq_some_iff.mp hl
  have found : l.templates.get? name = some ⟨text, e.stamp⟩ := Except.ok.inj load
  obtain ⟨s, stamp, le⟩ := hs l (List.mem_of_getElem? at_) name _ found
  refine ⟨l, s, text, at_, stamp, le, compiled, fun r hr _ => ?_⟩
  rw [found] at hr
  cases hr
  rfl

/-! ### Answers -/

/-- The answer for a text that counts for a name, compiled now, or for none. -/
def Answers (policy : GobblingPolicy) (name : String) (text? : Option String) (answer : Except TemplateError Template) :
    Prop :=
  match text? with
  | some text => ∃ unit, answer = Template.compile unit ⟨name, text⟩ policy
  | none => answer = .error (.of (.noLoader name))

namespace TemplateCache

variable {c d : TemplateCache} {now place : Nat} {l : StringLoader} {answer : Except TemplateError Template}

lemma CompilesBy.exists_text_of_error {f : TemplateError} (h : CompilesBy c now name place l.loader (.error f) d) :
    ∃ text unit, l.text? name = some text ∧ Template.compile unit ⟨name, text⟩ c.gobbling = .error f := by
  cases h with
  | failing load => cases load
  | @faulty r _ load compiled => exact ⟨r.text, _, congrArg (Option.map Resource.text) (Except.ok.inj load), compiled⟩

lemma CompilesBy.exists_text_of_ok (h : CompilesBy c now name place l.loader (.ok (some e)) d) :
    ∃ text unit, l.text? name = some text ∧ Template.compile unit ⟨name, text⟩ c.gobbling = .ok e.template := by
  cases h with
  | @compiled r _ load compiled => exact ⟨r.text, _, congrArg (Option.map Resource.text) (Except.ok.inj load), compiled⟩

/-- A search answers with the text of the first loader that has one. -/
lemma Searches.answers (h : Searches c (loaders.map StringLoader.loader) now name answer d) :
    Answers c.gobbling name (loaders.findSome? (·.text? name)) answer := by
  have without {passed : List StringLoader} (nothing : ∀ x ∈ passed.map StringLoader.loader, x.load name = .ok none) :
      passed.findSome? (·.text? name) = none := by
    refine List.findSome?_eq_none_iff.mpr fun x hx => ?_
    exact congrArg (Option.map Resource.text) (Except.ok.inj (nothing _ (List.mem_map_of_mem hx)))
  have decides {before after : List Loader} {l : Loader}
      (split : loaders.map StringLoader.loader = before ++ l :: after)
      (nothing : ∀ x ∈ before, x.load name = .ok none) :
      ∃ first : StringLoader, l = first.loader ∧
        ∀ {text}, first.text? name = some text → loaders.findSome? (·.text? name) = some text := by
    obtain ⟨passed, rest, rfl, rfl, others⟩ := List.map_eq_append_iff.mp split
    obtain ⟨first, rest, rfl, rfl, rfl⟩ := List.map_eq_cons_iff.mp others
    refine ⟨first, rfl, fun {text} found => ?_⟩
    rw [List.findSome?_append, without nothing, Option.none_or, List.findSome?_cons, found]
  cases h with
  | nowhere nothing =>
    rw [without nothing]
    rfl
  | refused split nothing step =>
    obtain ⟨first, rfl, found⟩ := decides split nothing
    obtain ⟨text, unit, has, compiled⟩ := step.exists_text_of_error
    rw [found has]
    exact ⟨unit, compiled.symm⟩
  | found split nothing step =>
    obtain ⟨first, rfl, found⟩ := decides split nothing
    obtain ⟨text, unit, has, compiled⟩ := step.exists_text_of_ok
    rw [found has]
    exact ⟨unit, compiled.symm⟩

/-- Where no entry is answered unchecked, an answer has the text of the loader of the entry, and where that has nothing,
the one that a search finds. -/
lemma Gets.answers (h : Gets c (loaders.map StringLoader.loader) now name answer d) (hs : ∀ l ∈ loaders, l.Stamped)
    (tracks : ∀ e, c.entries.get? name = some e → e.Tracks loaders c.gobbling name)
    (due : ∀ e, c.entries.get? name = some e → c.isDue now e = true) :
    Answers c.gobbling name (((c.entries.get? name).bind fun e => loaders[e.loader]?.bind (·.text? name)).or
      (loaders.findSome? (·.text? name))) answer := by
  have place {k : Nat} {l : Loader} (hl : (loaders.map StringLoader.loader)[k]? = some l) :
      ∃ l', loaders[k]? = some l' ∧ l'.loader = l := by
    rw [List.getElem?_map] at hl
    exact Option.map_eq_some_iff.mp hl
  cases h with
  | missing he search =>
    rw [he]
    exact search.answers
  | held he rested => cases rested.symm.trans (due _ he)
  | @checked e _ stamp he _ hl hs unchanged =>
    obtain ⟨l, at_, rfl⟩ := place hl
    -- The stamp is that of the entry, so the text is, too.
    obtain ⟨l', s, text, at', stamped, -, compiled, same⟩ := tracks _ he
    obtain rfl : l = l' := Option.some.inj (at_.symm.trans at')
    obtain ⟨r, found, hr⟩ := Option.bind_eq_some_iff.mp hs
    have kept : l.text? name = some text := by
      rw [StringLoader.text?, found, Option.map_some, same r found (hr.trans (unchanged.symm.trans stamped))]
    rw [he, Option.bind_some, at_, Option.bind_some, kept]
    exact ⟨e.template.unit, compiled.symm⟩
  | renewed he _ hl _ _ step =>
    obtain ⟨l, at_, rfl⟩ := place hl
    obtain ⟨text, unit, found, compiled⟩ := step.exists_text_of_ok
    rw [he, Option.bind_some, at_, Option.bind_some, found]
    exact ⟨unit, compiled.symm⟩
  | refused he _ hl _ _ step =>
    obtain ⟨l, at_, rfl⟩ := place hl
    obtain ⟨text, unit, found, compiled⟩ := step.exists_text_of_error
    rw [he, Option.bind_some, at_, Option.bind_some, found]
    exact ⟨unit, compiled.symm⟩
  | gone he _ gone search =>
    obtain ⟨l, -, -, at_, -⟩ := tracks _ he
    have nothing : l.templates.get? name = none := by
      rcases gone l.loader ((List.getElem?_map ..).trans (congrArg (Option.map _) at_)) with unstamped | absent
      · cases found : l.templates.get? name with
        | none => rfl
        | some r =>
          -- What has no stamp is not there: every text has one.
          obtain ⟨s, stamp, -⟩ := hs l (List.mem_of_getElem? at_) name r found
          cases unstamped.symm.trans ((congrArg (Option.bind · Resource.stamp) found).trans stamp)
      · exact Except.ok.inj absent
    have text : l.text? name = none := congrArg (Option.map Resource.text) nothing
    rw [he, Option.bind_some, at_, Option.bind_some, text]
    exact search.answers

end TemplateCache

/-! ### Templates in memory behind a cache -/

/-- Templates in memory, which loaders offer in order, and a cache of what was compiled from them. -/
structure Depot where
  loaders : List StringLoader
  cache : TemplateCache

/-- What is done with a depot. Loaders are given by their places; each put reads a clock, and so does each get. -/
inductive DepotUse where
  | put (loader : Nat) (now : Stamp) (name text : String)
  | remove (loader : Nat) (name : String)
  | get (now : Nat) (name : String)
  | evict (name : String)
  | clear

namespace Depot

def empty (count interval : Nat) (policy : GobblingPolicy) : Depot :=
  ⟨List.replicate count .empty, .empty interval policy⟩

def get (d : Depot) (now : Nat) (name : String) : Consulted Template :=
  d.cache.get (d.loaders.map StringLoader.loader) now name

/-- The depot after one use. -/
def after (d : Depot) : DepotUse → Depot
  | .put loader now name text => { d with loaders := d.loaders.modify loader (·.put now name text) }
  | .remove loader name => { d with loaders := d.loaders.modify loader fun l => (l.remove name).2 }
  | .get now name => { d with cache := (d.get now name).cache }
  | .evict name => { d with cache := d.cache.evict name }
  | .clear => { d with cache := d.cache.clear }

/-- The depot after some uses, in order. -/
def afterAll (d : Depot) (history : List DepotUse) : Depot := history.foldl after d

/-- The text that counts for a name: what the loader of its entry has, or else what the first loader has that has
any. -/
def text? (d : Depot) (name : String) : Option String :=
  ((d.cache.entries.get? name).bind fun e => d.loaders[e.loader]?.bind (·.text? name)).or
    (d.loaders.findSome? (·.text? name))

/-- Every text has its stamp and every entry tracks its text. -/
structure Sound (policy : GobblingPolicy) (d : Depot) : Prop where
  gobbling : d.cache.gobbling = policy
  stamped : ∀ l ∈ d.loaders, l.Stamped
  tracks : ∀ {name e}, d.cache.entries.get? name = some e → e.Tracks d.loaders policy name

variable {d : Depot}

lemma sound_empty (count interval : Nat) (policy : GobblingPolicy) : (empty count interval policy).Sound policy where
  gobbling := rfl
  stamped l hl := by
    obtain rfl := List.eq_of_mem_replicate hl
    exact StringLoader.stamped_empty
  tracks h := by cases h

/-- A change of one loader keeps a depot sound. -/
lemma Sound.modify (h : d.Sound policy) {f : StringLoader → StringLoader} (hf : ∀ l : StringLoader, l.Later (f l))
    (k : Nat) : Sound policy { d with loaders := d.loaders.modify k f } where
  gobbling := h.gobbling
  stamped l hl := by
    obtain ⟨j, hj⟩ := List.mem_iff_getElem?.mp hl
    rw [List.getElem?_modify] at hj
    obtain ⟨l', hl', rfl⟩ := Option.map_eq_some_iff.mp hj
    have before : l'.Stamped := h.stamped l' (List.mem_of_getElem? hl')
    split
    · exact before.later (hf l')
    · exact before
  tracks he := (h.tracks he).later (laterAll_modify hf k d.loaders)

/-- Every use keeps a depot sound. -/
lemma Sound.after (h : d.Sound policy) (use : DepotUse) : (d.after use).Sound policy := by
  cases use with
  | put loader now name text => exact h.modify (fun l => l.later_put now name text) loader
  | remove loader name => exact h.modify (fun l => l.later_remove name) loader
  | get now name =>
    have settled := d.cache.settled_get (d.loaders.map StringLoader.loader) now name
    refine ⟨settled.gobbling.trans h.gobbling, h.stamped, fun {other e} he => ?_⟩
    by_cases hn : other = name
    · subst hn
      rcases settled.origin e he with loaded | ⟨e', he', rechecks⟩
      · rw [h.gobbling] at loaded
        exact loaded.tracks h.stamped
      · exact (h.tracks he').rechecks rechecks
    · exact h.tracks ((settled.others other hn).symm.trans he)
  | evict name =>
    refine ⟨h.gobbling, h.stamped, fun {other e} he => ?_⟩
    by_cases hn : other = name
    · rw [hn, Depot.after, TemplateCache.get?_evict_self] at he
      cases he
    · rw [Depot.after, TemplateCache.get?_evict_of_ne _ hn] at he
      exact h.tracks he
  | clear => exact ⟨h.gobbling, h.stamped, fun he => by cases he⟩

lemma Sound.afterAll (h : d.Sound policy) (history : List DepotUse) : (d.afterAll history).Sound policy := by
  induction history generalizing d with
  | nil => exact h
  | cons use history ih => exact ih (h.after use)

/-- A sound depot whose entry of a name is due answers with the text that counts for the name. -/
lemma Sound.answers (h : d.Sound policy) {now : Nat}
    (due : ∀ e, d.cache.entries.get? name = some e → d.cache.isDue now e = true) :
    Answers policy name (d.text? name) (d.get now name).answer := by
  have policy := h.gobbling
  subst policy
  exact (d.cache.gets _ now name).answers h.stamped (fun _ he => h.tracks he) due

/-- The text that counts for a name is one that a loader has now. -/
lemma exists_of_text? {text : String} (h : d.text? name = some text) :
    ∃ l ∈ d.loaders, l.text? name = some text := by
  unfold text? at h
  rcases Option.or_eq_some_iff.mp h with found | ⟨-, found⟩
  · obtain ⟨e, -, found⟩ := Option.bind_eq_some_iff.mp found
    obtain ⟨l, at_, found⟩ := Option.bind_eq_some_iff.mp found
    exact ⟨l, List.mem_of_getElem? at_, found⟩
  · obtain ⟨l, hl, found⟩ := List.exists_of_findSome?_eq_some found
    exact ⟨l, hl, found⟩

/-- After any history of puts, removals, gets, evictions and clearings, whatever the clocks showed, a get of a name
whose entry is due answers what compiling the text that counts for the name would answer now, or that no loader has
one. So every template that is answered has a text that some loader has now. -/
theorem answers_current_text (count interval : Nat) (policy : GobblingPolicy) (history : List DepotUse) (now : Nat)
    (name : String) (due : ∀ e, ((empty count interval policy).afterAll history).cache.entries.get? name = some e →
      ((empty count interval policy).afterAll history).cache.isDue now e = true) :
    let d := (empty count interval policy).afterAll history
    Answers policy name (d.text? name) (d.get now name).answer ∧
      ∀ t, (d.get now name).answer = .ok t → ∃ l ∈ d.loaders, l.text? name = some t.source.text := by
  intro d
  have answers := ((sound_empty count interval policy).afterAll history).answers due
  refine ⟨answers, fun t ht => ?_⟩
  unfold Answers at answers
  split at answers
  · next text counts =>
    obtain ⟨unit, answer⟩ := answers
    obtain ⟨l, hl, found⟩ := exists_of_text? counts
    have source : t.source = ⟨name, text⟩ := (Template.eq_of_compile (answer.symm.trans ht)).1
    exact ⟨l, hl, by rw [found, source]⟩
  · cases answers.symm.trans ht

/-- A text is compiled, removed and put again while the clock goes back; an earlier loader gets a text, too. -/
def restocked : List DepotUse :=
  [.put 1 7 "a" "first", .get 10 "a", .remove 1 "a", .put 1 3 "a" "second", .put 0 0 "a" "other"]

theorem answers_current_text_of_restocked :
    let d := (empty 2 1 .none).afterAll restocked
    (∀ e, d.cache.entries.get? "a" = some e → d.cache.isDue 20 e = true) ∧ d.text? "a" = some "second" ∧
      (d.get 20 "a").answer.isOk = true ∧ Answers .none "a" (d.text? "a") (d.get 20 "a").answer ∧
      ∀ t, (d.get 20 "a").answer = .ok t → ∃ l ∈ d.loaders, l.text? "a" = some t.source.text := by
  have due := (Option.all_eq_true (((empty 2 1 .none).afterAll restocked).cache.isDue 20)
    (((empty 2 1 .none).afterAll restocked).cache.entries.get? "a")).mp (by decide +kernel)
  have current := answers_current_text 2 1 .none restocked 20 "a" due
  exact ⟨due, by decide +kernel, by decide +kernel, current⟩

end Depot

end Stencil
