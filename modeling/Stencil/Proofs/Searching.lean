import Mathlib.Tactic.Lemma
import Stencil.TemplateCache

/-!
# How the template cache comes to an answer

An entry is the answer until it has to be checked, and then again if its stamp is still that of its loader. A text with
another stamp is compiled anew; where the loader of the entry has no text any more, and where there is no entry, the
loaders are searched, and the first one that has something decides. Main statement: `TemplateCache.gets`, every way to
an answer and the cache that it leaves.
-/

namespace Stencil.TemplateCache

/-- What compiling a name from the loader at a place answers, with the cache afterwards. -/
inductive CompilesBy (c : TemplateCache) (now : Nat) (name : String) (place : Nat) (l : Loader) :
    Except TemplateError (Option CacheEntry) → TemplateCache → Prop
  | failing {e : TemplateError} : l.load name = .error e → CompilesBy c now name place l (.error e) c
  | absent : l.load name = .ok none → CompilesBy c now name place l (.ok none) c
  | faulty {r : Resource} {e : TemplateError} : l.load name = .ok (some r) →
    Template.compile (.loaded c.compiled) ⟨name, r.text⟩ c.gobbling = .error e →
    CompilesBy c now name place l (.error e) { c with compiled := c.compiled + 1 }
  | compiled {r : Resource} {t : Template} : l.load name = .ok (some r) →
    Template.compile (.loaded c.compiled) ⟨name, r.text⟩ c.gobbling = .ok t →
    CompilesBy c now name place l (.ok (some ⟨t, r.stamp, place, now⟩)) { c with compiled := c.compiled + 1 }

/-- What a search of the loaders answers, with the cache afterwards. The loaders that were asked before the one that
decides have nothing under the name. -/
inductive Searches (c : TemplateCache) (loaders : List Loader) (now : Nat) (name : String) :
    Except TemplateError Template → TemplateCache → Prop
  | nowhere : (∀ l ∈ loaders, l.load name = .ok none) → Searches c loaders now name (.error (.of (.noLoader name))) c
  | refused {before after : List Loader} {l : Loader} {e : TemplateError} {d : TemplateCache} :
    loaders = before ++ l :: after → (∀ x ∈ before, x.load name = .ok none) →
    CompilesBy c now name before.length l (.error e) d → Searches c loaders now name (.error e) d
  | found {before after : List Loader} {l : Loader} {e : CacheEntry} {d : TemplateCache} :
    loaders = before ++ l :: after → (∀ x ∈ before, x.load name = .ok none) →
    CompilesBy c now name before.length l (.ok (some e)) d →
    Searches c loaders now name (.ok e.template) (d.store name e)

/-- Whether the loader of an entry has nothing under a name any more, or is none of the loaders. -/
def Gone (loaders : List Loader) (name : String) (e : CacheEntry) : Prop :=
  ∀ l, loaders[e.loader]? = some l → l.stamp? name = none ∨ l.load name = .ok none

/-- What a cache answers for a name, with the cache afterwards. -/
inductive Gets (c : TemplateCache) (loaders : List Loader) (now : Nat) (name : String) :
    Except TemplateError Template → TemplateCache → Prop
  | missing {answer : Except TemplateError Template} {d : TemplateCache} : c.entries.get? name = none →
    Searches c loaders now name answer d → Gets c loaders now name answer d
  | held {e : CacheEntry} : c.entries.get? name = some e → c.isDue now e = false →
    Gets c loaders now name (.ok e.template) c
  | checked {e : CacheEntry} {l : Loader} {stamp : Stamp} : c.entries.get? name = some e → c.isDue now e = true →
    loaders[e.loader]? = some l → l.stamp? name = some stamp → e.stamp = some stamp →
    Gets c loaders now name (.ok e.template) (c.store name { e with checked := now })
  | renewed {e fresh : CacheEntry} {l : Loader} {stamp : Stamp} {d : TemplateCache} :
    c.entries.get? name = some e → c.isDue now e = true → loaders[e.loader]? = some l →
    l.stamp? name = some stamp → e.stamp ≠ some stamp → CompilesBy c now name e.loader l (.ok (some fresh)) d →
    Gets c loaders now name (.ok fresh.template) (d.store name fresh)
  | refused {e : CacheEntry} {l : Loader} {stamp : Stamp} {f : TemplateError} {d : TemplateCache} :
    c.entries.get? name = some e → c.isDue now e = true → loaders[e.loader]? = some l →
    l.stamp? name = some stamp → e.stamp ≠ some stamp → CompilesBy c now name e.loader l (.error f) d →
    Gets c loaders now name (.error f) (d.evict name)
  | gone {e : CacheEntry} {answer : Except TemplateError Template} {d : TemplateCache} :
    c.entries.get? name = some e → c.isDue now e = true → Gone loaders name e →
    Searches (c.evict name) loaders now name answer d → Gets c loaders now name answer d

lemma compilesBy (c : TemplateCache) (now : Nat) (name : String) (place : Nat) (l : Loader) :
    CompilesBy c now name place l (c.compileBy now name place l).answer (c.compileBy now name place l).cache := by
  unfold compileBy
  dsimp only
  split
  · next load => exact .failing load
  · next load => exact .absent load
  · next load =>
    split
    · next compiled => exact .faulty load compiled
    · next compiled => exact .compiled load compiled

/-- A search that starts behind loaders that have nothing under the name. -/
lemma searches_append (c : TemplateCache) (now : Nat) {name : String} {before : List Loader}
    (nothing : ∀ x ∈ before, x.load name = .ok none) (rest : List Loader) :
    Searches c (before ++ rest) now name (c.loadFrom now name before.length rest).answer
      (c.loadFrom now name before.length rest).cache := by
  induction rest generalizing before with
  | nil =>
    rw [List.append_nil]
    exact .nowhere nothing
  | cons l rest ih =>
    have step := compilesBy c now name before.length l
    unfold loadFrom
    generalize c.compileBy now name before.length l = r at step
    obtain ⟨answer, d, questions⟩ := r
    cases answer with
    | error e => exact .refused rfl nothing step
    | ok e? =>
      cases e? with
      | some e => exact .found rfl nothing step
      | none =>
        cases step with
        | absent load =>
          -- This loader has nothing either: it joins those that were asked before.
          have later := @ih (before ++ [l]) fun x hx => by
            rcases List.mem_append.mp hx with hx | hx
            · exact nothing x hx
            · rw [List.mem_singleton.mp hx, load]
          rw [List.length_append, List.append_assoc] at later
          exact later

lemma searches (c : TemplateCache) (loaders : List Loader) (now : Nat) (name : String) :
    Searches c loaders now name (c.loadFrom now name 0 loaders).answer (c.loadFrom now name 0 loaders).cache :=
  @searches_append c now name [] nofun loaders

theorem gets (c : TemplateCache) (loaders : List Loader) (now : Nat) (name : String) :
    Gets c loaders now name (c.get loaders now name).answer (c.get loaders now name).cache := by
  unfold get
  cases he : c.entries.get? name with
  | none => exact .missing he (searches c loaders now name)
  | some e =>
    dsimp only
    split
    · next due =>
      have search (gone : Gone loaders name e) := Gets.gone he due gone (searches (c.evict name) loaders now name)
      unfold recheck
      dsimp only
      cases hl : loaders[e.loader]? with
      | none => exact search fun l at_ => by cases hl.symm.trans at_
      | some l =>
        dsimp only
        cases hs : l.stamp? name with
        | none => exact search fun x at_ => .inl (Option.some.inj (hl.symm.trans at_) ▸ hs)
        | some stamp =>
          dsimp only
          split
          · next same => exact .checked he due hl hs same.symm
          · next other =>
            have step := compilesBy c now name e.loader l
            generalize c.compileBy now name e.loader l = r at step
            obtain ⟨answer, d, questions⟩ := r
            cases answer with
            | error f => exact .refused he due hl hs (Ne.symm other) step
            | ok fresh? =>
              cases fresh? with
              | some fresh => exact .renewed he due hl hs (Ne.symm other) step
              | none =>
                cases step with
                | absent load => exact search fun x at_ => .inr (Option.some.inj (hl.symm.trans at_) ▸ load)
    · next rested => exact .held he (eq_false_of_ne_true rested)

end Stencil.TemplateCache
