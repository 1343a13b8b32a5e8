import Mathlib.Data.List.Dedup
import Mathlib.Data.List.Perm.Lattice
import Mathlib.Tactic.Lemma
import Stencil.Render.Reference

/-!
# What is remembered of members

Requests for members are made of the memory of an engine, and by a render of what it remembers of its own and then of
that memory. Main statement: `ChoiceMemory.exact_of_asked`, after any requests the answers are those that each request
alone gets, and the memory holds exactly the choices that were made.
-/

namespace Stencil

/-- A request that was made, the site in a template where a render made it, and the answer. -/
structure Inquiry where
  site : Option ChoiceSite
  request : MemberRequest
  answer : Except NoChoice MemberChoice

/-- Requests in any order, the latest first, with the memory and the choices at their sites afterwards. -/
inductive Asked (types : HostTypes) :
    List Inquiry → ChoiceMemory → List (ChoiceSite × MemberChoice) → Prop
  | nothing : Asked types [] .empty []
  | directly {log : List Inquiry} {i : ChoiceMemory} {cs : List (ChoiceSite × MemberChoice)} (q : MemberRequest) :
      Asked types log i cs →
      Asked types (⟨none, q, (i.resolve types q).1⟩ :: log) (i.resolve types q).2 cs
  | placed {log : List Inquiry} {env : RenderEnv} {s s' : RenderState} {place : Position} {q : MemberRequest}
      {answer : Except NoChoice MemberChoice} :
      Asked types log s.memory s.choices → env.types = types → Render.chosen place q env s = .ok answer s' →
      Asked types (⟨some ⟨env.unit, place.span.start, q⟩, q, answer⟩ :: log) s'.memory s'.choices

/-- Whether a request got a choice. -/
def Inquiry.Chose (x : Inquiry) : Prop := ∃ p, x.answer = .ok p

instance (x : Inquiry) : Decidable x.Chose :=
  match h : x.answer with
  | .ok p => .isTrue ⟨p, h⟩
  | .error _ => .isFalse fun ⟨_, hp⟩ => by cases h.symm.trans hp

namespace Inquiry

/-- Whether a request gets to the memory: a render does not ask it again at a site where it got a choice. -/
def Reaches (earlier : List Inquiry) (x : Inquiry) : Prop :=
  x.site = none ∨ ∀ y ∈ earlier, y.site = x.site → ¬y.Chose

instance (earlier : List Inquiry) (x : Inquiry) : Decidable (x.Reaches earlier) :=
  inferInstanceAs (Decidable (_ ∨ _))

/-- How many requests got to the memory. -/
def reaching : List Inquiry → Nat
  | [] => 0
  | x :: earlier => reaching earlier + if x.Reaches earlier then 1 else 0

/-- The requests that got a choice. -/
def chosen (log : List Inquiry) : List MemberRequest := (log.filter fun x => x.Chose).map request

lemma mem_chosen_iff {log : List Inquiry} {q : MemberRequest} :
    q ∈ chosen log ↔ ∃ x ∈ log, q = x.request ∧ x.Chose := by
  unfold chosen
  simp only [List.mem_map, List.mem_filter, decide_eq_true_eq]
  constructor
  · rintro ⟨x, ⟨hx, chose⟩, rfl⟩
    exact ⟨x, hx, rfl, chose⟩
  · rintro ⟨x, hx, rfl, chose⟩
    exact ⟨x, ⟨hx, chose⟩, rfl⟩

lemma mem_chosen_cons {log : List Inquiry} {x : Inquiry} {q : MemberRequest} :
    q ∈ chosen (x :: log) ↔ q = x.request ∧ x.Chose ∨ q ∈ chosen log := by
  rw [mem_chosen_iff, mem_chosen_iff]
  exact List.exists_mem_cons_iff _ x log

end Inquiry

namespace ChoiceMemory

open Inquiry (chosen reaching)

variable {types : HostTypes} {log : List Inquiry} {i : ChoiceMemory} {cs : List (ChoiceSite × MemberChoice)}
  {x : Inquiry} {q : MemberRequest}

/-- A memory after some requests: it has an entry for each of those that got a choice, and its counters count those
that got to it. -/
structure Exact (types : HostTypes) (log : List Inquiry) (i : ChoiceMemory) : Prop where
  answers : ∀ x ∈ log, x.answer = x.request.resolve types
  sound : i.Sound types
  distinct : (i.choices.map Prod.fst).Nodup
  remembered : ∀ q, q ∈ i.choices.map Prod.fst ↔ q ∈ chosen log
  counted : i.hits + i.misses = reaching log
  entered : i.entries ≤ i.misses

/-- The choices of a render after some requests: there is one at each site where a request got one. -/
structure Visited (types : HostTypes) (log : List Inquiry) (cs : List (ChoiceSite × MemberChoice)) : Prop where
  sound : ∀ site p, cs.lookup site = some p → site.request.resolve types = .ok p
  requests : ∀ x ∈ log, ∀ site, x.site = some site → x.request = site.request
  visited : ∀ site, site ∈ cs.map Prod.fst ↔ ∃ x ∈ log, x.site = some site ∧ x.Chose

/-- The keys of some entries are those that are found. -/
lemma mem_keys_iff {κ α : Type} [DecidableEq κ] {entries : List (κ × α)} {k : κ} :
    k ∈ entries.map Prod.fst ↔ ∃ v, entries.lookup k = some v := by
  induction entries with
  | nil => simp
  | cons e entries ih =>
    rw [List.map_cons, List.mem_cons, List.lookup_cons]
    by_cases here : k = e.1
    · simp [here]
    · rw [beq_eq_false_iff_ne.mpr here]
      simpa [here] using ih

lemma exact_empty (types : HostTypes) : Exact types [] empty where
  answers _ hx := absurd hx List.not_mem_nil
  sound := sound_empty types
  distinct := List.nodup_nil
  remembered _ := Iff.rfl
  counted := rfl
  entered := Nat.le_refl _

lemma visited_nil (types : HostTypes) : Visited types [] [] where
  sound _ _ h := by cases h
  requests _ hx := absurd hx List.not_mem_nil
  visited site := by simp

/-- A request is answered by its entry, or else anew and entered unless it fails. -/
lemma resolve_cases (types : HostTypes) (i : ChoiceMemory) (q : MemberRequest) :
    (∃ p, i.choices.lookup q = some p ∧ i.resolve types q = (.ok p, { i with hits := i.hits + 1 })) ∨
      (∃ p, q ∉ i.choices.map Prod.fst ∧ q.resolve types = .ok p ∧
        i.resolve types q = (.ok p, { i with choices := (q, p) :: i.choices, misses := i.misses + 1 })) ∨
      ∃ f, q.resolve types = .error f ∧ i.resolve types q = (.error f, { i with misses := i.misses + 1 }) := by
  unfold resolve
  cases hq : i.choices.lookup q with
  | some p => exact .inl ⟨p, rfl, rfl⟩
  | none =>
    have missing : q ∉ i.choices.map Prod.fst := by
      rw [mem_keys_iff, hq]
      exact nofun
    cases q.resolve types with
    | ok p => exact .inr (.inl ⟨p, missing, rfl, rfl⟩)
    | error f => exact .inr (.inr ⟨f, rfl, rfl⟩)

/-- The memory stays exact when it answers one more request. -/
lemma Exact.resolve (h : Exact types log i) (answer : x.answer = (i.resolve types x.request).1)
    (reaches : x.Reaches log) : Exact types (x :: log) (i.resolve types x.request).2 := by
  have alone : x.answer = x.request.resolve types := answer.trans (resolve_fst h.sound x.request)
  have counted : reaching (x :: log) = reaching log + 1 := by
    rw [reaching, if_pos reaches]
  have counts := counts_resolve types i x.request
  have counter := h.counted
  have entered := h.entered
  refine ⟨List.forall_mem_cons.mpr ⟨alone, h.answers⟩, h.sound.resolve x.request, ?_, fun q => ?_, by omega, ?_⟩ <;>
    obtain ⟨p, hp, run⟩ | ⟨p, missing, -, run⟩ | ⟨f, -, run⟩ := resolve_cases types i x.request <;> rw [run]
  · exact h.distinct
  · exact List.nodup_cons.mpr ⟨missing, h.distinct⟩
  · exact h.distinct
  · have present : x.request ∈ chosen log := (h.remembered _).mp (mem_keys_iff.mpr ⟨p, hp⟩)
    rw [h.remembered, Inquiry.mem_chosen_cons]
    exact ⟨.inr, fun hq => hq.elim (fun here => here.1 ▸ present) id⟩
  · have chose : x.Chose := ⟨p, answer.trans (congrArg Prod.fst run)⟩
    rw [Inquiry.mem_chosen_cons, List.map_cons, List.mem_cons, h.remembered]
    exact or_congr_left (and_iff_left chose).symm
  · have failed : ¬x.Chose := fun ⟨p, hp⟩ => by
      rw [answer, run] at hp
      cases hp
    rw [Inquiry.mem_chosen_cons, h.remembered]
    exact (or_iff_right fun here => failed here.2).symm
  · exact entered
  · exact Nat.succ_le_succ entered
  · exact Nat.le_succ_of_le entered

/-- The memory stays exact when a request is answered at a site where it got a choice before. -/
lemma Exact.revisit (h : Exact types log i) (answer : x.answer = x.request.resolve types) (reaches : ¬x.Reaches log)
    (before : x.request ∈ chosen log) : Exact types (x :: log) i where
  answers := List.forall_mem_cons.mpr ⟨answer, h.answers⟩
  sound := h.sound
  distinct := h.distinct
  remembered q := by
    rw [h.remembered, Inquiry.mem_chosen_cons]
    exact ⟨.inr, fun hq => hq.elim (fun here => here.1 ▸ before) id⟩
  counted := by
    rw [reaching, if_neg reaches]
    exact h.counted
  entered := h.entered

/-- A request that is not made at a site, or gets no choice, leaves the choices at the sites as they are. -/
lemma Visited.unplaced (h : Visited types log cs) (request : ∀ site, x.site = some site → x.request = site.request)
    (hx : x.site = none ∨ ¬x.Chose) : Visited types (x :: log) cs where
  sound := h.sound
  requests := List.forall_mem_cons.mpr ⟨request, h.requests⟩
  visited site := by
    rw [h.visited, List.exists_mem_cons_iff]
    refine (or_iff_right ?_).symm
    rintro ⟨here, chose⟩
    rcases hx with none | failed
    · cases none.symm.trans here
    · exact failed chose

lemma Visited.placed (h : Visited types log cs) {site : ChoiceSite} {p : MemberChoice}
    (answer : site.request.resolve types = .ok p) :
    Visited types (⟨some site, site.request, .ok p⟩ :: log) ((site, p) :: cs) where
  sound other p' h' := by
    rw [List.lookup_cons] at h'
    split at h'
    · next same =>
      obtain rfl := Option.some.inj h'
      exact eq_of_beq same ▸ answer
    · exact h.sound other p' h'
  requests := List.forall_mem_cons.mpr ⟨fun _ same => Option.some.inj same ▸ rfl, h.requests⟩
  visited other := by
    rw [List.map_cons, List.mem_cons, h.visited, List.exists_mem_cons_iff]
    refine or_congr_left ?_
    exact ⟨fun same => ⟨same ▸ rfl, p, rfl⟩, fun same => (Option.some.inj same.1).symm⟩

lemma Visited.revisit (h : Visited types log cs) {site : ChoiceSite} {p : MemberChoice} (hp : cs.lookup site = some p) :
    Visited types (⟨some site, site.request, .ok p⟩ :: log) cs where
  sound := h.sound
  requests := List.forall_mem_cons.mpr ⟨fun _ same => Option.some.inj same ▸ rfl, h.requests⟩
  visited other := by
    rw [h.visited, List.exists_mem_cons_iff]
    refine ⟨.inr, fun ho => ho.elim (fun same => ?_) id⟩
    obtain rfl := Option.some.inj same.1
    exact (h.visited site).mp (mem_keys_iff.mpr ⟨p, hp⟩)

/-- After any requests the memory and the choices at the sites are exact. -/
lemma exact_and_visited_of_asked (h : Asked types log i cs) : Exact types log i ∧ Visited types log cs := by
  induction h with
  | nothing => exact ⟨exact_empty types, visited_nil types⟩
  | @directly log i cs q _ ih =>
    obtain ⟨exact', visited⟩ := ih
    exact ⟨exact'.resolve rfl (.inl rfl), visited.unplaced nofun (.inl rfl)⟩
  | @placed log env s s' place q answer _ same run ih =>
    obtain ⟨exact', visited⟩ := ih
    subst same
    rw [Render.chosen_eq] at run
    cases hc : s.choices.lookup ⟨env.unit, place.span.start, q⟩ with
    | some p =>
      rw [hc] at run
      cases run
      have before := (visited.visited _).mp (mem_keys_iff.mpr ⟨p, hc⟩)
      obtain ⟨y, hy, here, chose⟩ := before
      refine ⟨exact'.revisit (visited.sound _ _ hc).symm ?_ ?_, visited.revisit hc⟩
      · rintro (none | apart)
        · cases none
        · exact apart y hy here chose
      · exact Inquiry.mem_chosen_iff.mpr ⟨y, hy, (visited.requests y hy _ here).symm, chose⟩
    | none =>
      have reaches (answer : Except NoChoice MemberChoice) :
          Inquiry.Reaches log ⟨some ⟨env.unit, place.span.start, q⟩, q, answer⟩ := by
        refine .inr fun y hy here chose => ?_
        obtain ⟨p, hp⟩ := mem_keys_iff.mp ((visited.visited _).mpr ⟨y, hy, here, chose⟩)
        cases hc.symm.trans hp
      rw [hc] at run
      dsimp only at run
      cases ha : (s.memory.resolve env.types q).1 with
      | ok p =>
        rw [ha] at run
        cases run
        have alone := (resolve_fst exact'.sound q).symm.trans ha
        exact ⟨exact'.resolve ha.symm (reaches _), visited.placed alone⟩
      | error f =>
        rw [ha] at run
        cases run
        refine ⟨exact'.resolve ha.symm (reaches _), visited.unplaced (fun _ same => ?_) (.inr ?_)⟩
        · exact Option.some.inj same ▸ rfl
        · rintro ⟨p, hp⟩
          cases hp

/-- After any requests, of the memory and of a render: each got the answer that it gets alone, as will the next one; the
counters count the requests that got to the memory; there is an entry for each different request that got a choice and
for no other; and there are no more entries than misses. -/
theorem exact_of_asked (h : Asked types log i cs) :
    (∀ x ∈ log, x.answer = x.request.resolve types) ∧
      (∀ q, (i.resolve types q).1 = q.resolve types) ∧
      (∀ env s place q, env.types = types → s.memory = i → s.choices = cs →
        ∃ s', Render.chosen place q env s = .ok (q.resolve types) s') ∧
      i.hits + i.misses = reaching log ∧
      i.entries = (chosen log).dedup.length ∧ i.entries ≤ i.misses ∧
      (∀ q p, i.choices.lookup q = some p ↔ q ∈ chosen log ∧ q.resolve types = .ok p) ∧
      ∀ site p, cs.lookup site = some p ↔ ∃ x ∈ log, x.site = some site ∧ x.answer = .ok p := by
  obtain ⟨exact', visited⟩ := exact_and_visited_of_asked h
  refine ⟨exact'.answers, resolve_fst exact'.sound, ?_, exact'.counted, ?_, exact'.entered, fun q p => ?_,
    fun site p => ?_⟩
  · rintro env s place q rfl rfl rfl
    rw [Render.chosen_eq]
    split
    · next p hp => exact ⟨s, by rw [visited.sound _ _ hp]⟩
    · have alone := resolve_fst exact'.sound q
      split
      · next p hp => exact ⟨_, by rw [alone.symm.trans hp]⟩
      · next f hf => exact ⟨_, by rw [alone.symm.trans hf]⟩
  · have keys : (i.choices.map Prod.fst).Perm (chosen log).dedup := by
      refine (List.perm_ext_iff_of_nodup exact'.distinct (List.nodup_dedup _)).mpr fun q => ?_
      rw [exact'.remembered, List.mem_dedup]
    have length := keys.length_eq
    rwa [List.length_map] at length
  · rw [← exact'.remembered, mem_keys_iff]
    constructor
    · intro hp
      exact ⟨⟨p, hp⟩, exact'.sound q p hp⟩
    · rintro ⟨⟨p', hp'⟩, hq⟩
      obtain rfl := Except.ok.inj (hq.symm.trans (exact'.sound q p' hp'))
      exact hp'
  · constructor
    · intro hp
      obtain ⟨x, hx, here, p', hp'⟩ := (visited.visited site).mp (mem_keys_iff.mpr ⟨p, hp⟩)
      refine ⟨x, hx, here, ?_⟩
      rw [exact'.answers x hx, visited.requests x hx site here, visited.sound site p hp]
    · rintro ⟨x, hx, here, answer⟩
      obtain ⟨p', hp'⟩ := mem_keys_iff.mp ((visited.visited site).mpr ⟨x, hx, here, p, answer⟩)
      have alone : site.request.resolve types = .ok p := by
        rw [← visited.requests x hx site here, ← exact'.answers x hx, answer]
      obtain rfl := Except.ok.inj (alone.symm.trans (visited.sound site p' hp'))
      exact hp'

/-- A method of a text asked for, one that texts have not, and then the first in a template. -/
theorem exact_of_asked_thrice :
    let types : HostTypes := fun _ => none
    let q : MemberRequest := ⟨.str, .method, "length", []⟩
    let other : MemberRequest := ⟨.str, .method, "size", [.int]⟩
    let i := ((empty.resolve types q).2.resolve types other).2
    let j := (i.resolve types q).2
    ∃ log cs, log.map Inquiry.request = [q, other, q] ∧ Asked types log j cs ∧
      (∀ x ∈ log, x.answer = x.request.resolve types) ∧ j.hits + j.misses = reaching log ∧
      j.entries = (chosen log).dedup.length ∧ j.entries ≤ j.misses := by
  intro types q other i j
  let env : RenderEnv := ⟨.standard, types, [], .empty, id, [], [], .inline⟩
  let s : RenderState := ⟨.empty, .empty, [], .empty, .empty 0 .none, i, [], 0, 0⟩
  have answered : (i.resolve types q).1 = q.resolve types :=
    resolve_fst (((sound_empty types).resolve q).resolve other) q
  obtain ⟨s', run, memory⟩ : ∃ s', Render.chosen ⟨"page", 1, 3, ⟨2, 8⟩⟩ q env s = .ok (q.resolve types) s' ∧
      s'.memory = j := by
    rw [Render.chosen_eq, ← answered]
    cases (i.resolve types q).1 <;> exact ⟨_, rfl, rfl⟩
  have asked := Asked.placed (.directly other (.directly q .nothing)) rfl run
  rw [memory] at asked
  have facts := exact_of_asked asked
  exact ⟨_, _, rfl, asked, facts.1, facts.2.2.2.1, facts.2.2.2.2.1, facts.2.2.2.2.2.1⟩

end ChoiceMemory

end Stencil
