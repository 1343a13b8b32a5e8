import Mathlib.Tactic.Lemma
import Stencil.Grammar.Expected

/-!
# Derivations

What an expression of a grammar reads, as a relation: between which places, and as which trees. Every match is
derived. Main statements: `Grammar.derives_of_matcher`, and `Peg.Derives.opened`, a derivation starts with one
of the characters that its expression opens with.
-/

namespace Stencil

/-- An expression reads from one place to another, as a list of trees. A rule that is a word reads by its
pattern, and is a leaf. -/
inductive Peg.Derives {ρ : Type} (grammar : Grammar ρ) : Peg ρ → Cursor → Cursor → List (Tree ρ) → Prop
  | token {p c d} : p.run c = some d → Derives grammar (.token p) c d []
  | seq {g h c d e ts us} : Derives grammar g c d ts → Derives grammar h d e us →
    Derives grammar (.seq g h) c e (ts ++ us)
  | left {g h c d ts} : Derives grammar g c d ts → Derives grammar (.alt g h) c d ts
  | right {g h c d ts} : Derives grammar h c d ts → Derives grammar (.alt g h) c d ts
  | done {g c} : Derives grammar (.many g) c c []
  | more {g c d e ts us} : Derives grammar g c d ts → Derives grammar (.many g) d e us →
    Derives grammar (.many g) c e (ts ++ us)
  | skipped {g c} : Derives grammar (.opt g) c c []
  | taken {g c d ts} : Derives grammar g c d ts → Derives grammar (.opt g) c d ts
  | word {r p c d} : grammar r = .word p → p.run c = some d →
    Derives grammar (.rule r) c d [.node r c d []]
  | phrase {r g c d ts} : grammar r = .phrase g → Derives grammar g c d ts →
    Derives grammar (.rule r) c d [.node r c d ts]

namespace Matcher

variable {ρ : Type} {grammar : Grammar ρ}

/-- Every match of a matcher is derived from an expression. -/
def Derived (grammar : Grammar ρ) (g : Peg ρ) (m : Matcher ρ) : Prop :=
  ∀ {c a d ts b}, m c a = (some (d, ts), b) → Peg.Derives grammar g c d ts

lemma derived_seq {g h : Peg ρ} {m n : Matcher ρ} (hm : Derived grammar g m) (hn : Derived grammar h n) :
    Derived grammar (.seq g h) (m.seq n) := by
  intro c a d ts b hr
  obtain ⟨e, us, vs, a', first, second, rfl⟩ := seq_eq_some hr
  exact .seq (hm first) (hn second)

lemma derived_alt {g h : Peg ρ} {m n : Matcher ρ} (hm : Derived grammar g m) (hn : Derived grammar h n) :
    Derived grammar (.alt g h) (m.alt n) := by
  intro c a d ts b hr
  rcases alt_eq_some hr with read | ⟨a', read⟩
  · exact .left (hm read)
  · exact .right (hn read)

lemma derived_opt {g : Peg ρ} {m : Matcher ρ} (hm : Derived grammar g m) :
    Derived grammar (.opt g) m.opt := by
  intro c a d ts b hr
  rcases opt_eq_some hr with ⟨rfl, rfl⟩ | read
  · exact .skipped
  · exact .taken (hm read)

lemma derived_repeated {g : Peg ρ} {m : Matcher ρ} (hm : Derived grammar g m) (bound : List Char) :
    Derived grammar (.many g) (m.repeated bound) := by
  induction bound with
  | nil =>
    intro c a d ts b hr
    cases hr
    exact .done
  | cons x bound ih =>
    intro c a d ts b hr
    rw [repeated_cons] at hr
    rcases opt_eq_some hr with ⟨rfl, rfl⟩ | read
    · exact .done
    · obtain ⟨e, us, vs, a', first, others, rfl⟩ := seq_eq_some read
      exact .more (hm first) (ih others)

end Matcher

variable {ρ : Type} {grammar : Grammar ρ}

lemma Peg.derived_matcher {call : ρ → Matcher ρ} (hc : ∀ r, (call r).Derived grammar (.rule r)) (g : Peg ρ) :
    (g.matcher call).Derived grammar g := by
  induction g with
  | token p =>
    intro c a d ts b hr
    simp only [Peg.matcher, Matcher.token, Prod.mk.injEq, Option.map_eq_some_iff] at hr
    obtain ⟨⟨e, he, rfl, rfl⟩, rfl⟩ := hr
    exact .token he
  | seq g h ihg ihh => exact Matcher.derived_seq ihg ihh
  | alt g h ihg ihh => exact Matcher.derived_alt ihg ihh
  | many g ih =>
    intro c a d ts b hr
    exact Matcher.derived_repeated ih c.rest hr
  | opt g ih => exact Matcher.derived_opt ih
  | rule r => exact hc r

/-- Every match of a rule is derived. -/
theorem Grammar.derives_of_matcher (grammar : Grammar ρ) (depth : Nat) (r : ρ) :
    (grammar.matcher depth r).Derived grammar (.rule r) := by
  induction depth generalizing r with
  | zero =>
    intro c a d ts b hr
    cases hr
  | succ depth ih =>
    intro c a d ts b hr
    simp only [Grammar.matcher, Matcher.rule] at hr
    split at hr
    · next e us b' he =>
      cases hr
      cases hb : grammar r with
      | word p =>
        rw [hb] at he
        simp only [Peg.Body.matcher, Matcher.token, Prod.mk.injEq, Option.map_eq_some_iff] at he
        obtain ⟨⟨e, he, rfl, rfl⟩, -⟩ := he
        exact .word hb he
      | phrase g =>
        rw [hb] at he
        exact .phrase hb (Peg.derived_matcher ih g he)
    · cases hr

namespace Peg

variable {g h : Peg ρ} {c d : Cursor} {ts : List (Tree ρ)}

/-- What is read is a first part of the text. -/
lemma Derives.reaches (hd : Derives grammar g c d ts) : ∃ cs, c.Reaches d cs := by
  induction hd with
  | token hr => exact Pattern.run_reaches hr
  | seq _ _ ih ih' =>
    obtain ⟨cs, hcs⟩ := ih
    obtain ⟨ds, hds⟩ := ih'
    exact ⟨cs ++ ds, hcs.trans hds⟩
  | left _ ih => exact ih
  | right _ ih => exact ih
  | done => exact ⟨[], .refl _⟩
  | more _ _ ih ih' =>
    obtain ⟨cs, hcs⟩ := ih
    obtain ⟨ds, hds⟩ := ih'
    exact ⟨cs ++ ds, hcs.trans hds⟩
  | skipped => exact ⟨[], .refl _⟩
  | taken _ ih => exact ih
  | word _ hr => exact Pattern.run_reaches hr
  | phrase _ _ ih => exact ih

/-- A rule that is a word is a leaf. -/
lemma Derives.of_word {r : ρ} {p : Pattern} (hb : grammar r = .word p)
    (hd : Derives grammar (.rule r) c d ts) : p.run c = some d ∧ ts = [.node r c d []] := by
  cases hd with
  | word hw hr =>
    rw [hb] at hw
    cases hw
    exact ⟨hr, rfl⟩
  | phrase hg _ =>
    rw [hb] at hg
    cases hg

/-- A rule that is a phrase is a tree over what its body reads. -/
lemma Derives.of_phrase {r : ρ} (hb : grammar r = .phrase g) (hd : Derives grammar (.rule r) c d ts) :
    ∃ us, ts = [.node r c d us] ∧ Derives grammar g c d us := by
  cases hd with
  | word hw _ =>
    rw [hb] at hw
    cases hw
  | phrase hg hd =>
    rw [hb] at hg
    cases hg
    exact ⟨_, rfl, hd⟩

lemma Derives.of_token {p : Pattern} (hd : Derives grammar (.token p) c d ts) : p.run c = some d ∧ ts = [] := by
  cases hd with
  | token hr => exact ⟨hr, rfl⟩

lemma Derives.of_seq (hd : Derives grammar (.seq g h) c d ts) :
    ∃ e us vs, ts = us ++ vs ∧ Derives grammar g c e us ∧ Derives grammar h e d vs := by
  cases hd with
  | seq hg hh => exact ⟨_, _, _, rfl, hg, hh⟩

/-- What holds behind some rounds, and of a round and what follows if it holds behind that round, holds of all rounds. -/
lemma Derives.rounds {P : Cursor → List (Tree ρ) → Prop} (hd : Derives grammar (.many g) c d ts) (done : P d [])
    (more : ∀ {b e us vs}, Derives grammar g b e us → P e vs → P b (us ++ vs)) : P c ts := by
  generalize hm : Peg.many g = m at hd
  induction hd with
  | done => exact done
  | more hone _ _ ih =>
    cases hm
    exact more hone (ih done rfl)
  | token _ => cases hm
  | seq _ _ _ _ => cases hm
  | left _ _ => cases hm
  | right _ _ => cases hm
  | skipped => cases hm
  | taken _ _ => cases hm
  | word _ _ => cases hm
  | phrase _ _ _ => cases hm

/-- Rules that are tried in order. -/
def choice (r : ρ) : List ρ → Peg ρ
  | [] => .rule r
  | s :: rs => .alt (.rule r) (choice s rs)

/-- Where one of several rules is read, there is one tree, which that rule has read. -/
lemma Derives.of_choice {r : ρ} {rs : List ρ} (hd : Derives grammar (choice r rs) c d ts) :
    ∃ s ∈ r :: rs, ∃ us, ts = [.node s c d us] ∧ Derives grammar (.rule s) c d ts := by
  have single {s : ρ} {ts : List (Tree ρ)} (hs : Derives grammar (.rule s) c d ts) :
      ∃ us, ts = [.node s c d us] ∧ Derives grammar (.rule s) c d ts := by
    cases hs with
    | word hb hr => exact ⟨[], rfl, .word hb hr⟩
    | phrase hb hg => exact ⟨_, rfl, .phrase hb hg⟩
  induction rs generalizing r with
  | nil =>
    exact ⟨r, List.mem_singleton_self r, single hd⟩
  | cons s rs ih =>
    cases hd with
    | left hr => exact ⟨r, List.mem_cons_self .., single hr⟩
    | right hs =>
      obtain ⟨q, hq, found⟩ := ih hs
      exact ⟨q, List.mem_cons_of_mem _ hq, found⟩

end Peg

/-! ### The first character -/

/-- The characters that a pattern may open with, where it reads one of them first. -/
def Pattern.openers : Pattern → Option (List Char)
  | word (x :: _) => some [x]
  | seq p q =>
    match p with
    | absent _ => q.openers
    | p => p.openers
  | alt p q => do return (← p.openers) ++ (← q.openers)
  | _ => none

/-- The characters that an expression may open with, given those of the rules. -/
def Peg.openers (rules : ρ → Option (List Char)) : Peg ρ → Option (List Char)
  | token p => p.openers
  | seq g h =>
    match g with
    | token (.absent _) => h.openers rules
    | g => g.openers rules
  | alt g h => do return (← g.openers rules) ++ (← h.openers rules)
  | rule r => rules r
  | _ => none

/-- The characters that a rule may open with, if that shows within so many rules. -/
def Grammar.openers (grammar : Grammar ρ) : Nat → ρ → Option (List Char)
  | 0, _ => none
  | n + 1, r =>
    match grammar r with
    | .word p => p.openers
    | .phrase g => g.openers (grammar.openers n)

/-- A place and a later one, with one of some characters at the first. -/
structure Cursor.Opened (cs : List Char) (c d : Cursor) : Prop where
  head : ∃ x ∈ cs, ∃ xs, c.rest = x :: xs
  lt : c.offset < d.offset

lemma Cursor.Opened.mono {cs ds : List Char} {c d e : Cursor} (h : Cursor.Opened cs c d)
    (hs : ∀ x ∈ cs, x ∈ ds) (hl : d.offset ≤ e.offset) : Cursor.Opened ds c e := by
  obtain ⟨⟨x, hx, xs, hr⟩, lt⟩ := h
  exact ⟨⟨x, hs x hx, xs, hr⟩, Nat.lt_of_lt_of_le lt hl⟩

/-- The places of a text. -/
def Cursor.In (text : List Char) (c : Cursor) : Prop := ∃ front, (Cursor.start text).Reaches c front

lemma Cursor.Reaches.offset_le {c d : Cursor} {cs : List Char} (h : c.Reaches d cs) :
    c.offset ≤ d.offset := by
  rw [h.2]
  exact Nat.le_add_right _ _

/-- A pattern that has to be absent reads nothing. -/
lemma Pattern.eq_of_run_absent {p : Pattern} {c d : Cursor} (h : (Pattern.absent p).run c = some d) :
    c = d := by
  unfold run at h
  split at h
  · cases h
  · exact Option.some.inj h

lemma Pattern.rest_of_run_ending {c d : Cursor} (h : Pattern.ending.run c = some d) : c.rest = [] := by
  cases hc : c.rest with
  | nil => rfl
  | cons x xs =>
    have read : Pattern.any.run c = some ⟨c.offset + x.utf8Size, xs⟩ := by
      show c.next? _ = _
      unfold Cursor.next?
      rw [hc]
      rfl
    simp [ending, run, read] at h

lemma Pattern.openers_seq (p q : Pattern) :
    (∃ r, p = .absent r) ∧ (Pattern.seq p q).openers = q.openers ∨
      (Pattern.seq p q).openers = p.openers := by
  cases p with
  | absent r => exact .inl ⟨⟨r, rfl⟩, rfl⟩
  | _ => exact .inr rfl

lemma Pattern.opened {p : Pattern} {cs : List Char} (ho : p.openers = some cs) {c d : Cursor}
    (hr : p.run c = some d) : c.Opened cs d := by
  induction p generalizing cs c d with
  | word w =>
    cases w with
    | nil => cases ho
    | cons x w =>
      obtain rfl := Option.some.inj ho
      obtain ⟨rest, offset⟩ := Cursor.word?_reaches hr
      refine ⟨⟨x, List.mem_singleton_self x, w ++ d.rest, rest⟩, ?_⟩
      rw [offset, utf8Length_cons]
      have := x.utf8Size_pos
      omega
  | seq p q ihp ihq =>
    obtain ⟨e, he, hd⟩ := Option.bind_eq_some_iff.mp hr
    rcases p.openers_seq q with ⟨⟨r, rfl⟩, hs⟩ | hs
    · rw [hs] at ho
      rw [eq_of_run_absent he]
      exact ihq ho hd
    · rw [hs] at ho
      obtain ⟨ds, hds⟩ := Pattern.run_reaches hd
      exact (ihp ho he).mono (fun x hx => hx) hds.offset_le
  | alt p q ihp ihq =>
    obtain ⟨cs₁, h₁, ho⟩ := Option.bind_eq_some_iff.mp ho
    obtain ⟨cs₂, h₂, ho⟩ := Option.bind_eq_some_iff.mp ho
    obtain rfl := Option.some.inj ho
    unfold run at hr
    split at hr
    · next e he =>
      obtain rfl := Option.some.inj hr
      exact (ihp h₁ he).mono (fun x hx => List.mem_append_left _ hx) (Nat.le_refl _)
    · exact (ihq h₂ hr).mono (fun x hx => List.mem_append_right _ hx) (Nat.le_refl _)
  | one p => cases ho
  | many p => cases ho
  | opt p => cases ho
  | absent p => cases ho

namespace Peg

lemma openers_seq (rules : ρ → Option (List Char)) (g h : Peg ρ) :
    (∃ p, g = .token (.absent p)) ∧ (Peg.seq g h).openers rules = h.openers rules ∨
      (Peg.seq g h).openers rules = g.openers rules := by
  cases g with
  | token p =>
    cases p with
    | absent p => exact .inl ⟨⟨p, rfl⟩, rfl⟩
    | _ => exact .inr rfl
  | _ => exact .inr rfl

/-- What an expression reads starts with one of the characters that it opens with. -/
theorem Derives.opened {g : Peg ρ} {c d : Cursor} {ts : List (Tree ρ)} (hd : Derives grammar g c d ts)
    {n : Nat} {cs : List Char} (ho : g.openers (grammar.openers n) = some cs) : c.Opened cs d := by
  induction hd generalizing n cs with
  | token hr => exact Pattern.opened ho hr
  | @seq g h c d e ts us hg hh ihg ihh =>
    rcases openers_seq (grammar.openers n) g h with ⟨⟨p, rfl⟩, hs⟩ | hs
    · cases hg with
      | token he =>
        rw [hs] at ho
        rw [Pattern.eq_of_run_absent he]
        exact ihh ho
    · rw [hs] at ho
      obtain ⟨ds, hds⟩ := hh.reaches
      exact (ihg ho).mono (fun x hx => hx) hds.offset_le
  | left hg ih =>
    obtain ⟨cs₁, h₁, ho⟩ := Option.bind_eq_some_iff.mp ho
    obtain ⟨cs₂, -, ho⟩ := Option.bind_eq_some_iff.mp ho
    obtain rfl := Option.some.inj ho
    exact (ih h₁).mono (fun x hx => List.mem_append_left _ hx) (Nat.le_refl _)
  | right hh ih =>
    obtain ⟨cs₁, -, ho⟩ := Option.bind_eq_some_iff.mp ho
    obtain ⟨cs₂, h₂, ho⟩ := Option.bind_eq_some_iff.mp ho
    obtain rfl := Option.some.inj ho
    exact (ih h₂).mono (fun x hx => List.mem_append_right _ hx) (Nat.le_refl _)
  | done => cases ho
  | more _ _ _ _ => cases ho
  | skipped => cases ho
  | taken _ _ => cases ho
  | word hb hr =>
    cases n with
    | zero => cases ho
    | succ n =>
      simp only [Peg.openers, Grammar.openers, hb] at ho
      exact Pattern.opened ho hr
  | phrase hb hg ih =>
    cases n with
    | zero => cases ho
    | succ n =>
      simp only [Peg.openers, Grammar.openers, hb] at ho
      exact ih ho

end Peg

/-! ### The parts of a tree -/

/-- Whether a tree is another one or a part of it, at any depth. -/
inductive Tree.Holds {ρ : Type} : Tree ρ → Tree ρ → Prop
  | self {t : Tree ρ} : Holds t t
  | child {t u v : Tree ρ} : u ∈ t.children → Holds u v → Holds t v

/-- Every part of what was read was read by its rule, between two characters of the text. -/
lemma Peg.Derives.holds {ρ : Type} {grammar : Grammar ρ} {text : List Char} {g : Peg ρ} {c d : Cursor}
    {ts : List (Tree ρ)} (hd : Derives grammar g c d ts) (hc : c.In text) :
    ∀ t ∈ ts, ∀ u, t.Holds u → u.start.In text ∧ Derives grammar (.rule u.rule) u.start u.stop [u] := by
  have append {c d : Cursor} {g : Peg ρ} {ts us : List (Tree ρ)} (hd : Derives grammar g c d ts) (hc : c.In text)
      (ht : c.In text → ∀ t ∈ ts, ∀ u, t.Holds u →
        u.start.In text ∧ Derives grammar (.rule u.rule) u.start u.stop [u])
      (hu : d.In text → ∀ t ∈ us, ∀ u, t.Holds u →
        u.start.In text ∧ Derives grammar (.rule u.rule) u.start u.stop [u]) :
      ∀ t ∈ ts ++ us, ∀ u, t.Holds u →
        u.start.In text ∧ Derives grammar (.rule u.rule) u.start u.stop [u] := by
    obtain ⟨front, hf⟩ := hc
    obtain ⟨w, hw⟩ := hd.reaches
    exact List.forall_mem_append.mpr ⟨ht ⟨front, hf⟩, hu ⟨_, hf.trans hw⟩⟩
  induction hd with
  | token _ => exact nofun
  | seq hg _ ihg ihh => exact append hg hc ihg ihh
  | left _ ih => exact ih hc
  | right _ ih => exact ih hc
  | done => exact nofun
  | more hg _ ihg ihh => exact append hg hc ihg ihh
  | skipped => exact nofun
  | taken _ ih => exact ih hc
  | word hb hr =>
    intro t ht u hu
    obtain rfl := List.mem_singleton.mp ht
    cases hu with
    | self => exact ⟨hc, .word hb hr⟩
    | child hm _ => cases hm
  | phrase hb hd ih =>
    intro t ht u hu
    obtain rfl := List.mem_singleton.mp ht
    cases hu with
    | self => exact ⟨hc, .phrase hb hd⟩
    | child hm hu => exact ih hc _ hm u hu

/-- What a text is read as is derived from the rule of templates. -/
lemma exists_derives_of_readTree {text : List Char} {t : Tree Rule} (h : readTree text = .ok t) :
    ∃ d, Peg.Derives Rule.body (.rule .template) (.start text) d [t] := by
  obtain ⟨d, read⟩ := readTree_eq_ok_iff.mp h
  exact ⟨d, Grammar.derives_of_matcher Rule.body _ _ (Prod.ext read rfl)⟩

/-- The parts of what a text was read as were read between its characters. -/
lemma Tree.Holds.derived {text : List Char} {t u : Tree Rule} (h : t.Holds u) (ht : readTree text = .ok t) :
    u.start.In text ∧ Peg.Derives Rule.body (.rule u.rule) u.start u.stop [u] := by
  obtain ⟨d, derived⟩ := exists_derives_of_readTree ht
  exact derived.holds ⟨[], .refl _⟩ t (List.mem_singleton_self t) u h

end Stencil
