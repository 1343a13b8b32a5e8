import Stencil.Proofs.Reading.Surroundings

/-!
# Where reading goes

The place that reading an expression of the grammar comes to, by the parts of the expression, and the places that the
expression is derived up to. Main statement: `Rule.spans_of_goes`, reading goes only where the expression is derived.
-/

namespace Stencil

variable {g h : Peg Rule} {r : Rule} {p : Pattern} {c d e : Cursor}

namespace Rule

/-! ### Where reading goes -/

/-- The place up to which an expression of the grammar reads. -/
def goes (g : Peg Rule) (c : Cursor) : Option Cursor := (g.matcher reading).goes c

lemma goes_token (p : Pattern) (c : Cursor) : goes (.token p) c = p.run c := Matcher.goes_token p c

lemma goes_seq (g h : Peg Rule) (c : Cursor) : goes (.seq g h) c = (goes g c).bind (goes h) :=
  Matcher.goes_seq (Peg.matcher_steady steady_reading h) c

lemma goes_alt (g h : Peg Rule) (c : Cursor) : goes (.alt g h) c = (goes g c).or (goes h c) :=
  Matcher.goes_alt (Peg.matcher_steady steady_reading h) c

lemma goes_opt (g : Peg Rule) (c : Cursor) : goes (.opt g) c = some ((goes g c).getD c) := Matcher.goes_opt c

lemma goes_many (g : Peg Rule) (c : Cursor) : goes (.many g) c = some (Cursor.repeated (goes g) c.rest c) :=
  Matcher.goes_repeated (Peg.matcher_steady steady_reading g) c.rest c

lemma goes_rule (r : Rule) (c : Cursor) : goes (.rule r) c = (((body r).matcher reading).goes c) := by
  show r.reading.goes c = _
  rw [reading_eq, Matcher.goes_rule]

lemma goes_word (hb : body r = .word p) (c : Cursor) : goes (.rule r) c = p.run c := by
  rw [goes_rule, hb]
  exact Matcher.goes_token p c

lemma goes_phrase (hb : body r = .phrase g) (c : Cursor) : goes (.rule r) c = goes g c := by
  rw [goes_rule, hb]
  rfl

lemma goes_after (hg : goes g c = some d) (h : Peg Rule) : goes (.seq g h) c = goes h d := by
  rw [goes_seq, hg]
  rfl

lemma goes_seq_of_none (hg : goes g c = none) (h : Peg Rule) : goes (.seq g h) c = none := by
  rw [goes_seq, hg]
  rfl

lemma goes_left (hg : goes g c = some d) (h : Peg Rule) : goes (.alt g h) c = some d := by
  rw [goes_alt, hg]
  rfl

lemma goes_right (hg : goes g c = none) (h : Peg Rule) : goes (.alt g h) c = goes h c := by
  rw [goes_alt, hg]
  rfl

lemma goes_taken (hg : goes g c = some d) : goes (.opt g) c = some d := by
  rw [goes_opt, hg]
  rfl

lemma goes_skipped (hg : goes g c = none) : goes (.opt g) c = some c := by
  rw [goes_opt, hg]
  rfl

lemma goes_done (hg : goes g c = none) : goes (.many g) c = some c := by
  rw [goes_many, Cursor.repeated_of_none hg]

lemma exists_reaches_of_goes (hg : goes g c = some d) : ∃ w, c.Reaches d w := by
  obtain ⟨ts, read⟩ := (Peg.matcher_steady steady_reading g).reads_of_goes hg
  obtain ⟨b, hb⟩ := read.eq .none
  exact Peg.matcher_sound sound_reading g c .none d ts b hb

lemma goes_more (hg : goes g c = some d) (shorter : d.rest.length < c.rest.length) :
    goes (.many g) c = goes (.many g) d := by
  rw [goes_many, goes_many]
  cases hc : c.rest with
  | nil =>
    rw [hc] at shorter
    cases shorter
  | cons x xs =>
    rw [hc, List.length_cons] at shorter
    rw [Cursor.repeated_of_some hg]
    exact congrArg some (Cursor.repeated_eq (fun _ _ => exists_reaches_of_goes) (by omega) (Nat.le_refl _))

/-- The first of several rules that goes anywhere is the one that is read. -/
lemma goes_choice {s : Rule} {rs front back : List Rule} (hs : r :: rs = front ++ s :: back)
    (hf : ∀ q ∈ front, goes (.rule q) c = none) (hr : goes (.rule s) c = some d) : goes (.choice r rs) c = some d := by
  induction front generalizing r rs with
  | nil =>
    obtain ⟨rfl, rfl⟩ := List.cons.inj hs
    cases rs with
    | nil => exact hr
    | cons q rs => exact goes_left hr _
  | cons q front ih =>
    obtain ⟨rfl, hrs⟩ := List.cons.inj hs
    obtain ⟨here, later⟩ := List.forall_mem_cons.mp hf
    cases rs with
    | nil => simp at hrs
    | cons q rs => exact (goes_right here _).trans (ih hrs later)

/-- Where none of several rules goes anywhere, neither does the choice. -/
lemma goes_choice_eq_none {rs : List Rule} (hf : ∀ q ∈ r :: rs, goes (.rule q) c = none) :
    goes (.choice r rs) c = none := by
  induction rs generalizing r with
  | nil => exact hf r (List.mem_singleton_self r)
  | cons q rs ih =>
    obtain ⟨here, later⟩ := List.forall_mem_cons.mp hf
    exact (goes_right here _).trans (ih later)

/-! ### What is derived -/

/-- An expression of the grammar can be derived from one place to another. -/
def Spans (g : Peg Rule) (c d : Cursor) : Prop := ∃ ts, Peg.Derives body g c d ts

lemma spans_of_goes (hg : goes g c = some d) : Spans g c d := by
  obtain ⟨ts, read⟩ := (Peg.matcher_steady steady_reading g).reads_of_goes hg
  obtain ⟨b, hb⟩ := read.eq .none
  exact ⟨ts, Peg.derived_matcher derived_reading g hb⟩

lemma goes_eq_none (h : ∀ d, ¬Spans g c d) : goes g c = none :=
  Option.eq_none_iff_forall_ne_some.mpr fun d hg => h d (spans_of_goes hg)

/-- What opens with other characters goes nowhere. -/
lemma goes_eq_none_of_openers {n : Nat} {cs : List Char} (ho : g.openers (body.openers n) = some cs)
    (hc : ∀ x ∈ c.rest.head?, x ∉ cs) : goes g c = none := by
  refine goes_eq_none fun d ⟨ts, hd⟩ => ?_
  obtain ⟨⟨x, hx, xs, rest⟩, -⟩ := hd.opened ho
  exact hc x (by rw [rest]; rfl) hx

lemma goes_eq_none_of_fails (h : ∀ depth, (body.matcher depth r).Fails c) : goes (.rule r) c = none := by
  have fails := h (openRules c.rest) .none
  show ((body.matcher (openRules c.rest) r c .none).1).map Prod.fst = none
  rw [fails]
  rfl

lemma goes_eq_none_of_opensOff {xs : List Char} (hc : ∀ x ∈ c.rest.head?, x ∈ xs) {rs : List Rule}
    (h : rs.all (opensOff xs)) : ∀ q ∈ rs, goes (.rule q) c = none :=
  fun q hq => goes_eq_none_of_fails fun _ => fails_of_opensOff hc h q hq

lemma Spans.reaches (h : Spans g c d) : ∃ w, c.Reaches d w := h.elim fun _ hd => hd.reaches

lemma Spans.length_le (h : Spans g c d) : d.rest.length ≤ c.rest.length := by
  obtain ⟨w, hw⟩ := h.reaches
  rw [hw.1, List.length_append]
  exact Nat.le_add_left _ _

/-- What opens with some characters takes one of them. -/
lemma Spans.opened {n : Nat} {cs : List Char} (h : Spans g c d) (ho : g.openers (body.openers n) = some cs) :
    (∃ x ∈ cs, c.rest.head? = some x) ∧ d.rest.length < c.rest.length := by
  obtain ⟨ts, hd⟩ := h
  obtain ⟨⟨x, hx, xs, rest⟩, lt⟩ := hd.opened ho
  obtain ⟨w, hw⟩ := hd.reaches
  exact ⟨⟨x, hx, by rw [rest]; rfl⟩, hw.length_lt lt⟩

lemma Spans.among {n : Nat} {cs : List Char} (h : Spans g c d) (ho : g.openers (body.openers n) = some cs) :
    ∀ x ∈ c.rest.head?, x ∈ cs := by
  obtain ⟨⟨x, hx, head⟩, -⟩ := h.opened ho
  exact forall_mem_of_eq_some head hx

lemma spans_token : Spans (.token p) c d ↔ p.run c = some d :=
  ⟨fun ⟨_, hd⟩ => hd.of_token.1, fun h => ⟨[], .token h⟩⟩

lemma spans_seq : Spans (.seq g h) c d ↔ ∃ e, Spans g c e ∧ Spans h e d := by
  constructor
  · rintro ⟨ts, hd⟩
    obtain ⟨e, us, vs, -, hg, hh⟩ := hd.of_seq
    exact ⟨e, ⟨us, hg⟩, ⟨vs, hh⟩⟩
  · rintro ⟨e, ⟨us, hg⟩, ⟨vs, hh⟩⟩
    exact ⟨us ++ vs, .seq hg hh⟩

lemma spans_alt : Spans (.alt g h) c d ↔ Spans g c d ∨ Spans h c d := by
  constructor
  · rintro ⟨ts, hd⟩
    cases hd with
    | left hg => exact .inl ⟨ts, hg⟩
    | right hh => exact .inr ⟨ts, hh⟩
  · rintro (⟨ts, hg⟩ | ⟨ts, hh⟩)
    · exact ⟨ts, .left hg⟩
    · exact ⟨ts, .right hh⟩

lemma spans_opt : Spans (.opt g) c d ↔ d = c ∨ Spans g c d := by
  constructor
  · rintro ⟨ts, hd⟩
    cases hd with
    | skipped => exact .inl rfl
    | taken hg => exact .inr ⟨ts, hg⟩
  · rintro (rfl | ⟨ts, hg⟩)
    · exact ⟨[], .skipped⟩
    · exact ⟨ts, .taken hg⟩

lemma spans_word (hb : body r = .word p) : Spans (.rule r) c d ↔ p.run c = some d :=
  ⟨fun ⟨_, hd⟩ => (hd.of_word hb).1, fun h => ⟨_, .word hb h⟩⟩

lemma spans_phrase (hb : body r = .phrase g) : Spans (.rule r) c d ↔ Spans g c d := by
  constructor
  · rintro ⟨ts, hd⟩
    obtain ⟨us, -, hg⟩ := hd.of_phrase hb
    exact ⟨us, hg⟩
  · rintro ⟨ts, hg⟩
    exact ⟨_, .phrase hb hg⟩

lemma spans_choice {rs : List Rule} (h : Spans (.choice r rs) c d) : ∃ s ∈ r :: rs, Spans (.rule s) c d := by
  obtain ⟨ts, hd⟩ := h
  obtain ⟨s, hs, us, -, hr⟩ := hd.of_choice
  exact ⟨s, hs, ts, hr⟩

/-- What holds at the end of some rounds, and before a round if it holds after it, holds at their start. -/
lemma Spans.rounds {P : Cursor → Prop} (h : Spans (.many g) c d) (done : P d)
    (more : ∀ {b e}, Spans g b e → P e → P b) : P c := by
  obtain ⟨ts, hd⟩ := h
  exact hd.rounds (P := fun c _ => P c) done fun one => more ⟨_, one⟩

/-- A token goes where it is derived. -/
lemma Spans.goes_token (h : Spans (.token p) c d) : goes (.token p) c = some d :=
  (Rule.goes_token p c).trans (spans_token.mp h)

/-- So does a rule that is a word. -/
lemma Spans.goes_word (h : Spans (.rule r) c d) (hb : body r = .word p) : goes (.rule r) c = some d :=
  (Rule.goes_word hb c).trans ((spans_word hb).mp h)

lemma goes_both (hg : goes g c = some d) (hh : goes h d = some e) : goes (.seq g h) c = some e :=
  (goes_after hg h).trans hh

end Rule

end Stencil
