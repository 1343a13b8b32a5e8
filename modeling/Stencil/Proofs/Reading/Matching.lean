import Stencil.Proofs.Reading.Derivation

/-!
# Matches

What a matcher reads at a place, whatever was tried before. Main statement: `Matcher.Reads.repeated`, where
every place that is not the end can be read on from, repetition reads to the end.
-/

namespace Stencil

variable {ρ : Type}

/-- What a check says of all members of a list. -/
lemma forall_mem_of_all {α : Type} {l : List α} {P : α → Prop} [DecidablePred P] (h : l.all fun x => decide (P x)) :
    ∀ x ∈ l, P x :=
  fun x hx => of_decide_eq_true (List.all_eq_true.mp h x hx)

/-- What holds of what an option has holds of all that it has. -/
lemma forall_mem_of_eq_some {α : Type} {o : Option α} {a : α} (h : o = some a) {P : α → Prop} (ha : P a) :
    ∀ b ∈ o, P b := by
  subst h
  rintro b ⟨⟩
  exact ha

/-! ### Patterns -/

lemma Cursor.Reaches.split {c e : Cursor} {cs ds : List Char} (h : c.Reaches e (cs ++ ds)) :
    ∃ d, c.Reaches d cs ∧ d.Reaches e ds := by
  obtain ⟨rest, offset⟩ := h
  refine ⟨⟨c.offset + utf8Length cs, ds ++ e.rest⟩, ⟨?_, rfl⟩, rfl, ?_⟩
  · rw [rest, List.append_assoc]
  · rw [offset, utf8Length_append, Nat.add_assoc]

lemma Cursor.Reaches.head {c d : Cursor} {x : Char} {cs : List Char} (h : c.Reaches d (x :: cs))
    {P : Char → Prop} (hx : P x) : ∀ y ∈ c.rest.head?, P y := by
  rw [h.1]
  rintro y ⟨⟩
  exact hx

lemma Cursor.Reaches.eq_of_nil {c d : Cursor} (h : c.Reaches d []) : c = d := by
  obtain ⟨o, rest⟩ := c
  obtain ⟨o', rest'⟩ := d
  obtain ⟨hr, ho⟩ := h
  simp only [List.nil_append, utf8Length_nil, Nat.add_zero] at hr ho
  rw [hr, ho]

lemma Pattern.run_one {p : Char → Bool} {c d : Cursor} {x : Char} (h : c.Reaches d [x]) (hx : p x) :
    (Pattern.one p).run c = some d := by
  obtain ⟨o, xs⟩ := d
  obtain ⟨rest, offset⟩ := h
  rw [utf8Length_cons, utf8Length_nil, Nat.add_zero] at offset
  unfold run Cursor.next?
  rw [rest, List.singleton_append]
  dsimp only
  rw [if_pos hx, ← offset]

lemma Pattern.run_one_eq_none {p : Char → Bool} {c : Cursor} (h : ∀ x ∈ c.rest.head?, p x = false) :
    (Pattern.one p).run c = none := by
  unfold run Cursor.next?
  split
  · rfl
  · next x xs hx =>
    rw [if_neg]
    rw [h x (by rw [hx]; rfl)]
    exact Bool.false_ne_true

lemma Pattern.run_seq {p q : Pattern} {c d : Cursor} {r : Option Cursor} (hp : p.run c = some d)
    (hq : q.run d = r) : (Pattern.seq p q).run c = r := by
  show (p.run c).bind q.run = r
  rw [hp]
  exact hq

lemma Pattern.run_seq_eq_none {p q : Pattern} {c : Cursor} (hp : p.run c = none) :
    (Pattern.seq p q).run c = none := by
  show (p.run c).bind q.run = none
  rw [hp]
  rfl

lemma Pattern.run_left {p q : Pattern} {c d : Cursor} (hp : p.run c = some d) :
    (Pattern.alt p q).run c = some d := by
  rw [Pattern.run, hp]

lemma Pattern.run_right {p q : Pattern} {c : Cursor} {r : Option Cursor} (hp : p.run c = none)
    (hq : q.run c = r) : (Pattern.alt p q).run c = r := by
  rw [Pattern.run, hp]
  exact hq

lemma Pattern.run_opt_of_none {p : Pattern} {c : Cursor} (h : p.run c = none) :
    (Pattern.opt p).run c = some c := by
  show some ((p.run c).getD c) = some c
  rw [h]
  rfl

lemma Pattern.run_absent {p : Pattern} {c : Cursor} (h : p.run c = none) :
    (Pattern.absent p).run c = some c := by
  show (if (p.run c).isSome then none else some c) = some c
  rw [h]
  rfl

/-- After a pattern that is absent comes no character of its kind. -/
lemma Pattern.head_of_run_absent {p : Char → Bool} {c d : Cursor} (h : (Pattern.absent (.one p)).run c = some d) :
    ∀ x ∈ c.rest.head?, p x = false := by
  intro x hx
  obtain ⟨xs, hr⟩ := List.head?_eq_some_iff.mp hx
  cases hp : p x with
  | false => rfl
  | true =>
    have read : (Pattern.one p).run c = some ⟨c.offset + x.utf8Size, xs⟩ := by
      show c.next? p = _
      rw [Cursor.next?, hr]
      exact if_pos hp
    have none : (Pattern.absent (.one p)).run c = none := by
      show (if ((Pattern.one p).run c).isSome then none else some c) = none
      rw [read]
      rfl
    rw [none] at h
    cases h

lemma Pattern.run_word {w : List Char} {c d : Cursor} (h : c.Reaches d w) : (Pattern.word w).run c = some d := by
  induction w generalizing c with
  | nil => rw [h.eq_of_nil]; rfl
  | cons x w ih =>
    obtain ⟨e, first, others⟩ := Cursor.Reaches.split (show c.Reaches d ([x] ++ w) from h)
    have step : c.next? (· == x) = some e := Pattern.run_one first (beq_self_eq_true x)
    show (c.next? (· == x)).bind (·.word? w) = some d
    rw [step]
    exact ih others

lemma length_le_flatten {α : Type} {ls : List (List α)} (h : ∀ l ∈ ls, l ≠ []) :
    ls.length ≤ ls.flatten.length := by
  induction ls with
  | nil => exact Nat.le_refl 0
  | cons l ls ih =>
    obtain ⟨here, later⟩ := List.forall_mem_cons.mp h
    have positive := List.length_pos_iff.mpr here
    have rest := ih later
    rw [List.length_cons, List.flatten_cons, List.length_append]
    omega

/-- A repetition reads pieces as long as its pattern reads each of them, up to where it fails. -/
lemma Pattern.run_many {p : Pattern} {pieces : List (List Char)} {c d : Cursor}
    (h : c.Reaches d pieces.flatten) (hp : ∀ w ∈ pieces, w ≠ [] ∧ ∀ c d, c.Reaches d w → p.run c = some d)
    (hd : p.run d = none) : (Pattern.many p).run c = some d := by
  have bounded : ∀ bound : List Char, pieces.length ≤ bound.length → Cursor.repeated p.run bound c = d := by
    induction pieces generalizing c with
    | nil =>
      intro bound _
      obtain rfl := h.eq_of_nil
      cases bound with
      | nil => rfl
      | cons x bound => simp only [Cursor.repeated, hd]
    | cons w pieces ih =>
      intro bound hb
      obtain ⟨here, later⟩ := List.forall_mem_cons.mp hp
      obtain ⟨e, first, others⟩ := Cursor.Reaches.split h
      cases bound with
      | nil => cases hb
      | cons x bound =>
        simp only [Cursor.repeated, here.2 c e first]
        exact ih others later bound (Nat.le_of_succ_le_succ hb)
  have enough : pieces.length ≤ c.rest.length := by
    have total := length_le_flatten fun w hw => (hp w hw).1
    rw [h.1, List.length_append]
    omega
  exact congrArg some (bounded c.rest enough)

/-- A repetition of one character reads a run of such characters. -/
lemma Pattern.run_many_one {p : Char → Bool} {cs : List Char} {c d : Cursor} (h : c.Reaches d cs)
    (hp : ∀ x ∈ cs, p x) (hd : ∀ x ∈ d.rest.head?, p x = false) : (Pattern.many (.one p)).run c = some d := by
  have pieces : (cs.map fun x => [x]).flatten = cs := by
    rw [← List.flatMap_def, List.flatMap_singleton']
  rw [← pieces] at h
  refine Pattern.run_many h ?_ (Pattern.run_one_eq_none hd)
  refine List.forall_mem_map.mpr fun x hx => ⟨List.cons_ne_nil x [], fun c d hcd => ?_⟩
  exact Pattern.run_one hcd (hp x hx)

/-- The words that a pattern may read, where it is made of words and alternatives. -/
def Pattern.words : Pattern → Option (List (List Char))
  | word w => some [w]
  | alt p q => do return (← p.words) ++ (← q.words)
  | _ => none

/-- A pattern of words reads one of them. -/
lemma Pattern.mem_words {p : Pattern} {ws : List (List Char)} (hp : p.words = some ws) {c d : Cursor}
    (h : p.run c = some d) : ∃ w ∈ ws, c.Reaches d w := by
  induction p generalizing ws with
  | word w =>
    obtain rfl := Option.some.inj hp
    exact ⟨w, List.mem_singleton_self w, Cursor.word?_reaches h⟩
  | alt p q ihp ihq =>
    obtain ⟨ws₁, h₁, hp⟩ := Option.bind_eq_some_iff.mp hp
    obtain ⟨ws₂, h₂, hp⟩ := Option.bind_eq_some_iff.mp hp
    obtain rfl := Option.some.inj hp
    unfold run at h
    split at h
    · next e he =>
      obtain rfl := Option.some.inj h
      obtain ⟨w, hw, reach⟩ := ihp h₁ he
      exact ⟨w, List.mem_append_left _ hw, reach⟩
    · obtain ⟨w, hw, reach⟩ := ihq h₂ h
      exact ⟨w, List.mem_append_right _ hw, reach⟩
  | one p => cases hp
  | seq p q => cases hp
  | many p => cases hp
  | opt p => cases hp
  | absent p => cases hp

/-- The texts that a pattern may read; what has to be absent is not looked at. -/
def Pattern.Spells : Pattern → List Char → Prop
  | word w, cs => cs = w
  | one p, cs => ∃ x, p x = true ∧ cs = [x]
  | seq p q, cs => ∃ as bs, cs = as ++ bs ∧ p.Spells as ∧ q.Spells bs
  | alt p q, cs => p.Spells cs ∨ q.Spells cs
  | many p, cs => ∃ pieces : List (List Char), cs = pieces.flatten ∧ ∀ w ∈ pieces, p.Spells w
  | opt p, cs => cs = [] ∨ p.Spells cs
  | absent _, cs => cs = []

/-- What a pattern reads is one of its texts. -/
theorem Pattern.spells_of_run {p : Pattern} {c d : Cursor} (h : p.run c = some d) :
    ∃ cs, c.Reaches d cs ∧ p.Spells cs := by
  induction p generalizing c d with
  | word w => exact ⟨w, Cursor.word?_reaches h, rfl⟩
  | one p =>
    obtain ⟨x, hx, reach⟩ := Cursor.next?_reaches h
    exact ⟨[x], reach, x, hx, rfl⟩
  | seq p q ihp ihq =>
    obtain ⟨e, he, hd⟩ := Option.bind_eq_some_iff.mp h
    obtain ⟨as, reach, has⟩ := ihp he
    obtain ⟨bs, reach', hbs⟩ := ihq hd
    exact ⟨as ++ bs, reach.trans reach', as, bs, rfl, has, hbs⟩
  | alt p q ihp ihq =>
    unfold run at h
    split at h
    · next e he =>
      obtain rfl := Option.some.inj h
      obtain ⟨cs, reach, hcs⟩ := ihp he
      exact ⟨cs, reach, .inl hcs⟩
    · obtain ⟨cs, reach, hcs⟩ := ihq h
      exact ⟨cs, reach, .inr hcs⟩
  | many p ih =>
    obtain rfl := Option.some.inj h
    clear h
    generalize c.rest = bound
    induction bound generalizing c with
    | nil => exact ⟨[], .refl c, [], rfl, nofun⟩
    | cons x bound rest =>
      unfold Cursor.repeated
      split
      · exact ⟨[], .refl c, [], rfl, nofun⟩
      · next e he =>
        obtain ⟨w, reach, hw⟩ := ih he
        obtain ⟨cs, reach', pieces, rfl, hpieces⟩ := rest (c := e)
        exact ⟨w ++ pieces.flatten, reach.trans reach', w :: pieces, rfl, List.forall_mem_cons.mpr ⟨hw, hpieces⟩⟩
  | opt p ih =>
    obtain rfl := Option.some.inj h
    cases hp : p.run c with
    | none => exact ⟨[], .refl c, .inl rfl⟩
    | some e =>
      obtain ⟨cs, reach, hcs⟩ := ih hp
      exact ⟨cs, reach, .inr hcs⟩
  | absent p ih =>
    obtain rfl := eq_of_run_absent h
    exact ⟨[], .refl c, rfl⟩

/-- A run of characters of a kind. -/
lemma Pattern.forall_of_spells {p : Char → Bool} {cs : List Char} (h : (Pattern.several (.one p)).Spells cs) :
    cs ≠ [] ∧ ∀ x ∈ cs, p x = true := by
  obtain ⟨as, bs, rfl, ⟨x, hx, rfl⟩, pieces, rfl, hpieces⟩ := h
  refine ⟨List.cons_ne_nil _ _, List.forall_mem_cons.mpr ⟨hx, fun y hy => ?_⟩⟩
  obtain ⟨w, hw, hy⟩ := List.mem_flatten.mp hy
  obtain ⟨z, hz, rfl⟩ := hpieces w hw
  exact List.mem_singleton.mp hy ▸ hz

/-! ### Matchers -/

namespace Matcher

/-- A matcher reads from one place to another, as a list of trees. -/
def Reads (m : Matcher ρ) (c d : Cursor) (ts : List (Tree ρ)) : Prop := ∀ a, (m c a).1 = some (d, ts)

/-- A matcher reads nothing at a place. -/
def Fails (m : Matcher ρ) (c : Cursor) : Prop := ∀ a, (m c a).1 = none

variable {m n : Matcher ρ} {c d e : Cursor} {ts us : List (Tree ρ)}

lemma Reads.eq (h : m.Reads c d ts) (a : Attempts ρ) : ∃ b, m c a = (some (d, ts), b) :=
  ⟨_, Prod.ext (h a) rfl⟩

lemma Fails.eq (h : m.Fails c) (a : Attempts ρ) : ∃ b, m c a = (none, b) := ⟨_, Prod.ext (h a) rfl⟩

lemma Steady.fails (hm : m.Steady) {a : Attempts ρ} (h : (m c a).1 = none) : m.Fails c := by
  intro b
  rw [hm c b a, h]

/-- A matcher whose matches are derived fails where nothing is derived. -/
lemma Derived.fails {grammar : Grammar ρ} {g : Peg ρ} (hm : m.Derived grammar g)
    (hn : ∀ d ts, ¬Peg.Derives grammar g c d ts) : m.Fails c := by
  intro a
  cases hr : m c a with
  | mk read b =>
    cases read with
    | none => rfl
    | some r => exact absurd (hm hr) (hn r.1 r.2)

lemma reads_token {p : Pattern} (h : p.run c = some d) : (token p : Matcher ρ).Reads c d [] := by
  intro a
  rw [token, h]
  rfl

lemma fails_token {p : Pattern} (h : p.run c = none) : (token p : Matcher ρ).Fails c := by
  intro a
  rw [token, h]
  rfl

lemma Reads.seq (hm : m.Reads c d ts) (hn : n.Reads d e us) : (m.seq n).Reads c e (ts ++ us) := by
  intro a
  obtain ⟨b, first⟩ := hm.eq a
  obtain ⟨b', second⟩ := hn.eq b
  simp only [Matcher.seq, first, second]

lemma Reads.left (hm : m.Reads c d ts) : (m.alt n).Reads c d ts := by
  intro a
  obtain ⟨b, first⟩ := hm.eq a
  simp only [Matcher.alt, first]

lemma Reads.right (hm : m.Fails c) (hn : n.Reads c d ts) : (m.alt n).Reads c d ts := by
  intro a
  obtain ⟨b, first⟩ := hm.eq a
  simp only [Matcher.alt, first]
  exact hn b

lemma Fails.seq (hm : m.Fails c) : (m.seq n).Fails c := by
  intro a
  obtain ⟨b, first⟩ := hm.eq a
  simp only [Matcher.seq, first]

lemma Reads.seq_fails (hm : m.Reads c d ts) (hn : n.Fails d) : (m.seq n).Fails c := by
  intro a
  obtain ⟨b, first⟩ := hm.eq a
  obtain ⟨b', second⟩ := hn.eq b
  simp only [Matcher.seq, first, second]

lemma Fails.alt (hm : m.Fails c) (hn : n.Fails c) : (m.alt n).Fails c := by
  intro a
  obtain ⟨b, first⟩ := hm.eq a
  simp only [Matcher.alt, first]
  exact hn b

lemma Reads.opt (hm : m.Reads c d ts) : m.opt.Reads c d ts := by
  intro a
  obtain ⟨b, first⟩ := hm.eq a
  simp only [Matcher.opt, first]

lemma Fails.opt (hm : m.Fails c) : m.opt.Reads c c [] := by
  intro a
  obtain ⟨b, first⟩ := hm.eq a
  simp only [Matcher.opt, first]

lemma Fails.repeated (hm : m.Fails c) (bound : List Char) : (m.repeated bound).Reads c c [] := by
  cases bound with
  | nil => exact fun _ => rfl
  | cons x bound =>
    rw [Matcher.repeated_cons]
    exact hm.seq.opt

lemma Reads.repeated_cons (hm : m.Reads c d ts) {bound : List Char} (hd : (m.repeated bound).Reads d e us)
    (x : Char) : (m.repeated (x :: bound)).Reads c e (ts ++ us) := by
  rw [Matcher.repeated_cons]
  exact (hm.seq hd).opt

lemma Reads.rule (hm : m.Reads c d ts) (r : ρ) : (m.rule r).Reads c d [.node r c d ts] := by
  intro a
  obtain ⟨b, read⟩ := hm.eq a
  simp only [Matcher.rule, read]

lemma Fails.rule (hm : m.Fails c) (r : ρ) : (m.rule r).Fails c := by
  intro a
  obtain ⟨b, failed⟩ := hm.eq a
  simp only [Matcher.rule, failed]

/-- Where every place of a kind but the end can be read on from to another one, repetition reads from there to
the end. -/
theorem Reads.repeated {Place : Cursor → Prop} {Kind : Tree ρ → Prop}
    (next : ∀ {c}, Place c → c.rest ≠ [] →
      ∃ d t, m.Reads c d [t] ∧ Kind t ∧ Place d ∧ d.rest.length < c.rest.length)
    (stop : ∀ {c}, c.rest = [] → m.Fails c) (hc : Place c) {bound : List Char}
    (hb : c.rest.length ≤ bound.length) :
    ∃ d ts, (m.repeated bound).Reads c d ts ∧ d.rest = [] ∧ ∀ t ∈ ts, Kind t := by
  induction bound generalizing c with
  | nil =>
    have done : c.rest = [] := List.eq_nil_of_length_eq_zero (Nat.le_zero.mp hb)
    exact ⟨c, [], fun a => rfl, done, nofun⟩
  | cons x bound ih =>
    by_cases hr : c.rest = []
    · exact ⟨c, [], (stop hr).repeated _, hr, nofun⟩
    · obtain ⟨d, t, read, kind, hd, shorter⟩ := next hc hr
      have room : d.rest.length ≤ bound.length := by
        rw [List.length_cons] at hb
        omega
      obtain ⟨e, ts, rest, hend, kinds⟩ := ih hd room
      exact ⟨e, t :: ts, read.repeated_cons rest x, hend, List.forall_mem_cons.mpr ⟨kind, kinds⟩⟩

end Matcher

/-- Where each of several rules fails, so does the choice. -/
lemma Peg.fails_choice {call : ρ → Matcher ρ} {c : Cursor} {r : ρ} {rs : List ρ}
    (hf : ∀ q ∈ r :: rs, (call q).Fails c) : ((choice r rs).matcher call).Fails c := by
  induction rs generalizing r with
  | nil => exact hf r (List.mem_singleton_self r)
  | cons q rs ih =>
    obtain ⟨here, later⟩ := List.forall_mem_cons.mp hf
    exact Matcher.Fails.alt here (ih later)

/-- Where one of several rules is read, the choice reads something. -/
lemma Peg.exists_reads_choice {call : ρ → Matcher ρ} (hs : ∀ q, (call q).Steady) {c : Cursor} {r : ρ}
    {rs : List ρ} (h : ∃ q ∈ r :: rs, ∃ d ts, (call q).Reads c d ts) :
    ∃ d ts, ((choice r rs).matcher call).Reads c d ts := by
  induction rs generalizing r with
  | nil =>
    obtain ⟨q, hq, d, ts, read⟩ := h
    exact ⟨d, ts, List.mem_singleton.mp hq ▸ read⟩
  | cons s rs ih =>
    obtain ⟨q, hq, d, ts, read⟩ := h
    cases first : (call r c .none).1 with
    | some found => exact ⟨found.1, found.2, Matcher.Reads.left fun a => (hs r c a .none).trans first⟩
    | none =>
      have fails : (call r).Fails c := (hs r).fails first
      rcases List.mem_cons.mp hq with rfl | hq
      · have none := fails .none
        rw [read] at none
        cases none
      · obtain ⟨e, us, others⟩ := ih ⟨q, hq, d, ts, read⟩
        exact ⟨e, us, .right fails others⟩

/-- The first of several rules that does not fail is the one that is read. -/
lemma Peg.reads_choice {call : ρ → Matcher ρ} {c d : Cursor} {ts : List (Tree ρ)} {r s : ρ}
    {rs front back : List ρ} (hs : r :: rs = front ++ s :: back) (hf : ∀ q ∈ front, (call q).Fails c)
    (hr : (call s).Reads c d ts) : ((choice r rs).matcher call).Reads c d ts := by
  induction front generalizing r rs with
  | nil =>
    obtain ⟨rfl, rfl⟩ := List.cons.inj hs
    cases rs with
    | nil => exact hr
    | cons q rs => exact hr.left
  | cons q front ih =>
    obtain ⟨rfl, hrs⟩ := List.cons.inj hs
    obtain ⟨here, later⟩ := List.forall_mem_cons.mp hf
    cases rs with
    | nil => simp at hrs
    | cons q rs => exact .right here (ih hrs later)

end Stencil
