import Stencil.Proofs.Reading.Derivation
import Stencil.Proofs.Reading.Meaning

/-!
# The shapes of matches

Which rules the parts of a match come from, and in which order: a row of slots, each for one part or for any
number of them. Main statement: `Peg.filled_of_derives`, what an expression reads stands for parts that fill one
of its rows, as soon as every rule in it stands for a part of its kind.
-/

namespace Stencil

variable {ρ α : Type}

/-! ### Rows of slots -/

/-- A place for one part of a match, which one of some rules has made, or for any number of such parts. -/
inductive Slot (ρ : Type) where
  | one (rules : List ρ)
  | any (rules : List ρ)
  deriving Repr, DecidableEq

def Slot.rules : Slot ρ → List ρ
  | one rs => rs
  | any rs => rs

/-- The rows of slots that an expression may fill. -/
def Peg.rows : Peg ρ → List (List (Slot ρ))
  | token _ => [[]]
  | seq g h => g.rows.flatMap fun row => h.rows.map (row ++ ·)
  | alt g h =>
    match g.rows, h.rows with
    | [[.one rs]], [[.one qs]] => [[.one (rs ++ qs)]]
    | [[]], [[]] => [[]]
    | rows, rows' => rows ++ rows'
  | many g => [[.any (g.rows.flatten.flatMap Slot.rules)]]
  | opt g =>
    match g.rows with
    | [[]] => [[]]
    | rows => [] :: rows
  | rule r => [[.one [r]]]

/-- Whether parts fill a row of slots, given what a rule may make. -/
inductive Slot.Filled (Makes : ρ → α → Prop) : List (Slot ρ) → List α → Prop
  | nil : Filled Makes [] []
  | one {rs r p row ps} : r ∈ rs → Makes r p → Filled Makes row ps → Filled Makes (.one rs :: row) (p :: ps)
  | none {rs row ps} : Filled Makes row ps → Filled Makes (.any rs :: row) ps
  | more {rs r p row ps} : r ∈ rs → Makes r p → Filled Makes (.any rs :: row) ps →
    Filled Makes (.any rs :: row) (p :: ps)

/-- Whether parts fill one of several rows. -/
def Slot.FillsOne (Makes : ρ → α → Prop) (rows : List (List (Slot ρ))) (ps : List α) : Prop :=
  ∃ row ∈ rows, Filled Makes row ps

namespace Slot

variable {Makes : ρ → α → Prop} {row row' : List (Slot ρ)} {ps qs : List α}

lemma Filled.append (h : Filled Makes row ps) (h' : Filled Makes row' qs) :
    Filled Makes (row ++ row') (ps ++ qs) := by
  induction h with
  | nil => exact h'
  | one hr hp _ ih => exact .one hr hp ih
  | none _ ih => exact .none ih
  | more hr hp _ ih => exact .more hr hp ih

/-- Every part in a row comes from one of its rules. -/
lemma Filled.mem (h : Filled Makes row ps) : ∀ p ∈ ps, ∃ r ∈ row.flatMap Slot.rules, Makes r p := by
  have front {s : Slot ρ} {row : List (Slot ρ)} {r : ρ} (hr : r ∈ s.rules) :
      r ∈ (s :: row).flatMap Slot.rules := by
    rw [List.flatMap_cons]
    exact List.mem_append_left _ hr
  have back {s : Slot ρ} {row : List (Slot ρ)} {p : α} (h : ∃ r ∈ row.flatMap Slot.rules, Makes r p) :
      ∃ r ∈ (s :: row).flatMap Slot.rules, Makes r p := by
    obtain ⟨r, hr, hp⟩ := h
    rw [List.flatMap_cons]
    exact ⟨r, List.mem_append_right _ hr, hp⟩
  induction h with
  | nil => exact nofun
  | @one rs r p row ps hr hp _ ih =>
    have here : r ∈ (Slot.one rs).rules := hr
    exact List.forall_mem_cons.mpr ⟨⟨r, front here, hp⟩, fun q hq => back (ih q hq)⟩
  | none _ ih => exact fun q hq => back (ih q hq)
  | @more rs r p row ps hr hp _ ih =>
    have here : r ∈ (Slot.any rs).rules := hr
    exact List.forall_mem_cons.mpr ⟨⟨r, front here, hp⟩, ih⟩

lemma Filled.mem_of (h : Filled Makes row ps) (rs : List ρ) (hs : ∀ r ∈ row.flatMap Slot.rules, r ∈ rs) :
    ∀ p ∈ ps, ∃ r ∈ rs, Makes r p := by
  intro p hp
  obtain ⟨r, hr, made⟩ := h.mem p hp
  exact ⟨r, hs r hr, made⟩

/-- Parts of the rules of a slot for any number of them fill it. -/
lemma Filled.any {rs : List ρ} (h : ∀ p ∈ ps, ∃ r ∈ rs, Makes r p) : Filled Makes [.any rs] ps := by
  induction ps with
  | nil => exact .none .nil
  | cons p ps ih =>
    obtain ⟨⟨r, hr, hp⟩, later⟩ := List.forall_mem_cons.mp h
    exact .more hr hp (ih later)

/-- One part fills a slot for one. -/
lemma Filled.eq_singleton {rs : List ρ} (h : Filled Makes [.one rs] ps) :
    ∃ r ∈ rs, ∃ p, ps = [p] ∧ Makes r p := by
  cases h with
  | one hr hp hn =>
    cases hn
    exact ⟨_, hr, _, rfl, hp⟩

lemma Filled.eq_nil (h : Filled Makes [] ps) : ps = [] := by
  cases h
  rfl

/-- A row that starts with a slot for one part starts with a part of one of its rules. -/
lemma Filled.head {rs : List ρ} {P : α → Prop} (h : Filled Makes (.one rs :: row) ps)
    (hp : ∀ r ∈ rs, ∀ p, Makes r p → P p) : ∃ p qs, ps = p :: qs ∧ P p ∧ Filled Makes row qs := by
  cases h with
  | one hr made rest => exact ⟨_, _, rfl, hp _ hr _ made, rest⟩

lemma Filled.part {r : ρ} (h : Filled Makes (.one [r] :: row) ps) :
    ∃ p qs, ps = p :: qs ∧ Makes r p ∧ Filled Makes row qs := by
  cases h with
  | one hr made rest => exact ⟨_, _, rfl, List.mem_singleton.mp hr ▸ made, rest⟩

/-- A row of one slot for one part is filled by a part of one of its rules. -/
lemma Filled.sole {rs : List ρ} {P : α → Prop} (h : Filled Makes [.one rs] ps) (hp : ∀ r ∈ rs, ∀ p, Makes r p → P p) :
    ∃ p, ps = [p] ∧ P p := by
  obtain ⟨p, rest, rfl, made, tail⟩ := h.head hp
  obtain rfl := tail.eq_nil
  exact ⟨p, rfl, made⟩

lemma Filled.single {r : ρ} (h : Filled Makes [.one [r]] ps) : ∃ p, ps = [p] ∧ Makes r p :=
  h.sole fun _ hr _ made => List.mem_singleton.mp hr ▸ made

/-- A row of two slots for one part each is filled by two parts. -/
lemma Filled.couple {rs ss : List ρ} {P Q : α → Prop} (h : Filled Makes [.one rs, .one ss] ps)
    (hp : ∀ r ∈ rs, ∀ p, Makes r p → P p) (hq : ∀ s ∈ ss, ∀ q, Makes s q → Q q) : ∃ p q, ps = [p, q] ∧ P p ∧ Q q := by
  obtain ⟨p, rest, rfl, first, tail⟩ := h.head hp
  obtain ⟨q, rfl, second⟩ := tail.sole hq
  exact ⟨p, q, rfl, first, second⟩

lemma Filled.pair {r s : ρ} (h : Filled Makes [.one [r], .one [s]] ps) :
    ∃ p q, ps = [p, q] ∧ Makes r p ∧ Makes s q :=
  h.couple (fun _ hr _ made => List.mem_singleton.mp hr ▸ made) fun _ hs _ made => List.mem_singleton.mp hs ▸ made

/-- A row that starts with a slot for any number of parts starts with parts of its rules. -/
lemma Filled.span {rs : List ρ} (h : Filled Makes (.any rs :: row) ps) :
    ∃ as bs, ps = as ++ bs ∧ (∀ p ∈ as, ∃ r ∈ rs, Makes r p) ∧ Filled Makes row bs := by
  generalize hs : Slot.any rs :: row = slots at h
  induction h with
  | nil => cases hs
  | one _ _ _ _ => cases hs
  | none rest _ =>
    cases hs
    exact ⟨[], _, rfl, nofun, rest⟩
  | @more rs' r p row' ps hr made rest ih =>
    cases hs
    obtain ⟨as, bs, rfl, all, others⟩ := ih rfl
    exact ⟨p :: as, bs, rfl, List.forall_mem_cons.mpr ⟨⟨r, hr, made⟩, all⟩, others⟩

lemma FillsOne.filled (h : FillsOne Makes [row] ps) : Filled Makes row ps := by
  obtain ⟨_, hrow, filled⟩ := h
  exact List.mem_singleton.mp hrow ▸ filled

lemma FillsOne.cases {rows : List (List (Slot ρ))} (h : FillsOne Makes (row :: rows) ps) :
    Filled Makes row ps ∨ FillsOne Makes rows ps := by
  obtain ⟨_, hrow, filled⟩ := h
  rcases List.mem_cons.mp hrow with rfl | hrow
  · exact .inl filled
  · exact .inr ⟨_, hrow, filled⟩

lemma FillsOne.mem {rows : List (List (Slot ρ))} (h : FillsOne Makes rows ps) :
    ∀ p ∈ ps, ∃ r ∈ rows.flatten.flatMap Slot.rules, Makes r p := by
  obtain ⟨row, hrow, filled⟩ := h
  intro p hp
  obtain ⟨r, hr, made⟩ := filled.mem p hp
  obtain ⟨s, hs, hr⟩ := List.mem_flatMap.mp hr
  exact ⟨r, List.mem_flatMap.mpr ⟨s, List.mem_flatten.mpr ⟨row, hrow, hs⟩, hr⟩, made⟩

lemma FillsOne.mem_of {rows : List (List (Slot ρ))} (h : FillsOne Makes rows ps) (rs : List ρ)
    (hs : ∀ r ∈ rows.flatten.flatMap Slot.rules, r ∈ rs) : ∀ p ∈ ps, ∃ r ∈ rs, Makes r p := by
  intro p hp
  obtain ⟨r, hr, made⟩ := h.mem p hp
  exact ⟨r, hs r hr, made⟩

end Slot

namespace Peg

open Slot

variable {Makes : ρ → α → Prop} {g h : Peg ρ} {ps qs : List α}

lemma filled_seq (hg : FillsOne Makes g.rows ps) (hh : FillsOne Makes h.rows qs) :
    FillsOne Makes (Peg.seq g h).rows (ps ++ qs) := by
  obtain ⟨row, hrow, filled⟩ := hg
  obtain ⟨row', hrow', filled'⟩ := hh
  exact ⟨row ++ row', List.mem_flatMap.mpr ⟨row, hrow, List.mem_map_of_mem hrow'⟩, filled.append filled'⟩

lemma filled_alt (hp : FillsOne Makes g.rows ps ∨ FillsOne Makes h.rows ps) :
    FillsOne Makes (Peg.alt g h).rows ps := by
  unfold rows
  split
  · next rs qs hg hh =>
    rw [hg, hh] at hp
    rcases hp with ⟨row, hrow, filled⟩ | ⟨row, hrow, filled⟩
    · obtain rfl := List.mem_singleton.mp hrow
      obtain ⟨r, hr, p, rfl, made⟩ := filled.eq_singleton
      exact ⟨_, List.mem_singleton_self _, .one (List.mem_append_left _ hr) made .nil⟩
    · obtain rfl := List.mem_singleton.mp hrow
      obtain ⟨r, hr, p, rfl, made⟩ := filled.eq_singleton
      exact ⟨_, List.mem_singleton_self _, .one (List.mem_append_right _ hr) made .nil⟩
  · next hg hh =>
    rw [hg, hh] at hp
    rcases hp with h | h
    · exact h
    · exact h
  · rcases hp with ⟨row, hrow, filled⟩ | ⟨row, hrow, filled⟩
    · exact ⟨row, List.mem_append_left _ hrow, filled⟩
    · exact ⟨row, List.mem_append_right _ hrow, filled⟩

lemma filled_more (hg : FillsOne Makes g.rows ps) (hs : FillsOne Makes (Peg.many g).rows qs) :
    FillsOne Makes (Peg.many g).rows (ps ++ qs) := by
  have rules : (Peg.many g).rows.flatten.flatMap Slot.rules = g.rows.flatten.flatMap Slot.rules :=
    List.append_nil _
  refine ⟨_, List.mem_singleton_self _, .any fun p hp => ?_⟩
  rcases List.mem_append.mp hp with hp | hp
  · exact hg.mem p hp
  · exact rules ▸ hs.mem p hp

lemma filled_skipped : FillsOne Makes (Peg.opt g).rows [] := by
  unfold rows
  split
  · exact ⟨[], List.mem_singleton_self _, .nil⟩
  · exact ⟨[], List.mem_cons_self .., .nil⟩

lemma filled_taken (hg : FillsOne Makes g.rows ps) : FillsOne Makes (Peg.opt g).rows ps := by
  unfold rows
  split
  · next hr => rwa [hr] at hg
  · obtain ⟨row, hrow, filled⟩ := hg
    exact ⟨row, List.mem_cons_of_mem _ hrow, filled⟩

end Peg

/-! ### Answers -/

/-- An answer that is as it should be, or a failure of a kind that may occur. -/
def Meets {ε : Type} (May : ε → Prop) (Good : α → Prop) : Except ε α → Prop
  | .ok a => Good a
  | .error f => May f

section

variable {ε β : Type} {May : ε → Prop} {Good : α → Prop} {Fine : β → Prop} {x : Except ε α}

lemma Meets.bind {f : α → Except ε β} (hx : Meets May Good x)
    (hf : ∀ a, x = .ok a → Good a → Meets May Fine (f a)) : Meets May Fine (x >>= f) := by
  cases x with
  | ok a => exact hf a rfl hx
  | error e => exact hx

lemma Meets.mono {Good' : α → Prop} (hx : Meets May Good x) (hg : ∀ a, Good a → Good' a) :
    Meets May Good' x := by
  cases x with
  | ok a => exact hg a hx
  | error e => exact hx

lemma Meets.mapM {as : List α} {f : α → Except ε β} (h : ∀ a ∈ as, Meets May Fine (f a)) :
    Meets May (fun bs => ∀ b ∈ bs, Fine b) (as.mapM f) := by
  induction as with
  | nil => exact List.forall_mem_nil _
  | cons a as ih =>
    obtain ⟨here, later⟩ := List.forall_mem_cons.mp h
    rw [List.mapM_cons]
    refine here.bind fun b _ hb => (ih later).bind fun bs _ hbs => ?_
    exact List.forall_mem_cons.mpr ⟨hb, hbs⟩

end

section

variable {ε : Type} {grammar : Grammar ρ} {meaning : ρ → Cursor → Cursor → List α → Except ε α}
  {May : ε → Prop} {Makes : ρ → α → Prop} {text : List Char}

lemma Cursor.Reaches.suffix {c d : Cursor} {w : List Char} (h : c.Reaches d w) (hc : c.rest <:+ text) :
    d.rest <:+ text :=
  List.IsSuffix.trans ⟨w, h.1.symm⟩ hc

lemma Tree.meets_append {Good Good' Good'' : List α → Prop} {ts us : List (Tree ρ)}
    (ht : Meets May Good (evalAll meaning ts)) (hu : Meets May Good' (evalAll meaning us))
    (h : ∀ {ps qs}, Good ps → Good' qs → Good'' (ps ++ qs)) :
    Meets May Good'' (evalAll meaning (ts ++ us)) := by
  rw [evalAll_append_eq]
  exact ht.bind fun ps _ hps => hu.bind fun qs _ hqs => h hps hqs

/-- What is known of a match of a rule when its meaning is asked for: where it lies, and that the parts are those
of its trees and fill a row of its body. -/
structure Grammar.Match (grammar : Grammar ρ) (meaning : ρ → Cursor → Cursor → List α → Except ε α)
    (Makes : ρ → α → Prop) (text : List Char) (r : ρ) (c d : Cursor) (ps : List α) : Prop where
  place : c.rest <:+ text
  derived : ∃ ts, Peg.Derives grammar (.rule r) c d [.node r c d ts] ∧ Tree.evalAll meaning ts = .ok ps
  filled : ∀ g, grammar r = .phrase g → Slot.FillsOne Makes g.rows ps

/-- What an expression reads stands for parts that fill one of its rows, when every match of a rule stands for a
part that the rule may make. -/
theorem Peg.filled_of_derives
    (hr : ∀ {r c d ps}, Grammar.Match grammar meaning Makes text r c d ps → Meets May (Makes r) (meaning r c d ps))
    {g : Peg ρ} {c d : Cursor} {ts : List (Tree ρ)} (hd : Peg.Derives grammar g c d ts)
    (hc : c.rest <:+ text) : Meets May (Slot.FillsOne Makes g.rows) (Tree.evalAll meaning ts) := by
  have nothing : Slot.FillsOne Makes [[]] [] := ⟨[], List.mem_singleton_self _, .nil⟩
  -- A match of a rule is one part, once the parts in it are known.
  have single {r : ρ} {c d : Cursor} {ts : List (Tree ρ)}
      (hd : Peg.Derives grammar (.rule r) c d [.node r c d ts]) (hc : c.rest <:+ text)
      (hts : Meets May (fun ps => ∀ g, grammar r = .phrase g → Slot.FillsOne Makes g.rows ps)
        (Tree.evalAll meaning ts)) :
      Meets May (Slot.FillsOne Makes (Peg.rule r).rows) (Tree.evalAll meaning [.node r c d ts]) := by
    have part : Meets May (Makes r) (Tree.eval meaning (.node r c d ts)) := by
      rw [Tree.eval]
      exact hts.bind fun ps hps filled => hr ⟨hc, ⟨ts, hd, hps⟩, filled⟩
    rw [Tree.evalAll]
    refine part.bind fun p _ hp => ?_
    exact ⟨_, List.mem_singleton_self _, .one (List.mem_singleton_self r) hp .nil⟩
  induction hd with
  | token _ => exact nothing
  | seq hg hh ihg ihh =>
    obtain ⟨w, hw⟩ := hg.reaches
    exact Tree.meets_append (ihg hc) (ihh (hw.suffix hc)) Peg.filled_seq
  | left _ ih => exact (ih hc).mono fun ps hps => Peg.filled_alt (.inl hps)
  | right _ ih => exact (ih hc).mono fun ps hps => Peg.filled_alt (.inr hps)
  | done => exact ⟨_, List.mem_singleton_self _, .none .nil⟩
  | more hg _ ihg ihs =>
    obtain ⟨w, hw⟩ := hg.reaches
    exact Tree.meets_append (ihg hc) (ihs (hw.suffix hc)) Peg.filled_more
  | skipped => exact Peg.filled_skipped
  | taken _ ih => exact (ih hc).mono fun ps hps => Peg.filled_taken hps
  | word hb hrun =>
    refine single (.word hb hrun) hc ?_
    rintro g hg
    rw [hb] at hg
    cases hg
  | phrase hb hd ih =>
    refine single (.phrase hb hd) hc ((ih hc).mono fun ps filled g hg => ?_)
    rw [hb] at hg
    cases hg
    exact filled

end

end Stencil
