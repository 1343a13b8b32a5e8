import Stencil.Parse
import Stencil.Proofs.Reading.Leads
import Stencil.Proofs.Reading.Refusals

/-!
# Blocks that are not closed

The head of a block in front of a text that would be a template on its own opens a block that nothing closes. The text
is then read to its end, where the mark of the end of a block is tried in vain, and no later attempt comes further or
takes that one back. Main statement: `parse_of_unclosed`, such a source is refused at its end for want of that mark.
-/

namespace Stencil

/-! ### Attempts at the end of the text -/

section Growing

variable {ρ : Type} {text : List Char}

/-- Attempts that are followed by others at the same place. -/
structure Attempts.Grows (a b : Attempts ρ) : Prop where
  offset : b.offset = a.offset
  rules : a.rules <+: b.rules

lemma Attempts.Grows.refl (a : Attempts ρ) : a.Grows a := ⟨rfl, List.prefix_rfl⟩

lemma Attempts.Grows.trans {a b c : Attempts ρ} (h : a.Grows b) (h' : b.Grows c) : a.Grows c :=
  ⟨h'.offset.trans h.offset, h.rules.trans h'.rules⟩

/-- A rule that fails no further on stands for what its body tried, and not for what was tried before. -/
lemma Attempts.Grows.failed {a b : Attempts ρ} (h : a.Grows b) {offset : Nat} (le : offset ≤ a.offset) (r : ρ) :
    a.Grows (b.failed offset (a.countAt offset) r) := by
  unfold Attempts.failed
  split
  · exact h
  · split
    · next same =>
      have here : offset = a.offset := same.trans h.offset
      refine ⟨here, ?_⟩
      show a.rules <+: b.rules.take (a.countAt offset) ++ [r]
      obtain ⟨later, hb⟩ := h.rules
      rw [Attempts.countAt, if_pos here, ← hb, List.take_left]
      exact List.prefix_append _ _
    · split
      · next further =>
        rw [h.offset] at further
        exact absurd further (Nat.not_lt_of_le le)
      · exact h

/-- How attempts go on in a text: between its characters, and at its end with nothing taken back. -/
structure Attempts.Follows (text : List Char) (a b : Attempts ρ) : Prop where
  within : a.Within text → b.Within text
  grows : a.offset = utf8Length text → a.Grows b

lemma Attempts.Within.offset_le {a : Attempts ρ} (h : a.Within text) : a.offset ≤ utf8Length text := by
  obtain ⟨front, back, ht, ho⟩ := h
  rw [ho, ht, utf8Length_append]
  exact Nat.le_add_right _ _

/-- What is before a place and what is after it make up the text. -/
lemma Cursor.In.utf8Length_eq {c : Cursor} (h : c.In text) : utf8Length text = c.offset + utf8Length c.rest := by
  obtain ⟨front, hr, ho⟩ := h
  have ht : text = front ++ c.rest := hr
  rw [ho, ht, utf8Length_append]
  exact congrArg (· + _) (Nat.zero_add _).symm

lemma Cursor.In.offset_le {c : Cursor} (h : c.In text) : c.offset ≤ utf8Length text :=
  h.utf8Length_eq ▸ Nat.le_add_right _ _

lemma Cursor.In.offset_lt {c : Cursor} (h : c.In text) (hne : c.rest ≠ []) : c.offset < utf8Length text := by
  obtain ⟨x, xs, hr⟩ := List.exists_cons_of_ne_nil hne
  have positive := x.utf8Size_pos
  rw [h.utf8Length_eq, hr, utf8Length_cons]
  omega

lemma Attempts.kept_follows : Attempts.Kept text (Attempts.Follows text : Attempts ρ → Attempts ρ → Prop) where
  refl a := ⟨id, fun _ => .refl a⟩
  trans h h' := ⟨h'.within ∘ h.within, fun ha => (h.grows ha).trans (h'.grows ((h.grows ha).offset.trans ha))⟩
  failed r hc h := ⟨fun ha => (h.within ha).failed hc _ r, fun ha => (h.grows ha).failed (ha ▸ hc.offset_le) r⟩

end Growing

variable {text : List Char} {c d e : Cursor} {r : Rule}

/-- Rules are read with attempts that go on. -/
lemma Rule.follows (g : Peg Rule) : (g.matcher reading).Keeps text (Attempts.Follows text) :=
  Peg.keeps_matcher Attempts.kept_follows
    (fun r c a hc => Grammar.keeps_matcher Attempts.kept_follows body _ r c a hc) sound_reading g

/-! ### For want of the mark of the end -/

/-- Attempts at the end of a text, the mark of the end of a block among them. -/
structure Attempts.Wanting (text : List Char) (a : Attempts Rule) : Prop where
  offset : a.offset = utf8Length text
  mem : .endMarker ∈ a.rules

/-- Wherever the reading of an expression starts, the mark of the end of a block is tried at the end of the text. -/
def Rule.Wants (text : List Char) (g : Peg Rule) (c : Cursor) : Prop :=
  ∀ a, a.Within text → (g.matcher reading c a).2.Wanting text

lemma Attempts.Follows.wanting {a b : Attempts Rule} (h : a.Follows text b) (ha : a.Wanting text) : b.Wanting text :=
  have grows := h.grows ha.offset
  ⟨grows.offset.trans ha.offset, grows.rules.subset ha.mem⟩

/-- What is left wanting by a matcher stays so, whatever is read behind it. -/
lemma Attempts.Wanting.seq {m n : Matcher Rule} {a : Attempts Rule} (h : (m c a).2.Wanting text) (sound : m.Sound)
    (hn : n.Keeps text (Attempts.Follows text)) (hc : c.In text) : (m.seq n c a).2.Wanting text := by
  rcases hf : m c a with ⟨_ | ⟨e, ts⟩, b⟩
  · rw [hf] at h
    unfold Matcher.seq
    rwa [hf]
  · rw [hf] at h
    rw [Matcher.snd_seq hf]
    exact (hn e b (sound.in hc hf)).wanting h

namespace Rule

variable {g h : Peg Rule}

/-- What opens with a mark cannot be read at the end. -/
lemma goes_eq_none_of_rest (he : c.rest = []) {n : Nat} {cs : List Char} (ho : g.openers (body.openers n) = some cs) :
    goes g c = none := by
  refine goes_eq_none_of_openers ho ?_
  rw [he]
  exact nofun

lemma goes_ending_eq_none (hne : c.rest ≠ []) : goes (.rule ending) c = none := by
  rw [goes_word rfl]
  exact Option.eq_none_iff_forall_ne_some.mpr fun d hrun => hne (Pattern.rest_of_run_ending hrun)

lemma goes_endMarker_eq_none (he : c.rest = []) : goes (.rule endMarker) c = none :=
  @goes_eq_none_of_rest c _ he 1 ['#'] rfl

/-- The mark of the end of a block is tried in vain at the end of the text. -/
lemma wants_endMarker (hc : c.In text) (he : c.rest = []) : Wants text (.rule endMarker) c := by
  intro a ha
  show (endMarker.reading c a).2.Wanting text
  have place : c.offset = utf8Length text := by
    rw [hc.utf8Length_eq, he]
    rfl
  have none := goes_endMarker_eq_none he
  obtain ⟨p, hb⟩ : ∃ p, body endMarker = .word p := ⟨_, rfl⟩
  rw [goes_word hb] at none
  rw [reading_eq, hb]
  show (Matcher.rule endMarker (Matcher.token p) c a).2.Wanting text
  unfold Matcher.rule Matcher.token
  rw [none]
  show (a.failed c.offset (a.countAt c.offset) endMarker).Wanting text
  unfold Attempts.failed
  rw [if_neg (Nat.succ_ne_self _).symm]
  split
  · exact ⟨place, List.mem_append_right _ (List.mem_singleton_self _)⟩
  · next other =>
    have further : a.offset < c.offset := Nat.lt_of_le_of_ne (place ▸ ha.offset_le) (Ne.symm other)
    rw [if_pos further]
    exact ⟨place, List.mem_singleton_self _⟩

lemma Wants.first (hg : Wants text g c) (hc : c.In text) (h : Peg Rule) : Wants text (.seq g h) c :=
  fun a ha => (hg a ha).seq (Peg.matcher_sound sound_reading g) (follows h) hc

lemma Wants.after (hh : Wants text h d) (hg : goes g c = some d) (hc : c.In text) : Wants text (.seq g h) c := by
  intro a ha
  obtain ⟨ts, reads⟩ := (Peg.matcher_steady steady_reading g).reads_of_goes hg
  obtain ⟨b, hf⟩ := reads.eq a
  have within := (follows g c a hc).within ha
  rw [hf] at within
  show (Matcher.seq (g.matcher reading) (h.matcher reading) c a).2.Wanting text
  rw [Matcher.snd_seq hf]
  exact hh b within

lemma Wants.left (hg : Wants text g c) (hc : c.In text) (h : Peg Rule) : Wants text (.alt g h) c := by
  intro a ha
  have first := hg a ha
  show (Matcher.alt (g.matcher reading) (h.matcher reading) c a).2.Wanting text
  unfold Matcher.alt
  split
  · next b hf =>
    rw [hf] at first
    exact (follows h c b hc).wanting first
  · exact first

lemma Wants.right (hh : Wants text h c) (hg : goes g c = none) (hc : c.In text) : Wants text (.alt g h) c := by
  intro a ha
  have fails : (g.matcher reading).Fails c := fun b =>
    Option.map_eq_none_iff.mp (((Peg.matcher_steady steady_reading g).map_fst c b).trans hg)
  obtain ⟨b, hf⟩ := fails.eq a
  have within := (follows g c a hc).within ha
  rw [hf] at within
  show (Matcher.alt (g.matcher reading) (h.matcher reading) c a).2.Wanting text
  unfold Matcher.alt
  rw [hf]
  exact hh b within

lemma Wants.many (hg : Wants text g c) (hc : c.In text) : Wants text (.many g) c := by
  intro a ha
  have first := hg a ha
  have sound := Peg.matcher_sound sound_reading g
  show (Matcher.repeated (g.matcher reading) c.rest c a).2.Wanting text
  cases c.rest with
  | nil => exact first
  | cons x bound =>
    rw [Matcher.repeated_cons, Matcher.snd_opt]
    exact first.seq sound (Matcher.keeps_repeated Attempts.kept_follows (follows g) sound bound) hc

lemma Wants.rule (hg : Wants text g c) (hb : body r = .phrase g) (hc : c.In text) (hne : c.rest ≠ []) :
    Wants text (.rule r) c := by
  intro a ha
  have inside := hg a ha
  show (r.reading c a).2.Wanting text
  rw [reading_eq, hb]
  show (Matcher.rule r (g.matcher reading) c a).2.Wanting text
  unfold Matcher.rule
  split
  · next hf => rwa [hf] at inside
  · next b hf =>
    rw [hf] at inside
    have before := hc.offset_lt hne
    rw [← inside.offset] at before
    unfold Attempts.failed
    rw [if_neg (Nat.ne_of_lt before), if_neg (Nat.not_lt_of_lt before)]
    rwa [ite_self]

/-- A choice is left wanting where one of its rules is, and those before it cannot be read. -/
lemma Wants.choice {s : Rule} {rs : List Rule} (hs : s ∈ r :: rs) (hw : Wants text (.rule s) c) (hc : c.In text)
    (hf : ∀ q ∈ r :: rs, q ≠ s → goes (.rule q) c = none) : Wants text (.choice r rs) c := by
  induction rs generalizing r with
  | nil =>
    obtain rfl := List.mem_singleton.mp hs
    exact hw
  | cons q rs ih =>
    by_cases same : r = s
    · exact Wants.left (same ▸ hw) hc (.choice q rs)
    · have later : s ∈ q :: rs := List.mem_of_ne_of_mem (Ne.symm same) hs
      exact Wants.right (ih later fun p hp => hf p (List.mem_cons_of_mem _ hp)) (hf r List.mem_cons_self same) hc

/-! ### What the head of a block is followed by -/

lemma in_of_goes (hc : c.In text) (hg : goes g c = some d) : d.In text := by
  obtain ⟨front, hf⟩ := hc
  obtain ⟨w, hw⟩ := exists_reaches_of_goes hg
  exact ⟨_, hf.trans hw⟩

/-- What a directive reads before the mark of its end goes as far as its block where that goes to the end. -/
lemma exists_closed (hr : r ∈ blockHeads) : ∃ g, body r.headOf = .phrase (.seq g (.rule endMarker)) ∧
    ∀ {c d e}, goes (.rule r) c = some d → goes (.rule block) d = some e → e.rest = [] → goes g c = some e := by
  have noElseif {e : Cursor} (he : e.rest = []) : goes (.rule elseifBranch) e = none :=
    @goes_eq_none_of_rest e _ he 3 ['#'] rfl
  have noElse {e : Cursor} (he : e.rest = []) : goes (.rule elseBranch) e = none :=
    @goes_eq_none_of_rest e _ he 3 ['#'] rfl
  simp only [blockHeads, List.mem_cons, List.not_mem_nil, or_false] at hr
  rcases hr with rfl | rfl | rfl
  · refine ⟨_, rfl, fun head inner he => ?_⟩
    exact goes_both (goes_both (goes_both head inner) (goes_done (noElseif he))) (goes_skipped (noElse he))
  · refine ⟨_, rfl, fun head inner he => ?_⟩
    exact goes_both (goes_both head inner) (goes_skipped (noElse he))
  · exact ⟨_, rfl, fun head inner _ => goes_both head inner⟩

lemma headOf_mem_nodes (hr : r ∈ blockHeads) : r.headOf ∈ nodes := by
  have checked : ∀ r ∈ blockHeads, r.headOf ∈ nodes := by decide
  exact checked r hr

section Open

variable (hr : r ∈ blockHeads) (hd : goes (.rule r) c = some d) (he : goes (.rule block) d = some e)
  (hend : e.rest = [])

include hr hd he hend

/-- A head whose block goes to the end of the text is no directive, and no node. -/
lemma goes_item_eq_none : goes item c = none := by
  obtain ⟨blockEnd_, others⟩ := goes_node_eq_none hr (spans_of_goes hd)
  obtain ⟨g, hb, whole⟩ := exists_closed hr
  have directive : goes (.rule r.headOf) c = none := by
    rw [goes_phrase hb, goes_after (whole hd he hend)]
    exact goes_endMarker_eq_none hend
  have nothing : goes (.token (.absent blockEnd)) c = some c := (goes_token _ c).trans (Pattern.run_absent blockEnd_)
  unfold item
  rw [goes_after nothing]
  refine goes_choice_eq_none fun q hq => ?_
  by_cases same : q = r.headOf
  · exact same ▸ directive
  · exact others q hq same

/-- What is read in vain there has come to the end of the text. -/
lemma wants_item (hc : c.In text) (hne : c.rest ≠ []) : Wants text item c := by
  obtain ⟨blockEnd_, others⟩ := goes_node_eq_none hr (spans_of_goes hd)
  obtain ⟨g, hb, whole⟩ := exists_closed hr
  have last := in_of_goes (in_of_goes hc hd) he
  have directive : Wants text (.rule r.headOf) c :=
    ((wants_endMarker last hend).after (whole hd he hend) hc).rule hb hc hne
  have nothing : goes (.token (.absent blockEnd)) c = some c := (goes_token _ c).trans (Pattern.run_absent blockEnd_)
  exact Wants.after (directive.choice (headOf_mem_nodes hr) hc others) nothing hc

/-- A text that starts there is no template, and is refused for want of the mark of the end. -/
lemma wants_template (hc : c.In text) (hne : c.rest ≠ []) :
    goes (.rule template) c = none ∧ Wants text (.rule template) c := by
  have hb : body template = .phrase (.seq (.rule block) (.rule ending)) := rfl
  have inner : goes (.rule block) c = some c := by
    rw [goes_phrase body_block]
    exact goes_done (goes_item_eq_none hr hd he hend)
  have wants : Wants text (.rule block) c := ((wants_item hr hd he hend hc hne).many hc).rule body_block hc hne
  constructor
  · rw [goes_phrase hb, goes_after inner]
    exact goes_ending_eq_none hne
  · exact (wants.first hc (.rule ending)).rule hb hc hne

end Open

end Rule

/-! ### Sources that are refused -/

open Rule

/-- A text that the grammar reads to its end by a rule. -/
def Rule.accepts (r : Rule) (text : List Char) : Bool :=
  (body.matcher (openRules text) r (.start text) .none).1.any fun read => read.1.rest.isEmpty

lemma Rule.goes_of_accepts (h : r.accepts text) : ∃ d, goes (.rule r) (.start text) = some d ∧ d.rest = [] := by
  obtain ⟨⟨d, ts⟩, hm, hd⟩ := (Option.any_eq_true _ _).mp h
  exact ⟨d, congrArg (Option.map Prod.fst) hm, List.isEmpty_iff.mp hd⟩

lemma Rule.goes_of_readTree {t : Tree Rule} (h : readTree text = .ok t) :
    ∃ d, goes (.rule template) (.start text) = some d := by
  obtain ⟨d, read⟩ := readTree_eq_ok_iff.mp h
  exact ⟨d, congrArg (Option.map Prod.fst) read⟩

/-- A template is a block that goes to the end of its text. -/
lemma Rule.goes_block_of_readTree {t : Tree Rule} (h : readTree text = .ok t) :
    ∃ e, goes (.rule block) (.start text) = some e ∧ e.rest = [] := by
  have hb : body template = .phrase (.seq (.rule block) (.rule ending)) := rfl
  obtain ⟨d, whole⟩ := goes_of_readTree h
  rw [goes_phrase hb, goes_seq] at whole
  obtain ⟨e, inner, last⟩ := Option.bind_eq_some_iff.mp whole
  refine ⟨e, inner, ?_⟩
  by_contra hne
  rw [goes_ending_eq_none hne] at last
  cases last

/-- The head of a block in front of a template: the text is refused at its end, for want of the mark of the end. -/
theorem refused_of_unclosed {head : List Char} (hr : r ∈ blockHeads) (hh : r.accepts head) {t : Tree Rule}
    (ht : readTree text = .ok t) :
    ∃ refusal, readTree (head ++ text) = .error refusal ∧ refusal.offset = utf8Length (head ++ text) ∧
      .endMarker ∈ refusal.rules := by
  obtain ⟨d, opens, hd⟩ := goes_of_accepts hh
  obtain ⟨e, inner, he⟩ := goes_block_of_readTree ht
  have front : goes (.rule r) (.start (head ++ text)) = some (d.extend text) := goes_head_extend hr opens hd text
  -- The block behind the head is the block of the template, at a later place.
  have behind : d.extend text = (Cursor.start text).shift d.offset := by
    unfold Cursor.extend Cursor.shift Cursor.start
    rw [hd, Nat.zero_add]
    rfl
  have after : goes (.rule block) (d.extend text) = some (e.shift d.offset) := by
    rw [behind]
    exact (goes_reading_shift d.offset block (.start text)).trans (congrArg (Option.map _) inner)
  have hne : (Cursor.start (head ++ text)).rest ≠ [] := by
    rcases spells_head hr (spans_of_goes front) with ⟨rest, hc⟩ | ⟨rest, hc, -⟩
    · exact hc ▸ List.cons_ne_nil _ _
    · exact hc ▸ List.cons_ne_nil _ _
  obtain ⟨fails, wants⟩ := wants_template hr front after he ⟨[], .refl _⟩ hne
  have start : (Attempts.none : Attempts Rule).Within (head ++ text) := ⟨[], head ++ text, rfl, rfl⟩
  have wanting : (body.matcher (openRules (head ++ text)) template (.start (head ++ text)) .none).2.Wanting _ :=
    wants .none start
  cases read : readTree (head ++ text) with
  | ok t =>
    obtain ⟨d, whole⟩ := goes_of_readTree read
    rw [fails] at whole
    cases whole
  | error refusal =>
    refine ⟨refusal, rfl, ?_⟩
    rw [refusal_of_readTree read]
    exact ⟨wanting.offset, List.mem_filter.mpr ⟨mem_all _, List.contains_iff_mem.mpr wanting.mem⟩⟩

/-- The failure of a source in which a block is not closed: a syntax error at its end. -/
structure Failure.Unclosed (s : Source) (f : Failure) : Prop where
  kind : f.kind = .parse
  message : f.message = "missing #end for an open block directive"
  token : f.token? = some "end of input"
  source : f.source = some s
  position : ∃ p, f.position = some p ∧ p.Cuts s s.text.toList [] []

/-- The head of a block and a text that would be a template on its own: the source is refused at its end, since the
block is not closed. -/
theorem parse_of_unclosed {s : Source} {head text : List Char} (hs : s.text.toList = head ++ text)
    (hh : ∃ r ∈ Rule.blockHeads, r.accepts head) (ht : ∃ t, readTree text = .ok t) (policy : GobblingPolicy) :
    ∃ f, parse s policy = .error (.single f) ∧ f.Unclosed s := by
  obtain ⟨r, hr, hh⟩ := hh
  obtain ⟨t, ht⟩ := ht
  obtain ⟨refusal, refused, offset, wanting⟩ := refused_of_unclosed hr hh ht
  rw [← hs] at refused offset
  have fault : ParseFault.ofExpected refusal.rules = .unclosedBlock :=
    if_pos (List.any_eq_true.mpr ⟨_, wanting, rfl⟩)
  have failure : (Site.ofSource s).refused s.text.toList refusal = .at_ (.parse .unclosedBlock "end of input")
      ((Site.ofSource s).positionOf ⟨utf8Length s.text.toList, utf8Length s.text.toList⟩) := by
    unfold Site.refused
    rw [offset, fault, if_pos (Nat.le_refl _)]
    rfl
  have parsed : parse s policy = .error (.single (((Site.ofSource s).refused s.text.toList refusal).inSource s)) := by
    have read : readTree (Site.ofSource s).chars = .error refusal := refused
    unfold parse parseTree
    dsimp only
    rw [read]
    rfl
  have place := (Site.ofSource s).cuts_positionOf rfl
    (show s.text.toList = s.text.toList ++ [] ++ [] by rw [List.append_nil, List.append_nil])
  rw [List.append_nil] at place
  refine ⟨_, parsed, ?_⟩
  rw [failure]
  exact ⟨rfl, rfl, rfl, rfl, _, rfl, place⟩

/-- A loop that is not closed, around a condition that is, a call and stray marks. -/
theorem parse_of_unclosed_foreach :
    (∃ r ∈ Rule.blockHeads, r.accepts "#foreach($x in [1, 2])".toList) ∧
    (∃ t, readTree "\n#if($x)é$x.f(\"#end\")#end $ #\n".toList = .ok t) ∧
    ∃ f, parse ⟨"t", "#foreach($x in [1, 2])\n#if($x)é$x.f(\"#end\")#end $ #\n"⟩ .lines = .error (.single f) ∧
      f.Unclosed ⟨"t", "#foreach($x in [1, 2])\n#if($x)é$x.f(\"#end\")#end $ #\n"⟩ := by
  have head : ∃ r ∈ Rule.blockHeads, r.accepts "#foreach($x in [1, 2])".toList := by decide +kernel
  have whole : ∃ t, readTree "\n#if($x)é$x.f(\"#end\")#end $ #\n".toList = .ok t := by
    have reads : (readTree "\n#if($x)é$x.f(\"#end\")#end $ #\n".toList).isOk = true := by decide +kernel
    cases ht : readTree "\n#if($x)é$x.f(\"#end\")#end $ #\n".toList with
    | ok t => exact ⟨t, rfl⟩
    | error refusal =>
      rw [ht] at reads
      cases reads
  have text : (⟨"t", "#foreach($x in [1, 2])\n#if($x)é$x.f(\"#end\")#end $ #\n"⟩ : Source).text.toList =
      "#foreach($x in [1, 2])".toList ++ "\n#if($x)é$x.f(\"#end\")#end $ #\n".toList := by
    decide +kernel
  exact ⟨head, whole, parse_of_unclosed text head whole .lines⟩

end Stencil
