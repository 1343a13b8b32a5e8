import Stencil.Parse
import Stencil.Proofs.Reading.Matching
import Stencil.Proofs.Reading.Meaning
import Stencil.Proofs.Reading.Nodes

/-!
# Plain text

A text in which no construct starts is a template of nothing but text, whatever stray marks there are in it.
Main statement: `parse_of_plain`.
-/

namespace Stencil

/-! ### Texts without constructs -/

/-- The rules of a block but for those of plain text. -/
def Rule.constructs : List Rule := Rule.nodes.filter fun r => r ≠ .text && r ≠ .stray

/-- Whether a construct starts at a place: the end of a block, the word of a directive, or what one of the
rules of constructs reads with at most `depth` rules open. -/
def Rule.startsAt (depth : Nat) (c : Cursor) : Bool :=
  (blockEnd.run c).isSome || ((Pattern.lit "#" ++ keyword).run c).isSome ||
    constructs.any fun r => (body.matcher depth r c .none).1.isSome

/-- Whether a place is before one of the marks that constructs start with. -/
def Cursor.atMark (c : Cursor) : Bool := c.rest.head?.any fun x => Rule.marks.contains x

/-- The places before the characters of a text that starts at an offset. -/
def Cursor.places (offset : Nat) : List Char → List Cursor
  | [] => []
  | x :: xs => ⟨offset, x :: xs⟩ :: places (offset + x.utf8Size) xs

/-- Whether no mark in a text starts a construct. Two rules are open wherever one is looked for: that of the
template and that of its block. -/
def IsPlain (text : List Char) : Prop :=
  ∀ c ∈ Cursor.places 0 text, c.atMark → Rule.startsAt (openRules text - 2) c = false

instance : DecidablePred IsPlain := fun text => inferInstanceAs (Decidable (∀ c ∈ Cursor.places 0 text, _))

lemma Cursor.mem_places {c d : Cursor} {cs : List Char} (h : c.Reaches d cs) (hr : d.rest ≠ []) :
    d ∈ places c.offset c.rest := by
  induction cs generalizing c with
  | nil =>
    obtain ⟨rest, offset⟩ := h
    obtain ⟨o, xs⟩ := d
    obtain ⟨o', ys⟩ := c
    simp only [List.nil_append, utf8Length_nil, Nat.add_zero] at rest offset
    subst rest offset
    cases ys with
    | nil => exact absurd rfl hr
    | cons y ys => exact List.mem_cons_self ..
  | cons x cs ih =>
    obtain ⟨rest, offset⟩ := h
    rw [rest]
    apply List.mem_cons_of_mem
    refine @ih ⟨c.offset + x.utf8Size, cs ++ d.rest⟩ ⟨rfl, ?_⟩
    rw [offset, utf8Length_cons, Nat.add_assoc]

/-- A pattern fails where the text does not start with one of its openers. -/
lemma Pattern.run_eq_none {p : Pattern} {cs : List Char} (ho : p.openers = some cs) {c : Cursor}
    (hc : ∀ x ∈ c.rest.head?, x ∉ cs) : p.run c = none := by
  cases hr : p.run c with
  | none => rfl
  | some d =>
    obtain ⟨⟨x, hx, xs, rest⟩, -⟩ := Pattern.opened ho hr
    exact absurd hx (hc x (by rw [rest]; rfl))

lemma Cursor.not_mem_marks {c : Cursor} (h : c.atMark = false) :
    ∀ x ∈ c.rest.head?, x ∉ Rule.marks := by
  intro x hx hm
  have at_ : c.atMark = true := by
    unfold atMark
    rw [Option.mem_def.mp hx]
    exact List.contains_iff_mem.mpr hm
  rw [h] at at_
  cases at_

/-- No construct starts where there is no mark. -/
lemma Rule.startsAt_of_not_atMark {c : Cursor} (h : c.atMark = false) (depth : Nat) :
    startsAt depth c = false := by
  have away := c.not_mem_marks h
  have hash : ∀ x ∈ c.rest.head?, x ∉ ['#'] := fun x hx hm =>
    away x hx (List.mem_singleton.mp hm ▸ List.mem_cons_self ..)
  have noEnd : blockEnd.run c = none := Pattern.run_eq_none rfl hash
  have noWord : (Pattern.lit "#" ++ keyword).run c = none := Pattern.run_eq_none rfl hash
  unfold startsAt
  rw [noEnd, noWord]
  refine List.any_eq_false.mpr fun r hr => ?_
  obtain ⟨hnode, hplain⟩ := List.mem_filter.mp hr
  rcases openers_nodes r hnode with rfl | ⟨cs, ho, hcs⟩
  · cases hplain
  · have fails : (body.matcher depth r).Fails c := by
      refine Matcher.Derived.fails (Grammar.derives_of_matcher body depth r) fun d ts hd => ?_
      obtain ⟨⟨x, hx, xs, rest⟩, -⟩ := hd.opened ho
      exact away x (by rw [rest]; rfl) (hcs x hx)
    rw [fails .none]
    exact Bool.false_ne_true

/-! ### How they are read -/

lemma IsPlain.startsAt_eq_false {text : List Char} (h : IsPlain text) {c : Cursor} (hc : c.In text)
    (hr : c.rest ≠ []) : Rule.startsAt (openRules text - 2) c = false := by
  by_cases hm : c.atMark
  · obtain ⟨front, hf⟩ := hc
    exact h c (Cursor.mem_places hf hr) hm
  · exact Rule.startsAt_of_not_atMark (Bool.eq_false_iff.mpr hm) _

/-- A tree of text: a run of it or a stray mark. -/
inductive Tree.Plain : Tree Rule → Prop
  | intro {r : Rule} (hr : r = .text ∨ r = .stray) (c d : Cursor) : Plain (.node r c d [])

namespace Rule

variable {depth : Nat} {c d : Cursor}

/-- The rules of constructs fail where none starts. -/
lemma fails_of_startsAt (h : startsAt depth c = false) :
    blockEnd.run c = none ∧ (Pattern.lit "#" ++ keyword).run c = none ∧
      ∀ r ∈ constructs, (body.matcher depth r).Fails c := by
  unfold startsAt at h
  obtain ⟨words, rules⟩ := Bool.or_eq_false_iff.mp h
  obtain ⟨noEnd, noWord⟩ := Bool.or_eq_false_iff.mp words
  refine ⟨by simpa using noEnd, by simpa using noWord, fun r hr => ?_⟩
  have failed := List.any_eq_false.mp rules r hr
  exact (Grammar.matcher_steady body depth r).fails (by simpa using failed)

lemma reads_word {r : Rule} {p : Pattern} (hb : body r = .word p) (hr : p.run c = some d) :
    (body.matcher (depth + 1) r).Reads c d [.node r c d []] := by
  unfold Grammar.matcher
  rw [hb]
  exact (Matcher.reads_token hr).rule r

lemma fails_word {r : Rule} {p : Pattern} (hb : body r = .word p) (hr : p.run c = none) :
    (body.matcher (depth + 1) r).Fails c := by
  unfold Grammar.matcher
  rw [hb]
  exact (Matcher.fails_token hr).rule r

/-- A rule with parts is read as its parts are, and fails where they do. -/
lemma reads_phrase {r : Rule} {g : Peg Rule} {ts : List (Tree Rule)} (hb : body r = .phrase g)
    (h : (g.matcher (body.matcher depth)).Reads c d ts) : (body.matcher (depth + 1) r).Reads c d [.node r c d ts] := by
  unfold Grammar.matcher
  rw [hb]
  exact h.rule r

lemma fails_phrase {r : Rule} {g : Peg Rule} (hb : body r = .phrase g) (h : (g.matcher (body.matcher depth)).Fails c) :
    (body.matcher (depth + 1) r).Fails c := by
  unfold Grammar.matcher
  rw [hb]
  exact h.rule r

/-- The marks of the grammar. -/
lemma exists_mark : ∃ special : Pattern, special.openers = some marks ∧
    (∀ c : Cursor, c.atMark → ∃ d, special.run c = some d) ∧
    body .text = .word (.several (.absent special ++ .any)) ∧
    body .stray = .word (.absent (.lit "#" ++ keyword) ++ special) := by
  refine ⟨.lit "#" <|> .lit "$" <|> .lit "\\", rfl, ?_, rfl, rfl⟩
  rintro ⟨offset, rest⟩ hm
  cases rest with
  | nil => cases hm
  | cons x xs =>
    have marked : x ∈ marks := List.contains_iff_mem.mp hm
    simp only [marks, List.mem_cons, List.not_mem_nil, or_false] at marked
    rcases marked with rfl | rfl | rfl
    · exact ⟨_, rfl⟩
    · exact ⟨_, rfl⟩
    · exact ⟨_, rfl⟩

/-- Where no construct starts, the text goes on with a run of text or with a stray mark. -/
lemma exists_plain (h : startsAt (depth + 1) c = false) (hr : c.rest ≠ []) :
    ∃ front r back d p, Rule.nodes = front ++ r :: back ∧ (r = .text ∨ r = .stray) ∧ body r = .word p ∧
      p.run c = some d ∧ ∀ q ∈ front, (body.matcher (depth + 1) q).Fails c := by
  obtain ⟨noEnd, noWord, fails⟩ := fails_of_startsAt h
  obtain ⟨special, opens, marked, htext, hstray⟩ := exists_mark
  by_cases hm : c.atMark
  · obtain ⟨d, hd⟩ := marked c hm
    have noText : (Pattern.several (.absent special ++ .any)).run c = none := by
      show (((Pattern.absent special).run c).bind _).bind _ = none
      simp [Pattern.run, hd]
    refine ⟨constructs ++ [.text], .stray, [], d, _, rfl, .inr rfl, hstray, ?_, ?_⟩
    · show ((Pattern.absent _).run c).bind _ = _
      simp [Pattern.run, noWord, hd]
    · intro q hq
      rcases List.mem_append.mp hq with hq | hq
      · exact fails q hq
      · obtain rfl := List.mem_singleton.mp hq
        exact fails_word htext noText
  · have away := c.not_mem_marks (Bool.eq_false_iff.mpr hm)
    have noMark : special.run c = none := Pattern.run_eq_none opens away
    obtain ⟨x, xs, hx⟩ := List.exists_cons_of_ne_nil hr
    have first : (Pattern.absent special ++ .any).run c = some ⟨c.offset + x.utf8Size, xs⟩ := by
      show ((Pattern.absent special).run c).bind _ = _
      simp [Pattern.run, noMark, Pattern.any, Cursor.next?, hx]
    obtain ⟨d, hd⟩ : ∃ d, (Pattern.several (.absent special ++ .any)).run c = some d := by
      show ∃ d, ((Pattern.absent special ++ .any).run c).bind _ = some d
      rw [first]
      exact ⟨_, rfl⟩
    exact ⟨constructs, .text, [.stray], d, _, rfl, .inl rfl, htext, hd, fails⟩

end Rule

variable {text : List Char}

/-- What is read from one place to a later one has a character. -/
lemma Cursor.Reaches.length_lt {c d : Cursor} {w : List Char} (h : c.Reaches d w) (hl : c.offset < d.offset) :
    d.rest.length < c.rest.length := by
  obtain ⟨rest, offset⟩ := h
  cases w with
  | nil =>
    rw [utf8Length_nil] at offset
    omega
  | cons x w =>
    rw [rest, List.length_append, List.length_cons]
    omega

/-- Where no construct starts, a node of text is read. -/
lemma Rule.reads_item {depth : Nat} {c : Cursor} (h : startsAt (depth + 1) c = false) (hr : c.rest ≠ []) :
    ∃ d t w, (item.matcher (body.matcher (depth + 1))).Reads c d [t] ∧ t.Plain ∧ c.Reaches d w ∧
      d.rest.length < c.rest.length := by
  obtain ⟨front, q, back, d, p, hsplit, hplain, hbody, hrun, hfront⟩ := exists_plain h hr
  have chosen : ((Peg.choice rawBlock nodes.tail).matcher (body.matcher (depth + 1))).Reads c d
      [.node q c d []] := Peg.reads_choice hsplit hfront (reads_word hbody hrun)
  have noEnd : (Pattern.absent blockEnd).run c = some c := by
    simp [Pattern.run, (fails_of_startsAt h).1]
  have node : q ∈ nodes := hsplit ▸ List.mem_append_right _ (List.mem_cons_self ..)
  obtain ⟨w, hw⟩ := Pattern.run_reaches hrun
  have shorter := hw.length_lt (nodes_advance node (.word hbody hrun))
  exact ⟨d, _, w, (Matcher.reads_token noEnd).seq chosen, .intro hplain c d, hw, shorter⟩

/-- At the end of the text no node is read. -/
lemma Rule.fails_item (depth : Nat) {c : Cursor} (hr : c.rest = []) :
    (item.matcher (body.matcher depth)).Fails c := by
  apply Matcher.Derived.fails (Peg.derived_matcher (Grammar.derives_of_matcher body depth) item)
  intro d ts hd
  obtain ⟨r, hnode, us, -, hrule⟩ := derives_item hd
  obtain ⟨w, hw⟩ := hrule.reaches
  have shorter := hw.length_lt (nodes_advance hnode hrule)
  rw [hr] at shorter
  exact absurd shorter (Nat.not_lt_zero _)

/-- A text is read as a template of the nodes that are read up to its end. -/
lemma readTree_of_read {depth : Nat} {d : Cursor} {ts : List (Tree Rule)} (hdepth : openRules text = depth + 2)
    (read : (Matcher.repeated (Rule.item.matcher (Rule.body.matcher depth)) text).Reads (.start text) d ts)
    (hend : d.rest = []) : readTree text = .ok (.node .template (.start text) d
      [.node .block (.start text) d ts, .node .ending d d []]) := by
  have htemplate : Rule.body .template = .phrase (.seq (.rule .block) (.rule .ending)) := rfl
  have block : (Rule.body.matcher (depth + 1) .block).Reads (.start text) d [.node .block (.start text) d ts] :=
    Rule.reads_phrase Rule.body_block read
  have ending : (Rule.body.matcher (depth + 1) .ending).Reads d d [.node .ending d d []] := by
    have nothing : Pattern.any.run d = none := Pattern.run_one_eq_none (by rw [hend]; exact fun _ h => by cases h)
    exact Rule.reads_word rfl (Pattern.run_absent nothing)
  have template : (Rule.body.matcher (depth + 2) .template).Reads (.start text) d
      [.node .template (.start text) d [.node .block (.start text) d ts, .node .ending d d []]] :=
    Rule.reads_phrase htemplate (block.seq ending)
  refine readTree_eq_ok_iff.mpr ⟨d, ?_⟩
  rw [hdepth]
  exact template .none

/-- A text that can be read on from every place before its end is read as a template, as a block of what is read
there. -/
lemma readTree_of_items {Kind : Tree Rule → Prop}
    (next : ∀ {c : Cursor} {depth : Nat}, c.In text → c.rest ≠ [] → openRules text = depth + 3 →
      ∃ d t w, (Rule.item.matcher (Rule.body.matcher (depth + 1))).Reads c d [t] ∧ Kind t ∧ c.Reaches d w ∧
        d.rest.length < c.rest.length) :
    ∃ d ts, readTree text = .ok (.node .template (.start text) d
      [.node .block (.start text) d ts, .node .ending d d []]) ∧ ∀ t ∈ ts, Kind t := by
  obtain ⟨depth, hdepth⟩ : ∃ depth, openRules text = depth + 3 :=
    ⟨8 * (text.length + 2) - 3, by unfold openRules; omega⟩
  have step {c : Cursor} (hc : c.In text) (hr : c.rest ≠ []) :
      ∃ d t, (Rule.item.matcher (Rule.body.matcher (depth + 1))).Reads c d [t] ∧ Kind t ∧ d.In text ∧
        d.rest.length < c.rest.length := by
    obtain ⟨d, t, w, read, kind, hw, shorter⟩ := next hc hr hdepth
    obtain ⟨front, hf⟩ := hc
    exact ⟨d, t, read, kind, ⟨front ++ w, hf.trans hw⟩, shorter⟩
  obtain ⟨d, ts, read, hend, kinds⟩ := Matcher.Reads.repeated step (Rule.fails_item (depth + 1))
    ⟨[], .refl (.start text)⟩ (Nat.le_refl text.length)
  exact ⟨d, ts, readTree_of_read hdepth read hend, kinds⟩

/-- A plain text is read as a template whose block has trees of text. -/
lemma readTree_of_plain (h : IsPlain text) :
    ∃ d ts, readTree text = .ok (.node .template (.start text) d
      [.node .block (.start text) d ts, .node .ending d d []]) ∧ ∀ t ∈ ts, t.Plain := by
  refine readTree_of_items fun {c depth} hc hr hdepth => ?_
  have absent := h.startsAt_eq_false hc hr
  rw [hdepth] at absent
  exact Rule.reads_item absent hr

/-! ### What they stand for -/

/-- Trees of text stand for nodes of text. -/
lemma Tree.exists_texts (site : Site) (inner : Site → List Char → Except Failure Block)
    {ts : List (Tree Rule)} (h : ∀ t ∈ ts, t.Plain) :
    ∃ parts b, Tree.evalAll (Rule.meaning site inner) ts = .ok parts ∧ parts.mapM Part.toNode = .ok b ∧
      ∀ n ∈ b, n.isText := by
  induction ts with
  | nil => exact ⟨[], [], rfl, rfl, nofun⟩
  | cons t ts ih =>
    obtain ⟨here, later⟩ := List.forall_mem_cons.mp h
    obtain ⟨parts, b, hparts, hb, texts⟩ := ih later
    cases here with
    | @intro r hr c d =>
      obtain ⟨s, hs⟩ : ∃ s, Rule.meaning site inner r c d [] = .ok (.node ⟨.text s, site.position c d⟩) := by
        rcases hr with rfl | rfl
        · exact ⟨_, rfl⟩
        · exact ⟨_, rfl⟩
      have first : eval (Rule.meaning site inner) (node r c d []) =
          .ok (.node ⟨.text s, site.position c d⟩) := hs
      refine ⟨.node ⟨.text s, site.position c d⟩ :: parts, ⟨.text s, site.position c d⟩ :: b, ?_, ?_,
        List.forall_mem_cons.mpr ⟨rfl, texts⟩⟩
      · rw [evalAll, first, hparts]
        rfl
      · rw [List.mapM_cons, hb]
        rfl

/-- A template tree over trees of text stands for a block of texts. -/
lemma Tree.eval_of_plain (site : Site) (inner : Site → List Char → Except Failure Block)
    {ts : List (Tree Rule)} (h : ∀ t ∈ ts, t.Plain) (c d : Cursor) :
    ∃ b, eval (Rule.meaning site inner) (.node .template c d [.node .block c d ts, .node .ending d d []]) =
      .ok (.block b) ∧ ∀ n ∈ b, n.isText := by
  obtain ⟨parts, b, hparts, hb, texts⟩ := exists_texts site inner h
  have block : eval (Rule.meaning site inner) (.node .block c d ts) = .ok (.block (joinTexts b)) := by
    rw [eval, hparts]
    show (parts.mapM Part.toNode).bind _ = _
    rw [hb]
    rfl
  refine ⟨joinTexts b, ?_, forall_joinTexts (fun _ _ => rfl) texts⟩
  rw [eval, evalAll, block]
  rfl

/-- A text in which no construct starts parses, and its nodes are texts. -/
theorem parse_of_plain {s : Source} (h : IsPlain s.text.toList) :
    ∃ b, parse s .none = .ok b ∧ ∀ n ∈ b, n.isText := by
  obtain ⟨d, ts, read, plain⟩ := readTree_of_plain h
  obtain ⟨b, meaning, texts⟩ := Tree.eval_of_plain (Site.ofSource s)
    (readBlock (stringDepth s.text.toList)) plain (.start s.text.toList) d
  exact ⟨b, parse_of_parseTree (parseTree_eq_ok_iff.mpr ⟨_, read, rfl, meaning⟩) .none, texts⟩

end Stencil
