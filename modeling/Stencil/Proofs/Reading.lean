import Stencil.Parse
import Stencil.Proofs.Reading.Meaning
import Stencil.Proofs.Reading.Nodes

/-!
# Reading loses nothing

A template that is read without gobbling is a block whose nodes tile its text, and so on in the blocks inside
of the nodes; what nodes and references keep of their text is their text. Main statement: `parse_fills`.
-/

namespace Stencil

variable {site : Site} {inner : Site → List Char → Except Failure Block} {quoted : Bool}
  {text w : List Char} {c d e : Cursor} {ts us : List (Tree Rule)} {parts : List Part}

/-! ### The nodes of a block -/

lemma Part.position_of_referenceOf {literal : String} {p : Position} {r : Reference}
    (h : Part.referenceOf literal p parts = .ok r) : r.position = p := by
  unfold Part.referenceOf at h
  split at h
  obtain ⟨⟨root, segments⟩, -, h⟩ := ok_of_bind h
  cases h
  rfl

/-- The position of a node is that of its match. -/
lemma Rule.position_of_meaning {r : Rule} (hr : r ∈ Rule.nodes) {part : Part} {n : Node}
    (h : r.meaning site inner c d parts = .ok part) (hn : part.toNode = .ok n) :
    n.position = site.position c d := by
  have made {kind : NodeKind} (h : .ok (.node ⟨kind, site.position c d⟩) = (.ok part : Except Failure Part)) :
      n.position = site.position c d := by
    cases h
    cases hn
    rfl
  have computed {α : Type} {m : Except Failure α} {kind : α → NodeKind}
      (h : (m >>= fun x => .ok (.node ⟨kind x, site.position c d⟩)) = (.ok part : Except Failure Part)) :
      n.position = site.position c d := by
    obtain ⟨x, -, h⟩ := ok_of_bind h
    exact made h
  simp only [Rule.nodes, List.mem_cons, List.not_mem_nil, or_false] at hr
  rcases hr with rfl | rfl | rfl | rfl | rfl | rfl | rfl | rfl | rfl | rfl | rfl | rfl | rfl | rfl | rfl |
    rfl | rfl | rfl | rfl
  -- a raw text, comments and an escape
  · simp only [meaning] at h
    split at h
    · exact made h
    · cases h
  · exact made h
  · exact made h
  · cases h
  · exact made h
  -- directives
  · exact computed h
  · exact computed h
  · exact computed h
  · exact computed h
  · exact computed h
  · exact computed h
  · exact computed h
  · exact made h
  · simp only [meaning] at h
    split at h
    · exact made h
    · exact made h
  -- macro calls
  · exact computed h
  · exact computed h
  -- references and texts
  · obtain ⟨r, hr, h⟩ := ok_of_bind h
    cases h
    cases hn
    exact Part.position_of_referenceOf hr
  · exact made h
  · exact made h

/-! ### Trees and their parts -/

/-- The nodes that are read lie one after the other. -/
lemma Block.tiles_of_many (hd : Peg.Derives Rule.body (.many Rule.item) c d ts)
    (hs : ∀ {a b}, a < b → b ≤ d.offset → site.absolute a < site.absolute b)
    (hp : Tree.evalAll (Rule.meaning site inner) ts = .ok parts) {b : Block}
    (hb : parts.mapM Part.toNode = .ok b) : b.Tiles (site.absolute c.offset) (site.absolute d.offset) := by
  refine (hd.rounds (P := fun c ts => c.offset ≤ d.offset ∧ ∀ {parts : List Part} {b : Block},
    Tree.evalAll (Rule.meaning site inner) ts = .ok parts → parts.mapM Part.toNode = .ok b →
      b.Tiles (site.absolute c.offset) (site.absolute d.offset)) ⟨Nat.le_refl _, fun hp hb => ?_⟩ ?_).2 hp hb
  · cases hp
    cases hb
    exact .nil _
  · rintro c e us ts hone ⟨le, others⟩
    obtain ⟨r, hr, vs, rfl, hrule⟩ := Rule.derives_item hone
    have behind := Rule.nodes_advance hr hrule
    refine ⟨Nat.le_trans (Nat.le_of_lt behind) le, fun hp hb => ?_⟩
    obtain ⟨ps, qs, hps, hqs, rfl⟩ := Tree.evalAll_append _ hp
    obtain ⟨_, part, -, hpart, rfl⟩ := Tree.evalAll_single _ hps
    rw [List.cons_append, List.nil_append, List.mapM_cons] at hb
    obtain ⟨n, hn, hb⟩ := ok_of_bind hb
    obtain ⟨rest, hrest, hb⟩ := ok_of_bind hb
    cases hb
    have span := congrArg Position.span (Rule.position_of_meaning hr hpart hn)
    rw [Site.span_position] at span
    have start : site.absolute c.offset = n.position.span.start := by rw [span]
    have stop : site.absolute e.offset = n.position.span.stop := by rw [span]
    have advance := hs behind le
    have tiles := others hqs hrest
    rw [start, stop] at advance
    rw [stop] at tiles
    rw [start]
    exact .cons advance tiles

/-! ### Raw texts and escapes -/

/-- A raw text is its content between its delimiters. -/
lemma Rule.reads_rawBlock (hd : Peg.Derives Rule.body (.rule .rawBlock) c d [.node .rawBlock c d ts])
    (hp : Tree.evalAll (Rule.meaning site inner) ts = .ok parts) :
    ∃ content start, parts = [.word content start] ∧
      c.Reaches d ("#[[".toList ++ content ++ "]]#".toList) := by
  have hbody : Rule.body .rawBlock = .phrase (.seq (.seq (.token (.lit "#[["))
      (.rule .rawContent)) (.token (.lit "]]#"))) := rfl
  obtain ⟨us, hus, hd⟩ := hd.of_phrase hbody
  cases hus
  cases hd with
  | seq hfront hlast =>
    cases hfront with
    | seq hfirst hcontent =>
      cases hfirst with
      | token hopen =>
        cases hlast with
        | token hclose =>
          obtain ⟨p, hbody⟩ : ∃ p, Rule.body .rawContent = .word p := ⟨_, rfl⟩
          obtain ⟨hrun, rfl⟩ := hcontent.of_word hbody
          obtain ⟨_, part, -, hpart, rfl⟩ := Tree.evalAll_single _ hp
          cases hpart
          obtain ⟨content, hcontent⟩ := Pattern.run_reaches hrun
          refine ⟨_, _, rfl, ?_⟩
          rw [hcontent.upTo_eq]
          exact ((Cursor.word?_reaches hopen).trans hcontent).trans (Cursor.word?_reaches hclose)

/-- An escape starts with a backslash. -/
lemma Rule.reads_escaped (hd : Peg.Derives Rule.body (.rule .escaped) c d ts) :
    ∃ w, c.Reaches d ('\\' :: w) := by
  obtain ⟨p, hp⟩ : ∃ p, Rule.body .escaped = .word (.seq (.lit "\\") p) := ⟨_, rfl⟩
  obtain ⟨hrun, -⟩ := hd.of_word hp
  obtain ⟨e, he, hrest⟩ := Option.bind_eq_some_iff.mp hrun
  obtain ⟨w, hw⟩ := Pattern.run_reaches hrest
  exact ⟨w, (Cursor.word?_reaches he).trans hw⟩

/-! ### Matches -/

/-- What the match of a rule stands for is faithful when its parts are. -/
lemma Part.faithful_of_rule (hi : ReadsFaithfully site.chars inner) {r : Rule}
    (hd : Peg.Derives Rule.body (.rule r) c d [.node r c d ts]) (hread : site.Read quoted text c d w)
    (hp : Tree.evalAll (Rule.meaning site inner) ts = .ok parts)
    (hf : Part.AllFaithful site quoted text (site.position c d).span parts) {part : Part}
    (hm : r.meaning site inner c d parts = .ok part) :
    part.Faithful site quoted text (site.position c d).span := by
  by_cases hblock : r = .block
  · subst hblock
    obtain ⟨b, hb, hm⟩ := ok_of_bind hm
    cases hm
    obtain ⟨us, hus, hmany⟩ := hd.of_phrase Rule.body_block
    cases hus
    obtain ⟨front, ht, -, hstop⟩ := hread.parts
    have strict {a b : Nat} (hab : a < b) (hbd : b ≤ d.offset) : site.absolute a < site.absolute b := by
      apply hread.regular.strict hab
      rw [ht, utf8Length_append, ← hstop]
      exact Nat.le_trans hbd (Nat.le_add_right _ _)
    have tiles := Block.tiles_of_many hmany strict hp hb
    have nodes : ∀ n ∈ b, Node.Faithful site.chars quoted n := by
      intro n hn
      obtain ⟨part, hpart, h⟩ := mem_of_mapM hb hn
      exact (hf part hpart).toNode h
    exact (tiles.joinTexts nodes).faithful
  by_cases hraw : r = .rawBlock
  · subst hraw
    obtain ⟨content, start, rfl, hreach⟩ := Rule.reads_rawBlock hd hp
    cases hm
    refine ⟨.refl _, NodeKind.Faithful.node ⟨nofun, nofun, nofun⟩ fun hq => ?_⟩
    have literal : (site.position c d).span.Spells site.chars
        ("#[[".toList ++ (String.ofList content).toList ++ "]]#".toList) := by
      rw [@String.toList_ofList content]
      exact Site.Read.spells ⟨hread.regular, hread.before, hreach⟩ hq
    exact literal
  by_cases hescaped : r = .escaped
  · subst hescaped
    obtain ⟨w, hreach⟩ := Rule.reads_escaped hd
    cases hm
    refine ⟨.refl _, NodeKind.Faithful.node ⟨nofun, nofun, nofun⟩ fun hq => ?_⟩
    have literal : (site.position c d).span.Spells site.chars
        ('\\' :: (String.ofList (c.upTo d).tail).toList) := by
      rw [String.toList_ofList, hreach.upTo_eq]
      exact Site.Read.spells ⟨hread.regular, hread.before, hreach⟩ hq
    exact literal
  exact Rule.faithful_meaning hi ⟨hblock, hraw, hescaped⟩ hread hf hm

/-- Whether the trees that were read between two places of a text stand for what lies between them. -/
def Part.Stand (site : Site) (inner : Site → List Char → Except Failure Block) (quoted : Bool)
    (text : List Char) (c d : Cursor) (ts : List (Tree Rule)) : Prop :=
  (∃ front, (Cursor.start text).Reaches c front) → ∀ parts,
    Tree.evalAll (Rule.meaning site inner) ts = .ok parts →
    Part.AllFaithful site quoted text (site.position c d).span parts

lemma Part.stand_nil (c d : Cursor) : Part.Stand site inner quoted text c d [] := by
  intro _ parts hp
  cases hp
  exact List.forall_mem_nil _

lemma Part.stand_append (hr : site.Regular quoted text) {v : List Char} (hw : c.Reaches d w)
    (hv : d.Reaches e v) (ht : Part.Stand site inner quoted text c d ts)
    (hu : Part.Stand site inner quoted text d e us) : Part.Stand site inner quoted text c e (ts ++ us) := by
  rintro ⟨front, hf⟩ parts hp
  obtain ⟨ps, qs, hps, hqs, rfl⟩ := Tree.evalAll_append _ hp
  obtain ⟨start, htext, -, hstop⟩ := Site.Read.parts ⟨hr, ⟨front, hf⟩, hw.trans hv⟩
  have within : e.offset ≤ utf8Length text := by
    rw [htext, utf8Length_append, hstop]
    exact Nat.le_add_right _ _
  have lower := hr.absolute_le hw.offset_le (Nat.le_trans hv.offset_le within)
  have upper := hr.absolute_le hv.offset_le within
  intro q hq
  rcases List.mem_append.mp hq with hq | hq
  · exact (ht ⟨front, hf⟩ ps hps q hq).mono ⟨Nat.le_refl _, upper⟩
  · exact (hu ⟨front ++ w, hf.trans hw⟩ qs hqs q hq).mono ⟨lower, Nat.le_refl _⟩

lemma Part.stand_rule (hi : ReadsFaithfully site.chars inner) (hr : site.Regular quoted text) {r : Rule}
    (hd : Peg.Derives Rule.body (.rule r) c d [.node r c d ts])
    (ht : Part.Stand site inner quoted text c d ts) :
    Part.Stand site inner quoted text c d [.node r c d ts] := by
  intro hb parts hp
  obtain ⟨ps, part, hps, hm, rfl⟩ := Tree.evalAll_single _ hp
  obtain ⟨w, hw⟩ := hd.reaches
  intro q hq
  obtain rfl := List.mem_singleton.mp hq
  exact Part.faithful_of_rule hi hd ⟨hr, hb, hw⟩ hps (ht hb ps hps) hm

/-- What a match stands for is faithful to its text. -/
theorem Part.stand_of_derives (hi : ReadsFaithfully site.chars inner) (hr : site.Regular quoted text)
    {g : Peg Rule} (hd : Peg.Derives Rule.body g c d ts) : Part.Stand site inner quoted text c d ts := by
  induction hd with
  | token _ => exact Part.stand_nil _ _
  | seq hg hh ihg ihh =>
    obtain ⟨w, hw⟩ := hg.reaches
    obtain ⟨v, hv⟩ := hh.reaches
    exact Part.stand_append hr hw hv ihg ihh
  | left _ ih => exact ih
  | right _ ih => exact ih
  | done => exact Part.stand_nil _ _
  | more hg hh ihg ihh =>
    obtain ⟨w, hw⟩ := hg.reaches
    obtain ⟨v, hv⟩ := hh.reaches
    exact Part.stand_append hr hw hv ihg ihh
  | skipped => exact Part.stand_nil _ _
  | taken _ ih => exact ih
  | word hw hrun => exact Part.stand_rule hi hr (.word hw hrun) (Part.stand_nil _ _)
  | phrase hg hd ih => exact Part.stand_rule hi hr (.phrase hg hd) ih

/-! ### Whole texts -/

/-- A text is read as one tree, of a block and the end of the text. -/
lemma derives_of_readTree {t : Tree Rule} (ht : readTree text = .ok t) :
    ∃ d us v, t = .node .template (.start text) d [.node .block (.start text) d us, v] ∧
      Peg.Derives Rule.body (.rule .block) (.start text) d [.node .block (.start text) d us] ∧
      d.rest = [] := by
  obtain ⟨d, derived⟩ := exists_derives_of_readTree ht
  have htemplate : Rule.body .template = .phrase (.seq (.rule .block) (.rule .ending)) := rfl
  have hending : Rule.body .ending = .word .ending := rfl
  obtain ⟨us, hus, hparts⟩ := derived.of_phrase htemplate
  cases hus
  cases hparts with
  | seq hfirst hlast =>
    obtain ⟨vs, rfl, -⟩ := hfirst.of_phrase Rule.body_block
    obtain ⟨hrun, rfl⟩ := hlast.of_word hending
    obtain rfl := Pattern.eq_of_run_absent hrun
    exact ⟨_, vs, _, rfl, hfirst, Pattern.rest_of_run_ending hrun⟩

/-- The block of a template fills its text. -/
lemma fills_of_eval (hi : ReadsFaithfully site.chars inner) (hr : site.Regular quoted text)
    {t : Tree Rule} (ht : readTree text = .ok t) {b : Block}
    (hb : t.eval (Rule.meaning site inner) = .ok (.block b)) :
    b.Fills site.chars quoted (site.absolute 0) (site.absolute (utf8Length text)) := by
  obtain ⟨d, us, v, rfl, hd, hend⟩ := derives_of_readTree ht
  obtain ⟨us', hus, hmany⟩ := hd.of_phrase Rule.body_block
  cases hus
  have whole : d.offset = utf8Length text := by
    obtain ⟨w, hw, ho⟩ := hd.reaches
    rw [hend, List.append_nil] at hw
    rw [ho, ← hw]
    exact Nat.zero_add _
  have strict {a b : Nat} (hab : a < b) (hbd : b ≤ d.offset) : site.absolute a < site.absolute b :=
    hr.strict hab (whole ▸ hbd)
  -- The tree of the template answers what its first part, the block, stands for.
  rw [Tree.eval] at hb
  obtain ⟨parts, hparts, hb⟩ := ok_of_bind hb
  obtain ⟨part, rest, hpart, -, rfl⟩ := Tree.exists_of_evalAll_cons hparts
  rw [Tree.eval] at hpart
  obtain ⟨ps, hps, hpart⟩ := ok_of_bind hpart
  obtain ⟨nodes, hn, hpart⟩ := ok_of_bind hpart
  cases hpart
  cases hb
  have tiles := Block.tiles_of_many hmany strict hps hn
  rw [whole] at tiles
  refine tiles.joinTexts fun n hm => ?_
  obtain ⟨q, hq, h⟩ := mem_of_mapM hn hm
  exact (Part.stand_of_derives hi hr hmany ⟨[], .refl _⟩ ps hps q hq).toNode h

/-- What is read from the content of a string fills it, however deep strings are nested. -/
lemma readsFaithfully_readBlock (cs : List Char) (depth : Nat) : ReadsFaithfully cs (readBlock depth) := by
  induction depth with
  | zero =>
    intro site quoted text b _ _ h
    cases h
  | succ depth ih =>
    intro site quoted text b hc hr h
    subst hc
    obtain ⟨t, read, meant⟩ := readBlock_eq_ok_iff.mp h
    exact fills_of_eval ih hr read meant

lemma Site.regular_ofSource (s : Source) : (Site.ofSource s).Regular false s.text.toList :=
  ⟨fun hab _ => hab, fun _ => ⟨rfl, rfl⟩⟩

lemma utf8Length_toList (s : String) : utf8Length s.toList = s.utf8ByteSize := by
  have length (cs : List Char) : utf8Length cs = (String.ofList cs).utf8ByteSize := by
    induction cs with
    | nil => rfl
    | cons c cs ih =>
      rw [utf8Length_cons, ih, String.ofList_cons, String.utf8ByteSize_append, String.utf8ByteSize_singleton]
  rw [length, String.ofList_toList]

/-- The block of a text that parses without gobbling fills the text. -/
lemma fills_of_parseTree {s : Source} {b : Block} {spans : MarkerSpans}
    (h : parseTree s = .ok (b, spans)) :
    b.Fills s.text.toList false 0 s.text.utf8ByteSize := by
  rw [← utf8Length_toList]
  obtain ⟨t, read, -, meant⟩ := parseTree_eq_ok_iff.mp h
  exact fills_of_eval (readsFaithfully_readBlock _ _) (Site.regular_ofSource s) read meant

lemma parseTree_of_parse {s : Source} {b : Block} (h : parse s .none = .ok b) :
    ∃ spans, parseTree s = .ok (b, spans) := by
  obtain ⟨root, spans, read, rfl⟩ := parse_eq_ok_iff.mp h
  exact ⟨spans, read⟩

/-- A template that parses without gobbling is a block that fills its text, from the first byte to the last:
its nodes tile it, with no two texts side by side, and all of them, and all that is in them, stand for their
text. -/
theorem parse_fills {s : Source} {b : Block} (h : parse s .none = .ok b) :
    b.Fills s.text.toList false 0 s.text.utf8ByteSize := by
  obtain ⟨spans, ht⟩ := parseTree_of_parse h
  exact fills_of_parseTree ht

/-- A template with blocks in blocks, a string with a reference in it, a raw text and an escape. -/
theorem parse_fills_nested : ∃ b,
    parse ⟨"t", "a$x#if($y)b#else#set($z=\"c$x\")#[[d]]#\\$e#end"⟩ .none = .ok b ∧
      b.Fills "a$x#if($y)b#else#set($z=\"c$x\")#[[d]]#\\$e#end".toList false 0 44 := by
  have parses : (match parse ⟨"t", "a$x#if($y)b#else#set($z=\"c$x\")#[[d]]#\\$e#end"⟩ .none with
      | .ok _ => true
      | .error _ => false) = true := by
    decide +kernel
  split at parses
  · next b hb => exact ⟨b, hb, parse_fills hb⟩
  · cases parses

end Stencil
