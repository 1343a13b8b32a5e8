import Stencil.Proofs.Overlaps
import Stencil.Proofs.Reading.Making

/-!
# Where the texts of a template come from

Every node of text, in a block at any depth, was read as runs of text and stray marks. Main statement:
`Tree.exists_text`.
-/

namespace Stencil

/-! ### Texts -/

/-- Whether a block has a text over a span, among its nodes or in a block inside one of them. -/
inductive Block.TextAt (span : Span) : Block → Prop
  | here {b : Block} {s : String} {p : Position} : ⟨.text s, p⟩ ∈ b → p.span = span → TextAt span b
  | inside {b c : Block} {n : Node} : n ∈ b → c ∈ n.kind.subblocks → TextAt span c → TextAt span b

namespace Part

/-- The blocks directly in a part. -/
def blocks : Part → List Block
  | node n => n.kind.subblocks
  | block b => [b]
  | branch b => [b.body]
  | otherwise b => [b]
  | _ => []

def isText : Part → Bool
  | node n => n.isText
  | _ => false

/-- Whether a part is a text over a span or has one in a block. -/
def TextAt (span : Span) (part : Part) : Prop :=
  (∃ s p, part = .node ⟨.text s, p⟩ ∧ p.span = span) ∨ ∃ b ∈ part.blocks, b.TextAt span

variable {span : Span} {part : Part} {parts : List Part} {kind : NodeKind}

lemma not_textAt (hn : part.isText = false) (hb : part.blocks = []) : ¬part.TextAt span := by
  rintro (⟨s, p, rfl, -⟩ | ⟨b, mem, -⟩)
  · cases hn
  · rw [hb] at mem
    cases mem

/-- Whether a kind of node that is no text has its blocks from some parts. -/
structure Build (parts : List Part) (kind : NodeKind) : Prop where
  noText : ∀ s, kind ≠ .text s
  blocks : ∀ b ∈ kind.subblocks, ∃ p ∈ parts, b ∈ p.blocks

lemma mem_of_branches {b : Branch} (h : b ∈ branches parts) : branch b ∈ parts := by
  obtain ⟨part, hpart, h⟩ := List.mem_filterMap.mp h
  cases part with
  | branch b' => exact Option.some.inj h ▸ hpart
  | _ => cases h

lemma mem_of_otherwise {b : Block} (h : otherwise? parts = some b) : otherwise b ∈ parts := by
  have all : ∀ b ∈ otherwise? parts, otherwise b ∈ parts := by
    refine List.foldlRecOn (motive := fun found => ∀ b ∈ found, otherwise b ∈ parts) parts _ nofun
      fun found hf part hpart => ?_
    cases part with
    | otherwise b =>
      intro b' hb'
      exact Option.some.inj hb' ▸ hpart
    | _ => exact hf
  exact all b h

lemma build_conditional (h : Part.conditional parts = .ok kind) : Build parts kind := by
  unfold Part.conditional at h
  split at h
  · next c b rest =>
    cases h
    refine ⟨nofun, fun x hx => ?_⟩
    rcases List.mem_append.mp hx with hx | hx
    · obtain ⟨br, hbr, rfl⟩ := List.mem_map.mp hx
      rcases List.mem_cons.mp hbr with rfl | hbr
      · exact ⟨block b, by simp, List.mem_singleton_self _⟩
      · exact ⟨branch br, by simp [mem_of_branches hbr], List.mem_singleton_self _⟩
    · exact ⟨otherwise x, by simp [mem_of_otherwise (Option.mem_toList.mp hx)], List.mem_singleton_self _⟩
  · cases h

lemma build_loop (h : Part.loop parts = .ok kind) : Build parts kind := by
  unfold Part.loop at h
  split at h
  · next var e b rest =>
    cases h
    refine ⟨nofun, fun x hx => ?_⟩
    rcases List.mem_cons.mp hx with rfl | hx
    · exact ⟨block x, by simp, List.mem_singleton_self _⟩
    · exact ⟨otherwise x, by simp [mem_of_otherwise (Option.mem_toList.mp hx)], List.mem_singleton_self _⟩
  · cases h

lemma build_definition {site : Site} {p : Position} (h : Part.definition site p parts = .ok kind) :
    Build parts kind := by
  unfold Part.definition at h
  split at h
  · next name params b rest =>
    cases h
    exact ⟨nofun, List.forall_mem_singleton.mpr ⟨block b, by simp, List.mem_singleton_self _⟩⟩
  · cases h

lemma build_blockCall {literal : String} (h : Part.blockCall literal parts = .ok kind) :
    Build parts kind := by
  unfold Part.blockCall at h
  split at h
  · next name as b rest =>
    cases h
    exact ⟨nofun, List.forall_mem_singleton.mpr ⟨block b, by simp, List.mem_singleton_self _⟩⟩
  · cases h

end Part

/-! ### What matches have for texts -/

namespace Rule

variable {site : Site} {inner : Site → List Char → Except Failure Block} {r : Rule} {c d : Cursor} {parts : List Part}
  {part : Part} {span : Span}

/-- A text of a part that is no block is what was matched, or a text of one of its parts. -/
lemma textAt_of_meaning (hr : r ≠ .block) (h : r.meaning site inner c d parts = .ok part) (ht : part.TextAt span) :
    r ∈ texts ∧ span = (site.position c d).span ∨ ∃ p ∈ parts, p.TextAt span := by
  have wording {s : String} (ht : (Part.node ⟨.text s, site.position c d⟩).TextAt span) :
      span = (site.position c d).span := by
    rcases ht with ⟨_, _, same, rfl⟩ | ⟨_, mem, _⟩
    · cases same
      rfl
    · cases mem
  have built {build : Except Failure NodeKind} (hb : ∀ {kind}, build = .ok kind → Part.Build parts kind)
      (h : (build >>= fun kind => .ok (.node ⟨kind, site.position c d⟩)) = Except.ok part) :
      ∃ p ∈ parts, p.TextAt span := by
    obtain ⟨kind, hk, h⟩ := ok_of_bind h
    cases h
    obtain ⟨noText, blocks⟩ := hb hk
    rcases ht with ⟨s, _, same, -⟩ | ⟨b, mem, ht⟩
    · cases same
      exact absurd rfl (noText s)
    · obtain ⟨p, hp, hb⟩ := blocks b mem
      exact ⟨p, hp, .inr ⟨b, hb, ht⟩⟩
  cases r
  case block => exact absurd rfl hr
  case text | stray =>
    cases h
    exact .inl ⟨by decide, wording ht⟩
  case ending | elseHead | endMarker | quiet | opOr | opAnd | opEq | opNe | opLe | opGe | opLt | opGt | opAdd | opSub |
      opMul | opDiv | opMod | opNot | opNeg | rawContent | macroName | ident | dqInner | sqInner | lineComment |
      blockComment | escaped | stopDirective | bareWord | boolean | nullLit =>
    cases h
    exact absurd ht (Part.not_textAt rfl rfl)
  case unterminated => cases h
  case ifHead | elseifHead | parseDirective | includeDirective | evaluateDirective | macroArgs | positionalArg | expr |
      list | map | index | reference =>
    obtain ⟨_, -, h⟩ := ok_of_bind h
    cases h
    exact absurd ht (Part.not_textAt rfl rfl)
  case blockCallHead | macroCall | formal =>
    obtain ⟨⟨_, _⟩, -, h⟩ := ok_of_bind h
    cases h
    exact absurd ht (Part.not_textAt rfl rfl)
  case rawBlock | loopVar | breakDirective | sqString | number | property =>
    simp only [meaning] at h
    split at h <;> cases h <;> exact absurd ht (Part.not_textAt rfl rfl)
  case foreachHead | macroHead | namedArg | dqString | methodCall =>
    simp only [meaning] at h
    split at h
    · obtain ⟨_, -, h⟩ := ok_of_bind h
      cases h
      exact absurd ht (Part.not_textAt rfl rfl)
    · cases h
  case range | mapEntry =>
    simp only [meaning] at h
    split at h
    · obtain ⟨_, -, h⟩ := ok_of_bind h
      obtain ⟨_, -, h⟩ := ok_of_bind h
      cases h
      exact absurd ht (Part.not_textAt rfl rfl)
    · cases h
  case macroParam =>
    simp only [meaning, Part.parameter] at h
    split at h
    · cases h
      exact absurd ht (Part.not_textAt rfl rfl)
    · obtain ⟨_, -, h⟩ := ok_of_bind h
      cases h
      exact absurd ht (Part.not_textAt rfl rfl)
    · cases h
  case setDirective =>
    obtain ⟨kind, hk, h⟩ := ok_of_bind h
    cases h
    unfold Part.assignment at hk
    split at hk
    · obtain ⟨_, -, hk⟩ := ok_of_bind hk
      cases hk
      exact absurd ht (Part.not_textAt rfl rfl)
    · cases hk
  case template =>
    simp only [meaning] at h
    split at h
    · cases h
      exact .inr ⟨_, List.mem_cons_self .., ht⟩
    · cases h
  case elseifBranch =>
    simp only [meaning] at h
    split at h
    · next condition b =>
      cases h
      rcases ht with ⟨_, _, same, -⟩ | ⟨x, mem, ht⟩
      · cases same
      · exact .inr ⟨.block b, by simp, .inr ⟨x, mem, ht⟩⟩
    · cases h
  case elseBranch =>
    simp only [meaning] at h
    split at h
    · next b =>
      cases h
      rcases ht with ⟨_, _, same, -⟩ | ⟨x, mem, ht⟩
      · cases same
      · exact .inr ⟨.block b, by simp, .inr ⟨x, mem, ht⟩⟩
    · cases h
  case ifDirective => exact .inr (built Part.build_conditional h)
  case foreachDirective => exact .inr (built Part.build_loop h)
  case macroDirective => exact .inr (built Part.build_definition h)
  case blockMacroCall => exact .inr (built Part.build_blockCall h)

end Rule

/-! ### Texts that are joined -/

/-- Texts that are joined touch, and make one text. -/
lemma Node.of_join? {m n k : Node} (h : m.join? n = some k) : m.isText = true ∧ n.isText = true ∧
    m.position.span.stop = n.position.span.start ∧
      k.position.span = ⟨m.position.span.start, n.position.span.stop⟩ := by
  obtain ⟨mk, mp⟩ := m
  obtain ⟨nk, np⟩ := n
  unfold join? at h
  split at h
  · next ms ns hm hn =>
    dsimp only at hm hn
    subst hm hn
    split at h
    · next touch =>
      cases h
      exact ⟨rfl, rfl, touch, rfl⟩
    · cases h
  · cases h

/-- Whether a node, if it is text, is one of the texts of a block at every place, up to where that ends. -/
def Node.JoinedFrom (b : Block) (m : Node) : Prop :=
  m.isText = true → ∀ offset, m.position.span.start ≤ offset → offset < m.position.span.stop →
    ∃ n ∈ b, n.isText = true ∧ n.position.span.start ≤ offset ∧ offset < n.position.span.stop ∧
      n.position.span.stop ≤ m.position.span.stop

lemma Node.JoinedFrom.cons {b : Block} {m : Node} (h : m.JoinedFrom b) (n : Node) : m.JoinedFrom (n :: b) := by
  intro text offset lo hi
  obtain ⟨k, hk, found⟩ := h text offset lo hi
  exact ⟨k, List.mem_cons_of_mem _ hk, found⟩

/-- What is joined is joined from the texts that were there. -/
lemma Block.joinedFrom_joinTexts {b : Block} (hb : ∀ n ∈ b, n.position.span.start ≤ n.position.span.stop) :
    ∀ m ∈ joinTexts b, m.position.span.start ≤ m.position.span.stop ∧ m.JoinedFrom b := by
  induction b with
  | nil => exact nofun
  | cons n b ih =>
    obtain ⟨here, later⟩ := List.forall_mem_cons.mp hb
    have rest : ∀ m ∈ joinTexts b, m.position.span.start ≤ m.position.span.stop ∧ m.JoinedFrom (n :: b) :=
      fun m hm => ⟨(ih later m hm).1, (ih later m hm).2.cons n⟩
    have first : n.JoinedFrom (n :: b) :=
      fun text offset lo hi => ⟨n, List.mem_cons_self .., text, lo, hi, Nat.le_refl _⟩
    unfold joinTexts
    cases hj : joinTexts b with
    | nil => exact List.forall_mem_singleton.mpr ⟨here, first⟩
    | cons m ms =>
      rw [hj] at rest
      obtain ⟨⟨ordered, joined⟩, others⟩ := List.forall_mem_cons.mp rest
      dsimp only
      split
      · next k hk =>
        obtain ⟨nText, mText, touch, span⟩ := Node.of_join? hk
        refine List.forall_mem_cons.mpr ⟨⟨?_, fun _ offset lo hi => ?_⟩, others⟩
        · rw [span]
          dsimp only
          omega
        · rw [span] at lo hi ⊢
          dsimp only at lo hi ⊢
          by_cases early : offset < n.position.span.stop
          · exact ⟨n, List.mem_cons_self .., nText, lo, early, by omega⟩
          · exact joined mText offset (by omega) hi
      · exact List.forall_mem_cons.mpr ⟨⟨here, first⟩, rest⟩

/-- What is no text is not changed when texts are joined. -/
lemma Block.mem_of_mem_joinTexts {b : Block} {m : Node} (hm : m ∈ joinTexts b) (text : m.isText = false) : m ∈ b := by
  have all : ∀ m ∈ joinTexts b, m.isText = true ∨ m ∈ b :=
    forall_joinTexts (fun _ _ => .inl rfl) fun n hn => .inr hn
  rcases all m hm with h | h
  · rw [text] at h
    cases h
  · exact h

/-! ### Where texts come from -/

section

variable {cs : List Char} {t : Tree Rule} {site : Site} {inner : Site → List Char → Except Failure Block}

lemma Site.span_of_origins (hs : site.origins = none) (c d : Cursor) :
    (site.position c d).span = ⟨c.offset, d.offset⟩ := by
  rw [Site.span_position]
  unfold Site.absolute
  rw [hs]

lemma Part.eq_node_of_toNode {part : Part} {n : Node} (h : part.toNode = .ok n) :
    part = .node n ∨ ∃ r, n.kind = .reference r := by
  cases part with
  | node m =>
    cases h
    exact .inl rfl
  | reference r =>
    cases h
    exact .inr ⟨r, rfl⟩
  | _ => cases h

/-- The nodes of a block start before they end. -/
lemma Tree.Holds.ordered {c d : Cursor} {ts : List (Tree Rule)} (ht : readTree cs = .ok t)
    (hu : t.Holds (.node .block c d ts)) (hs : site.origins = none) {parts : List Part}
    (hparts : Tree.evalAll (Rule.meaning site inner) ts = .ok parts) {b : Block} (hb : parts.mapM Part.toNode = .ok b) :
    ∀ n ∈ b, n.position.span.start ≤ n.position.span.stop := by
  intro n hn
  obtain ⟨q, hq, made⟩ := mem_of_mapM hb hn
  obtain ⟨⟨r, c', d', us⟩, hw, eval⟩ := mem_of_mapM ((Tree.evalAll_eq_mapM _ ts).symm.trans hparts) hq
  rw [Tree.eval] at eval
  obtain ⟨_, -, meaning⟩ := ok_of_bind eval
  have node : r ∈ Rule.nodes := by
    rcases hu.children ht with none | ⟨g, hg, derived⟩
    · obtain rfl : ts = [] := none
      cases hw
    · have filled : Slot.FillsOne (fun r (t : Tree Rule) => t.rule = r) g.rows ts := Tree.fillsOne_of_derives derived
      rw [@Rule.rows_of_body .block g hg] at filled
      obtain ⟨s, hs, rfl⟩ := filled.mem _ hw
      have mem : (Tree.node r c' d' us).rule ∈ Rule.nodes := by simpa [Rule.rows, Slot.rules] using hs
      exact mem
  rw [Rule.position_of_meaning node meaning made, Site.span_of_origins hs]
  obtain ⟨-, derived⟩ := (hu.trans (.child hw .self)).derived ht
  obtain ⟨_, reaches⟩ := derived.reaches
  exact reaches.offset_le

/-- Whatever text there is in what a part stands for was read as text: at every place of it there is a run of text or a
stray mark, which ends where the text does or sooner. -/
theorem Tree.exists_text (ht : readTree cs = .ok t) (hs : site.origins = none) {offset : Nat} :
    ∀ (u : Tree Rule) {part : Part} {span : Span}, t.Holds u → u.eval (Rule.meaning site inner) = .ok part →
      part.TextAt span → span.start ≤ offset → offset < span.stop →
      ∃ v, t.Holds v ∧ v.rule ∈ Rule.texts ∧ v.start.offset ≤ offset ∧ offset < v.stop.offset ∧
        v.stop.offset ≤ span.stop
  | .node r c d ts, part, span, hu, he, htext, lo, hi => by
    rw [eval] at he
    obtain ⟨parts, hparts, hm⟩ := ok_of_bind he
    have within {p : Part} (hp : p ∈ parts) {span : Span} (htext : p.TextAt span) (lo : span.start ≤ offset)
        (hi : offset < span.stop) : ∃ v, t.Holds v ∧ v.rule ∈ Rule.texts ∧ v.start.offset ≤ offset ∧
          offset < v.stop.offset ∧ v.stop.offset ≤ span.stop := by
      obtain ⟨w, hw, eval⟩ := mem_of_mapM ((evalAll_eq_mapM _ ts).symm.trans hparts) hp
      exact Tree.exists_text ht hs w (hu.trans (.child hw .self)) eval htext lo hi
    by_cases hr : r = .block
    · subst hr
      obtain ⟨b, hb, hm⟩ := ok_of_bind hm
      cases hm
      rcases htext with ⟨_, _, same, -⟩ | ⟨x, hx, htext⟩
      · cases same
      obtain rfl := List.mem_singleton.mp hx
      cases htext with
      | @here _ s p hn span =>
        subst span
        -- The text is joined from texts that were read; the one at the place is a match of its own.
        obtain ⟨-, joined⟩ := Block.joinedFrom_joinTexts (hu.ordered ht hs hparts hb) _ hn
        obtain ⟨n, hn, text, lo, hi, le⟩ := joined rfl offset lo hi
        obtain ⟨q, hq, made⟩ := mem_of_mapM hb hn
        obtain ⟨s', p', rfl⟩ := Node.exists_text text
        rcases Part.eq_node_of_toNode made with rfl | ⟨_, other⟩
        · obtain ⟨v, hv, rule, lo, hi, le'⟩ := within hq (.inl ⟨s', p', rfl, rfl⟩) lo hi
          exact ⟨v, hv, rule, lo, hi, Nat.le_trans le' le⟩
        · cases other
      | @inside _ y n hn hy htext =>
        have noText : n.isText = false := by
          by_contra text
          obtain ⟨s, p, rfl⟩ := Node.exists_text (Bool.not_eq_false _ ▸ text)
          cases hy
        obtain ⟨q, hq, made⟩ := mem_of_mapM hb (Block.mem_of_mem_joinTexts hn noText)
        rcases Part.eq_node_of_toNode made with rfl | ⟨_, other⟩
        · exact within hq (.inr ⟨y, hy, htext⟩) lo hi
        · rw [other] at hy
          cases hy
    · rcases Rule.textAt_of_meaning hr hm htext with ⟨rule, rfl⟩ | ⟨p, hp, htext⟩
      · rw [Site.span_of_origins hs] at lo hi ⊢
        exact ⟨_, hu, rule, lo, hi, Nat.le_refl _⟩
      · exact within hp htext lo hi

end

/-- Every text of a template that is not gobbled was read as text. -/
theorem exists_text_of_parseTree {s : Source} {b : Block} {spans : MarkerSpans} {t : Tree Rule}
    (h : parseTree s = .ok (b, spans)) (ht : readTree s.text.toList = .ok t) {span : Span} (htext : b.TextAt span)
    {offset : Nat} (lo : span.start ≤ offset) (hi : offset < span.stop) :
    ∃ v, t.Holds v ∧ v.rule ∈ Rule.texts ∧ v.start.offset ≤ offset ∧ offset < v.stop.offset ∧
      v.stop.offset ≤ span.stop := by
  obtain ⟨u, read, -, meant⟩ := parseTree_eq_ok_iff.mp h
  obtain rfl : t = u := Except.ok.inj (ht.symm.trans read)
  exact Tree.exists_text ht rfl t .self meant (.inr ⟨b, List.mem_singleton_self _, htext⟩) lo hi

end Stencil
