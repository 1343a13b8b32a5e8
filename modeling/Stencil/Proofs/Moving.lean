import Stencil.Proofs.Reading.Moving

/-!
# The same text at another site

A text is read as the same block wherever it stands, but for the positions in it and for the sources of its macros.
Main statements: `readBlock_moved`, what is read at another site is what is read here, put there; and
`readBlock_mono`, that strings may be nested deeper changes nothing of what was read.
-/

namespace Stencil

variable {g : Relocation} {A B : Site} {inner inner' : Site → List Char → Except Failure Block} {quoted : Bool}
  {text : List Char} {c d e : Cursor} {ts us : List (Tree Rule)}

/-! ### Strings -/

/-- Whether the contents of strings are read at another site as here, in templates of the characters `cs`. -/
def Relocation.Moves (g : Relocation) (cs : List Char) (inner inner' : Site → List Char → Except Failure Block) :
    Prop :=
  ∀ {A B : Site} {quoted : Bool} {text : List Char}, A.chars = cs → A.Regular quoted text → g.Carries A B →
    inner' B text = g.answer g.block (inner A text)

lemma Relocation.text?_node (g : Relocation) (n : Node) : (g.node n).text? = n.text? := by
  obtain ⟨kind, p⟩ := n
  cases kind <;> rfl

lemma Relocation.mapM_text?_block (g : Relocation) (b : Block) :
    (g.block b).mapM Node.text? = b.mapM Node.text? := by
  rw [Relocation.block, Relocation.nodeList_eq, List.mapM_map]
  exact congrArg (List.mapM · b) (funext g.text?_node)

/-- What a string in double quotes is read as, moves with it. -/
lemma ExprKind.ofQuoted_moved (hc : g.Carries A B) (hm : g.Moves A.chars inner inner') (hr : A.Regular quoted text)
    {content : List Char} {start : Nat} {outer : Span}
    (hw : Part.Faithful A quoted text outer (.word content start)) :
    ofQuoted B inner' content start = g.answer g.exprKind (ofQuoted A inner content start) := by
  obtain ⟨front, back, ht, rfl, -, -⟩ := hw
  have length := Quoted.length_origins (utf8Length front) content
  unfold ofQuoted
  rcases hu : Quoted.unescape (utf8Length front) content with ⟨unescaped, origins⟩
  rw [hu] at length
  dsimp only at length ⊢
  split
  · rfl
  · have nonempty : origins ≠ [] := List.ne_nil_of_length_eq_add_one length
    have read := hm (A := A.within origins) rfl (hr.within ht hu).1 (hc.within nonempty)
    rw [read]
    refine g.bind_answer (fun b => ?_) _
    rw [g.mapM_text?_block]
    cases b.mapM Node.text? <;> rfl

/-! ### Trees -/

/-- Whether the trees that were read between two places of a text stand for the same at another site. -/
def Part.Moved (g : Relocation) (A B : Site) (inner inner' : Site → List Char → Except Failure Block)
    (text : List Char) (c : Cursor) (ts : List (Tree Rule)) : Prop :=
  c.In text → Tree.evalAll (Rule.meaning B inner') ts =
    g.answer (List.map g.part) (Tree.evalAll (Rule.meaning A inner) ts)

lemma Part.moved_append {w : List Char} (hw : c.Reaches d w) (ht : Part.Moved g A B inner inner' text c ts)
    (hu : Part.Moved g A B inner inner' text d us) : Part.Moved g A B inner inner' text c (ts ++ us) := by
  rintro ⟨front, hf⟩
  rw [Tree.evalAll_append_eq, Tree.evalAll_append_eq, ht ⟨front, hf⟩, hu ⟨front ++ w, hf.trans hw⟩]
  refine g.bind_answer (fun ps => ?_) _
  refine g.pure_answer (fun qs => ?_) _
  exact List.map_append.symm

lemma Part.moved_rule (hg : g.Rigid) (hc : g.Carries A B) (hi : ReadsFaithfully A.chars inner)
    (hm : g.Moves A.chars inner inner') (hr : A.Regular quoted text) {r : Rule}
    (hd : Peg.Derives Rule.body (.rule r) c d [.node r c d ts]) (ht : Part.Moved g A B inner inner' text c ts) :
    Part.Moved g A B inner inner' text c [.node r c d ts] := by
  intro hin
  have single (site : Site) (inner : Site → List Char → Except Failure Block) :
      Tree.evalAll (Rule.meaning site inner) [.node r c d ts] =
        Tree.evalAll (Rule.meaning site inner) ts >>= fun ps => r.meaning site inner c d ps >>= fun p => pure [p] := by
    rw [Tree.evalAll, Tree.eval]
    cases Tree.evalAll (Rule.meaning site inner) ts <;> rfl
  rw [single, single, ht hin]
  cases hps : Tree.evalAll (Rule.meaning A inner) ts with
  | error f => rfl
  | ok ps =>
    have own : r.meaning B inner' c d (ps.map g.part) = g.answer g.part (r.meaning A inner c d ps) := by
      obtain ⟨w, hw⟩ := hd.reaches
      by_cases hblock : r = .block
      · subst hblock
        obtain ⟨us, hus, hmany⟩ := hd.of_phrase Rule.body_block
        cases hus
        show ((ps.map g.part).mapM Part.toNode >>= fun b => pure (Part.block (joinTexts b))) =
          g.answer g.part (ps.mapM Part.toNode >>= fun b => pure (Part.block (joinTexts b)))
        rw [g.mapM_answer (Part.toNode_moved g)]
        cases hb : ps.mapM Part.toNode with
        | error f => rfl
        | ok b =>
          have tiles := Block.tiles_of_many hmany (fun hab hbd => hr.strict hab (Nat.le_trans hbd ?_)) hps hb
          · have faithful : ∀ n ∈ b, Node.Faithful A.chars quoted n := by
              intro n hn
              obtain ⟨part, hpart, h⟩ := mem_of_mapM hb hn
              exact (Part.stand_of_derives hi hr hmany hin ps hps part hpart).toNode h
            show Except.ok (Part.block (joinTexts (b.map g.node))) = .ok (.block (g.nodeList (joinTexts b)))
            rw [tiles.joinTexts_moved hg faithful, Relocation.nodeList_eq]
          · obtain ⟨front, hf, -, hstop⟩ := Site.Read.parts ⟨hr, hin, hw⟩
            rw [hf, utf8Length_append, ← hstop]
            exact Nat.le_add_right _ _
      by_cases hstring : r = .dqString
      · subst hstring
        obtain ⟨us, hus, hbody⟩ := hd.of_phrase (rfl : Rule.body .dqString = .phrase _)
        cases hus
        have faithful := Part.stand_of_derives hi hr hbody hin ps hps
        rcases ps with _ | ⟨p, _ | ⟨q, ps⟩⟩
        · rfl
        · cases p with
          | word content start =>
            have read := ExprKind.ofQuoted_moved hc hm hr (faithful _ (List.mem_singleton_self _))
            show (ExprKind.ofQuoted B inner' content start >>= fun k => pure (Part.expr ⟨k, B.position c d⟩)) =
              g.answer g.part
                (ExprKind.ofQuoted A inner content start >>= fun k => pure (Part.expr ⟨k, A.position c d⟩))
            rw [read, ← hc.cursors]
            refine g.pure_answer (fun _ => ?_) _
            rfl
          | _ => rfl
        · cases p <;> rfl
      exact Rule.meaning_moved hg hc ⟨hblock, hstring⟩ ps
    show (r.meaning B inner' c d (ps.map g.part) >>= fun p => pure [p]) =
      g.answer (List.map g.part) (r.meaning A inner c d ps >>= fun p => pure [p])
    rw [own]
    refine g.pure_answer (fun _ => ?_) _
    rfl

/-- What was read stands for the same at another site. -/
theorem Part.moved_of_derives (hg : g.Rigid) (hc : g.Carries A B) (hi : ReadsFaithfully A.chars inner)
    (hm : g.Moves A.chars inner inner') (hr : A.Regular quoted text) {p : Peg Rule}
    (hd : Peg.Derives Rule.body p c d ts) : Part.Moved g A B inner inner' text c ts := by
  induction hd with
  | token _ => exact fun _ => rfl
  | seq hg' _ ihg ihh =>
    obtain ⟨w, hw⟩ := hg'.reaches
    exact Part.moved_append hw ihg ihh
  | left _ ih => exact ih
  | right _ ih => exact ih
  | done => exact fun _ => rfl
  | more hg' _ ihg ihh =>
    obtain ⟨w, hw⟩ := hg'.reaches
    exact Part.moved_append hw ihg ihh
  | skipped => exact fun _ => rfl
  | taken _ ih => exact ih
  | word hw hrun => exact Part.moved_rule hg hc hi hm hr (.word hw hrun) fun _ => rfl
  | phrase hb hd ih => exact Part.moved_rule hg hc hi hm hr (.phrase hb hd) ih

/-! ### Whole texts -/

/-- What a whole text is read as, moves with it. -/
lemma Tree.eval_moved (hg : g.Rigid) (hc : g.Carries A B) (hi : ReadsFaithfully A.chars inner)
    (hm : g.Moves A.chars inner inner') (hr : A.Regular quoted text) {t : Tree Rule} (ht : readTree text = .ok t) :
    t.eval (Rule.meaning B inner') = g.answer g.part (t.eval (Rule.meaning A inner)) := by
  obtain ⟨d, hd⟩ := exists_derives_of_readTree ht
  have moved := Part.moved_of_derives hg hc hi hm hr hd ⟨[], .refl _⟩
  have single (site : Site) (inner : Site → List Char → Except Failure Block) :
      evalAll (Rule.meaning site inner) [t] = (t.eval (Rule.meaning site inner) >>= fun p => pure [p]) := rfl
  rw [single, single] at moved
  generalize t.eval (Rule.meaning A inner) = x, t.eval (Rule.meaning B inner') = y at moved ⊢
  cases x <;> cases y <;> cases moved <;> rfl

/-- What is read at another site is what is read here, put there. -/
theorem readBlock_moved (hg : g.Rigid) (cs : List Char) (depth : Nat) :
    g.Moves cs (readBlock depth) (readBlock depth) := by
  induction depth with
  | zero =>
    intro A B quoted text _ _ _
    rfl
  | succ depth ih =>
    intro A B quoted text ha hr hc
    subst ha
    unfold readBlock
    cases ht : readTree text with
    | error refusal => exact congrArg Except.error (hc.refused text refusal)
    | ok t =>
      dsimp only
      rw [Tree.eval_moved hg hc (readsFaithfully_readBlock A.chars depth) ih hr ht]
      cases t.eval (Rule.meaning A (readBlock depth)) with
      | error f => rfl
      | ok p => cases p <;> rfl

/-! ### Strings in strings -/

/-- A match whose strings are read stands for the same when more strings are. -/
lemma Rule.meaning_mono (h : ∀ {site : Site} {cs b}, inner site cs = .ok b → inner' site cs = .ok b) {r : Rule}
    {site : Site} {parts : List Part} {p : Part} (hp : r.meaning site inner c d parts = .ok p) :
    r.meaning site inner' c d parts = .ok p := by
  cases r with
  | dqString =>
    rcases parts with _ | ⟨q, _ | ⟨q', ps⟩⟩
    · cases hp
    · cases q with
      | word content start =>
        obtain ⟨kind, hk, hp⟩ := ok_of_bind hp
        have same : ExprKind.ofQuoted site inner' content start = .ok kind := by
          unfold ExprKind.ofQuoted at hk ⊢
          generalize Quoted.unescape start content = unescaped at hk ⊢
          dsimp only at hk ⊢
          split at hk
          · next plain =>
            rw [if_pos plain]
            exact hk
          · next plain =>
            rw [if_neg plain]
            obtain ⟨b, hb, hk⟩ := ok_of_bind hk
            rw [h hb]
            exact hk
        show (ExprKind.ofQuoted site inner' content start >>= fun k => pure (Part.expr ⟨k, site.position c d⟩)) = _
        rw [same]
        exact hp
      | _ => cases hp
    · cases q <;> cases hp
  | _ => exact hp

mutual

lemma Tree.eval_mono (h : ∀ {site : Site} {cs b}, inner site cs = .ok b → inner' site cs = .ok b) {site : Site} :
    ∀ {t : Tree Rule} {p : Part}, t.eval (Rule.meaning site inner) = .ok p →
      t.eval (Rule.meaning site inner') = .ok p
  | .node r c d ts, p, hp => by
    rw [eval] at hp ⊢
    obtain ⟨ps, hps, hp⟩ := ok_of_bind hp
    rw [evalAll_mono h hps]
    exact Rule.meaning_mono h hp

lemma Tree.evalAll_mono (h : ∀ {site : Site} {cs b}, inner site cs = .ok b → inner' site cs = .ok b) {site : Site} :
    ∀ {ts : List (Tree Rule)} {ps : List Part}, evalAll (Rule.meaning site inner) ts = .ok ps →
      evalAll (Rule.meaning site inner') ts = .ok ps
  | [], ps, hp => hp
  | t :: ts, ps, hp => by
    rw [evalAll] at hp ⊢
    obtain ⟨q, hq, hp⟩ := ok_of_bind hp
    obtain ⟨qs, hqs, hp⟩ := ok_of_bind hp
    rw [eval_mono h hq, evalAll_mono h hqs]
    exact hp

end

/-- What was read stays the same where strings may be nested deeper. -/
theorem readBlock_mono {depth depth' : Nat} (hd : depth ≤ depth') {site : Site} {cs : List Char} {b : Block}
    (h : readBlock depth site cs = .ok b) : readBlock depth' site cs = .ok b := by
  induction depth generalizing depth' site cs b with
  | zero => cases h
  | succ depth ih =>
    obtain ⟨deeper, rfl⟩ := Nat.exists_eq_succ_of_ne_zero (Nat.ne_of_gt (Nat.lt_of_lt_of_le (Nat.succ_pos _) hd))
    obtain ⟨t, read, meant⟩ := readBlock_eq_ok_iff.mp h
    exact readBlock_eq_ok_iff.mpr ⟨t, read, Tree.eval_mono (ih (Nat.le_of_succ_le_succ hd)) meant⟩

end Stencil
