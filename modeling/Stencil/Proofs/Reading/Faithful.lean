import Mathlib.Data.List.Chain
import Mathlib.Tactic.Lemma
import Stencil.Ast.Reading
import Stencil.Proofs.Parts

/-!
# Trees that stand for their text

The nodes of a block tile a stretch of the template, the blocks in a node lie inside of it, and outside of
strings what a node keeps of its text is its text. Main statements: `Block.Tiles.joinTexts`, joining texts
keeps all that, and leaves no two texts side by side.
-/

namespace Stencil

/-! ### Stretches of a text -/

/-- Whether a span lies within another one. -/
structure Span.Inside (s outer : Span) : Prop where
  start : outer.start ≤ s.start
  stop : s.stop ≤ outer.stop

lemma Span.Inside.refl (s : Span) : s.Inside s := ⟨Nat.le_refl _, Nat.le_refl _⟩

lemma Span.Inside.trans {s t u : Span} (h : s.Inside t) (k : t.Inside u) : s.Inside u :=
  ⟨Nat.le_trans k.start h.start, Nat.le_trans h.stop k.stop⟩

/-- Whether the characters of a span in a text are the given ones. -/
def Span.Spells (cs : List Char) (s : Span) (w : List Char) : Prop :=
  ∃ front back, cs = front ++ w ++ back ∧ s = ⟨utf8Length front, utf8Length (front ++ w)⟩

lemma dropBytes_append (cs ds : List Char) : dropBytes (utf8Length cs) (cs ++ ds) = ds := by
  induction cs with
  | nil =>
    cases ds with
    | nil => rfl
    | cons d ds => simp [dropBytes, Char.utf8Size_pos]
  | cons c cs ih =>
    have next : ¬utf8Length (c :: cs) < c.utf8Size := by
      rw [utf8Length_cons]
      omega
    rw [List.cons_append, dropBytes, if_neg next, utf8Length_cons, Nat.add_sub_cancel_left, ih]

/-- What a span spells is the slice of the text. -/
theorem Span.Spells.slice_eq {cs w : List Char} {s : Span} (h : s.Spells cs w) : slice cs s = w := by
  obtain ⟨front, back, rfl, rfl⟩ := h
  have length : utf8Length (front ++ w) - utf8Length front = utf8Length w := by
    rw [utf8Length_append, Nat.add_sub_cancel_left]
  unfold slice Span.length
  rw [length, List.append_assoc, dropBytes_append, takeBytes_append]

/-- Two stretches that touch spell their characters one after the other. -/
lemma Span.Spells.append {cs v w : List Char} {a b c : Nat} (h : Spells cs ⟨a, b⟩ v)
    (k : Spells cs ⟨b, c⟩ w) : Spells cs ⟨a, c⟩ (v ++ w) := by
  obtain ⟨front, back, hcs, hs⟩ := h
  obtain ⟨front', back', hcs', hs'⟩ := k
  cases hs
  obtain ⟨hb, rfl⟩ := Span.mk.inj hs'
  -- Both stretches cut the text at the same byte, and so into the same parts.
  have before : front' = front ++ v := by
    have taken := takeBytes_append (front ++ v) back
    rw [← hcs, hcs', hb, List.append_assoc, takeBytes_append] at taken
    exact taken
  subst before
  exact ⟨front, back', by rw [hcs']; simp only [List.append_assoc], by simp only [List.append_assoc]⟩

/-! ### Nodes in a row -/

/-- Nodes that lie one after the other from one offset to another, none of them empty. -/
inductive Block.Tiles : Nat → Nat → Block → Prop
  | nil (offset : Nat) : Tiles offset offset []
  | cons {n : Node} {b : Block} {stop : Nat} : n.position.span.start < n.position.span.stop →
    Tiles n.position.span.stop stop b → Tiles n.position.span.start stop (n :: b)

def Node.isText (n : Node) : Bool := n.text?.isSome

/-- No two nodes of text stand side by side. -/
def Block.Separated (b : Block) : Prop := b.IsChain fun m n => ¬(m.isText ∧ n.isText)

/-! ### What trees keep of their text -/

/-- The expressions directly in a node, those in the definition of a macro too. -/
def NodeKind.subexprs : NodeKind → List Expr
  | macroDef d => d.params.flatMap (·.fallback.toList)
  | kind => kind.exprs

/-- The blocks directly in a node, the body of a macro too. -/
def NodeKind.subblocks : NodeKind → List Block
  | macroDef d => [d.body]
  | kind => kind.blocks

def NodeKind.references : NodeKind → List Reference
  | reference r => [r]
  | assign target _ => [target]
  | _ => []

def ExprKind.references : ExprKind → List Reference
  | reference r => [r]
  | _ => []

/-- Whether a reference keeps its text. -/
def Reference.Literal (cs : List Char) (r : Reference) : Prop := r.position.span.Spells cs r.literal.toList

/-- Whether a node keeps its text, as far as it keeps any. -/
def Node.Literal (cs : List Char) (n : Node) : Prop :=
  match n.kind with
  | .text s => n.position.span.Spells cs s.toList
  | .escaped s => n.position.span.Spells cs ('\\' :: s.toList)
  | .raw s => n.position.span.Spells cs ("#[[".toList ++ s.toList ++ "]]#".toList)
  | .reference r => n.position.span.Spells cs r.literal.toList
  | .macroCall c => n.position.span.Spells cs c.literal.toList
  | _ => True

mutual

/-- A node stands for its text in a template of the characters `cs`: the blocks in it lie inside of it and
stand for theirs, and outside of strings it keeps its text, and so do all references in it. -/
inductive Node.Faithful (cs : List Char) : Bool → Node → Prop
  | intro {quoted : Bool} {n : Node} : (quoted = false → n.Literal cs) →
    (∀ r ∈ n.kind.references, quoted = false → r.Literal cs) →
    (∀ e ∈ n.kind.subexprs, Expr.Faithful cs quoted n.position.span e) →
    (∀ b ∈ n.kind.subblocks, Block.Faithful cs quoted n.position.span b) → Node.Faithful cs quoted n

/-- An expression lies inside a span and stands for its text; the block of a string lies inside of it. -/
inductive Expr.Faithful (cs : List Char) : Bool → Span → Expr → Prop
  | intro {quoted : Bool} {outer : Span} {e : Expr} : e.position.span.Inside outer →
    (∀ r ∈ e.kind.references, quoted = false → r.Literal cs) →
    (∀ x ∈ e.kind.exprs, Expr.Faithful cs quoted outer x) →
    (∀ b ∈ e.kind.blocks, Block.Faithful cs true e.position.span b) → Expr.Faithful cs quoted outer e

/-- The nodes of a block tile a stretch inside a span and stand for their text, with no two texts side by
side. -/
inductive Block.Faithful (cs : List Char) : Bool → Span → Block → Prop
  | intro {quoted : Bool} {outer : Span} {lo hi : Nat} {b : Block} : outer.start ≤ lo → hi ≤ outer.stop →
    Block.Tiles lo hi b → Block.Separated b → (∀ n ∈ b, Node.Faithful cs quoted n) →
    Block.Faithful cs quoted outer b

end

variable {cs : List Char} {quoted : Bool} {outer outer' : Span}

theorem Expr.Faithful.mono {e : Expr} (h : Expr.Faithful cs quoted outer e) (ho : outer.Inside outer') :
    Expr.Faithful cs quoted outer' e := by
  match h with
  | .intro inside refs exprs blocks =>
    exact .intro (inside.trans ho) refs (fun x hx => (exprs x hx).mono ho) blocks

lemma Block.Faithful.mono {b : Block} (h : Block.Faithful cs quoted outer b) (ho : outer.Inside outer') :
    Block.Faithful cs quoted outer' b := by
  cases h with
  | intro lo hi tiles separated nodes =>
    exact .intro (Nat.le_trans ho.start lo) (Nat.le_trans hi ho.stop) tiles separated nodes

/-- What a node of some kind needs to stand for its text, apart from what it keeps of that. -/
structure NodeKind.Faithful (cs : List Char) (quoted : Bool) (outer : Span) (kind : NodeKind) : Prop where
  references : ∀ r ∈ kind.references, quoted = false → r.Literal cs
  exprs : ∀ e ∈ kind.subexprs, Expr.Faithful cs quoted outer e
  blocks : ∀ b ∈ kind.subblocks, Block.Faithful cs quoted outer b

lemma NodeKind.Faithful.node {kind : NodeKind} {p : Position} (h : kind.Faithful cs quoted p.span)
    (hl : quoted = false → Node.Literal cs ⟨kind, p⟩) : Node.Faithful cs quoted ⟨kind, p⟩ :=
  .intro hl h.references h.exprs h.blocks

/-- A block that tiles all of a stretch. -/
structure Block.Fills (cs : List Char) (quoted : Bool) (lo hi : Nat) (b : Block) : Prop where
  tiles : b.Tiles lo hi
  separated : b.Separated
  nodes : ∀ n ∈ b, Node.Faithful cs quoted n

lemma Block.Fills.faithful {lo hi : Nat} {b : Block} (h : b.Fills cs quoted lo hi) :
    Block.Faithful cs quoted ⟨lo, hi⟩ b :=
  .intro (Nat.le_refl _) (Nat.le_refl _) h.tiles h.separated h.nodes

/-! ### Joining texts -/

lemma Node.faithful_text {s : String} {p : Position}
    (h : quoted = false → p.span.Spells cs s.toList) : Node.Faithful cs quoted ⟨.text s, p⟩ :=
  .intro h nofun nofun nofun

lemma Node.Faithful.spells {s : String} {p : Position} (h : Node.Faithful cs quoted ⟨.text s, p⟩) :
    quoted = false → p.span.Spells cs s.toList := by
  cases h with
  | intro literal _ _ _ => exact literal

/-- Two texts that touch make one text. -/
lemma Node.join?_eq {m n : Node} (ht : m.isText ∧ n.isText)
    (hp : m.position.span.stop = n.position.span.start) :
    ∃ k, m.join? n = some k ∧ k.isText ∧ k.position.span = ⟨m.position.span.start, n.position.span.stop⟩ ∧
      (Node.Faithful cs quoted m → Node.Faithful cs quoted n → Node.Faithful cs quoted k) := by
  obtain ⟨mk, mp⟩ := m
  obtain ⟨nk, np⟩ := n
  cases mk with
  | text s =>
    cases nk with
    | text t =>
      refine ⟨⟨.text (s ++ t), { mp with span := ⟨mp.span.start, np.span.stop⟩ }⟩, if_pos hp, rfl, rfl, ?_⟩
      intro hs ht
      apply Node.faithful_text
      intro hq
      have first := hs.spells hq
      have second := ht.spells hq
      rw [String.toList_append]
      dsimp only at hp ⊢
      apply first.append
      rwa [hp]
    | _ => simp [isText, text?] at ht
  | _ => simp [isText, text?] at ht

lemma Node.join?_eq_none {m n : Node} (h : ¬(m.isText ∧ n.isText)) : m.join? n = none := by
  obtain ⟨mk, mp⟩ := m
  obtain ⟨nk, np⟩ := n
  unfold join?
  cases mk with
  | text s =>
    cases nk with
    | text t => exact absurd ⟨rfl, rfl⟩ h
    | _ => rfl
  | _ => rfl

/-- Joining the texts of a row leaves a row with no two texts side by side. -/
theorem Block.Tiles.joinTexts {lo hi : Nat} {b : Block} (ht : Tiles lo hi b)
    (hn : ∀ n ∈ b, Node.Faithful cs quoted n) : Fills cs quoted lo hi (joinTexts b) := by
  induction ht with
  | nil offset => exact ⟨.nil offset, List.IsChain.nil, nofun⟩
  | @cons n b stop lt rest ih =>
    obtain ⟨tiles, separated, nodes⟩ := ih fun m hm => hn m (List.mem_cons_of_mem _ hm)
    have here := hn n (List.mem_cons_self ..)
    unfold Stencil.joinTexts
    cases hj : Stencil.joinTexts b with
    | nil =>
      rw [hj] at tiles
      exact ⟨.cons lt tiles, List.IsChain.singleton n, fun m hm => List.mem_singleton.mp hm ▸ here⟩
    | cons m ms =>
      rw [hj] at tiles separated nodes
      by_cases both : n.isText ∧ m.isText
      · obtain ⟨touch, lt', after⟩ : n.position.span.stop = m.position.span.start ∧
            m.position.span.start < m.position.span.stop ∧ Tiles m.position.span.stop stop ms := by
          generalize n.position.span.stop = start at tiles
          cases tiles with
          | cons lt' after => exact ⟨rfl, lt', after⟩
        obtain ⟨k, hk, text, span, faithful⟩ := Node.join?_eq both touch
        have joined := faithful here (nodes m (List.mem_cons_self ..))
        dsimp only
        rw [hk]
        refine ⟨?_, ?_, ?_⟩
        · have start : n.position.span.start = k.position.span.start := by rw [span]
          have last : m.position.span.stop = k.position.span.stop := by rw [span]
          rw [start]
          rw [last] at after
          refine .cons ?_ after
          rw [span]
          exact Nat.lt_trans lt (touch ▸ lt')
        · -- What is joined is text again, and the text behind it was not followed by text.
          cases ms with
          | nil => exact List.IsChain.singleton k
          | cons q qs =>
            obtain ⟨apart, chain⟩ := List.isChain_cons_cons.mp separated
            refine List.isChain_cons_cons.mpr ⟨fun h => apart ⟨both.2, h.2⟩, chain⟩
        · intro q hq
          rcases List.mem_cons.mp hq with rfl | hq
          · exact joined
          · exact nodes q (List.mem_cons_of_mem _ hq)
      · dsimp only
        rw [Node.join?_eq_none both]
        refine ⟨.cons lt tiles, List.isChain_cons_cons.mpr ⟨both, separated⟩, ?_⟩
        intro k hk
        rcases List.mem_cons.mp hk with rfl | hk
        · exact here
        · exact nodes k hk

end Stencil
