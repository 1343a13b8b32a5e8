import Mathlib.Data.List.Forall2
import Stencil.Proofs.Fitness
import Stencil.Proofs.Reading

/-!
# Trees with less text

A tree is thinned by taking characters out of its texts, and what loses all of its characters: nothing else of it
changes. Main statements: `Block.Fills.thinned_gobble`, gobbling thins a tree that stands for its text, and
`Block.faults_gobble`, it leaves what is wrong with the tree.
-/

namespace Stencil

/-! ### Thinned trees -/

/-- What gobbling may take out of texts. -/
def Gobbling.blanks : List Char := [' ', '\t', '\r', '\n']

/-- The characters `ds` are what is left of the characters `cs`, which start at an offset, without those at the
offsets that are `gone`; they are blanks. -/
inductive Text.Thinned (gone : Nat → Prop) : Nat → List Char → List Char → Prop
  | nil {offset : Nat} : Thinned gone offset [] []
  | kept {offset : Nat} {c : Char} {cs ds : List Char} : ¬gone offset →
    Thinned gone (offset + c.utf8Size) cs ds → Thinned gone offset (c :: cs) (c :: ds)
  | dropped {offset : Nat} {c : Char} {cs ds : List Char} : gone offset → c ∈ Gobbling.blanks →
    Thinned gone (offset + c.utf8Size) cs ds → Thinned gone offset (c :: cs) ds

/-- A node's kind without what the blocks in it consist of. -/
def NodeKind.hollow : NodeKind → NodeKind
  | conditional branches otherwise =>
    .conditional (branches.map fun b => ⟨b.condition, []⟩) (otherwise.map fun _ => [])
  | loop var e _ otherwise => .loop var e [] (otherwise.map fun _ => [])
  | macroDef d => .macroDef { d with body := [] }
  | macroCall c => .macroCall { c with body := c.body.map fun _ => [] }
  | kind => kind

mutual

/-- A node that is no text, and what it is without the characters of its texts at the offsets that are `gone`. -/
inductive Node.Thinned (gone : Nat → Prop) : Node → Node → Prop
  | intro {n n' : Node} : n.isText = false → n'.position = n.position → n'.kind.hollow = n.kind.hollow →
    List.Forall₂ (fun b b' => Block.Thinned gone b b') n.kind.subblocks n'.kind.subblocks →
    Node.Thinned gone n n'

/-- A block, and what it is without the characters of its texts at the offsets that are `gone`: a text of which
nothing is left is not there. -/
inductive Block.Thinned (gone : Nat → Prop) : Block → Block → Prop
  | nil : Block.Thinned gone [] []
  | text {s : String} {p : Position} {kept : List Char} {b b' : Block} :
    Text.Thinned gone p.span.start s.toList kept → kept ≠ [] → Block.Thinned gone b b' →
    Block.Thinned gone (⟨.text s, p⟩ :: b) (⟨.text (String.ofList kept), p⟩ :: b')
  | emptied {s : String} {p : Position} {b b' : Block} : Text.Thinned gone p.span.start s.toList [] →
    Block.Thinned gone b b' → Block.Thinned gone (⟨.text s, p⟩ :: b) b'
  | node {n n' : Node} {b b' : Block} : Node.Thinned gone n n' → Block.Thinned gone b b' →
    Block.Thinned gone (n :: b) (n' :: b')

end

/-! ### What is not thinned -/

lemma Node.exists_text {n : Node} (h : n.isText = true) : ∃ s p, n = ⟨.text s, p⟩ := by
  obtain ⟨kind, p⟩ := n
  cases kind with
  | text s => exact ⟨s, p, rfl⟩
  | _ => cases h

/-- The nodes of a row are not empty. -/
lemma Block.Tiles.lt_of_mem {lo hi : Nat} {b : Block} (h : Tiles lo hi b) :
    ∀ n ∈ b, n.position.span.start < n.position.span.stop := by
  induction h with
  | nil => exact nofun
  | cons lt _ ih => exact List.forall_mem_cons.mpr ⟨lt, ih⟩

section

variable {gone : Nat → Prop} {cs : List Char}

lemma Text.thinned_self (h : ∀ offset, ¬gone offset) (offset : Nat) (cs : List Char) :
    Text.Thinned gone offset cs cs := by
  induction cs generalizing offset with
  | nil => exact .nil
  | cons c cs ih => exact .kept (h offset) (ih _)

lemma Block.thinned_self_of (h : ∀ offset, ¬gone offset) {lo hi : Nat} {b : Block} (ht : Tiles lo hi b)
    (hb : ∀ n ∈ b, Node.Faithful cs false n) (hn : ∀ n ∈ b, n.isText = false → Node.Thinned gone n n) :
    Block.Thinned gone b b := by
  induction ht with
  | nil => exact .nil
  | @cons n b stop lt _ ih =>
    obtain ⟨here, later⟩ := List.forall_mem_cons.mp hb
    obtain ⟨same, others⟩ := List.forall_mem_cons.mp hn
    have rest := ih later others
    cases text : n.isText with
    | true =>
      obtain ⟨s, p, rfl⟩ := Node.exists_text text
      obtain ⟨front, back, -, span⟩ : p.span.Spells cs s.toList := here.spells rfl
      have filled : s.toList ≠ [] := by
        intro nothing
        rw [show (⟨.text s, p⟩ : Node).position = p from rfl, span, nothing, List.append_nil] at lt
        exact Nat.lt_irrefl _ lt
      have kept := Block.Thinned.text (Text.thinned_self h p.span.start s.toList) filled rest
      rwa [String.ofList_toList] at kept
    | false => exact .node (same text) rest

lemma Node.thinned_self (h : ∀ offset, ¬gone offset) {n : Node} (hn : Node.Faithful cs false n)
    (ht : n.isText = false) : Node.Thinned gone n n := by
  refine .intro ht rfl rfl (List.forall₂_same.mpr fun b hb => ?_)
  cases hn with
  | intro _ _ _ blocks =>
    cases blocks b hb with
    | intro _ _ tiles _ nodes =>
      exact Block.thinned_self_of h tiles nodes fun m hm => Node.thinned_self h (nodes m hm)
termination_by sizeOf n
decreasing_by exact Nat.lt_trans (List.sizeOf_lt_of_mem hm) (Node.sizeOf_subblocks hb)

/-- A block that loses nothing is what it was. -/
lemma Block.Fills.thinned_self (h : ∀ offset, ¬gone offset) {lo hi : Nat} {b : Block} (hb : b.Fills cs false lo hi) :
    Block.Thinned gone b b :=
  Block.thinned_self_of h hb.tiles hb.nodes fun n hn => Node.thinned_self h (hb.nodes n hn)

end

/-! ### Gobbling thins -/

/-- Whether a character of a text starts at an offset. -/
def CharAt (cs : List Char) (offset : Nat) (c : Char) : Prop :=
  ∃ front back, cs = front ++ c :: back ∧ offset = utf8Length front

namespace Gobbling

variable {cs : List Char} {spans : List Span}

/-- Whether spans of a text take nothing but blanks out of it. -/
def OnlyBlanks (cs : List Char) (spans : List Span) : Prop :=
  ∀ {offset c}, CharAt cs offset c → isRemoved spans offset = true → c ∈ blanks

lemma thinned_keep (hs : OnlyBlanks cs spans) {front word back : List Char} (h : cs = front ++ word ++ back) :
    Text.Thinned (isRemoved spans · = true) (utf8Length front) word (keep spans (utf8Length front) word) := by
  induction word generalizing front with
  | nil => exact .nil
  | cons c word ih =>
    have next : cs = (front ++ [c]) ++ word ++ back := by
      rw [h]
      simp only [List.append_assoc, List.cons_append, List.nil_append]
    have later := ih next
    rw [utf8Length_append, utf8Length_cons, utf8Length_nil, Nat.add_zero] at later
    unfold keep
    dsimp only
    split
    · next removed =>
      refine .dropped removed (hs ⟨front, word ++ back, ?_, rfl⟩ removed) later
      rw [h, List.append_assoc, List.cons_append]
    · next kept => exact .kept kept later

/-- Gobbling changes nothing of a node that is no text but its blocks. -/
lemma hollow_stripKind {offset : Nat} {k k' : NodeKind} (ht : ∀ s, k ≠ .text s)
    (h : stripKind spans offset k = some k') : k'.hollow = k.hollow := by
  have option (o : Option Block) : (stripOption spans o).map (fun _ => ([] : Block)) = o.map fun _ => [] := by
    cases o <;> rfl
  cases k with
  | text s => exact absurd rfl (ht s)
  | conditional branches otherwise =>
    cases h
    show NodeKind.conditional _ _ = NodeKind.conditional _ _
    rw [stripBranches_eq, List.map_map, option]
    rfl
  | loop var e body otherwise =>
    cases h
    exact congrArg (NodeKind.loop var e []) (option otherwise)
  | macroDef d =>
    obtain ⟨name, params, body, source, p⟩ := d
    cases h
    rfl
  | macroCall c =>
    obtain ⟨name, args, body, literal⟩ := c
    cases h
    exact congrArg (fun b => NodeKind.macroCall ⟨name, args, b, literal⟩) (option body)
  | _ =>
    cases h
    rfl

lemma exists_stripKind (spans : List Span) (offset : Nat) {k : NodeKind} (ht : ∀ s, k ≠ .text s) :
    ∃ k', stripKind spans offset k = some k' := by
  cases k with
  | text s => exact absurd rfl (ht s)
  | _ => exact ⟨_, rfl⟩

lemma stripNode_eq (spans : List Span) (n : Node) :
    stripNode spans n = (stripKind spans n.position.span.start n.kind).map fun k => ⟨k, n.position⟩ := by
  obtain ⟨kind, p⟩ := n
  rfl

/-- What is left of a text. -/
lemma thinned_text (hs : OnlyBlanks cs spans) {s : String} {p : Position} (h : p.span.Spells cs s.toList)
    {b b' : Block} (rest : Block.Thinned (isRemoved spans · = true) b b') :
    Block.Thinned (isRemoved spans · = true) (⟨.text s, p⟩ :: b)
      ((stripNode spans ⟨.text s, p⟩).toList ++ b') := by
  obtain ⟨front, back, hcs, hp⟩ := h
  have start : p.span.start = utf8Length front := by rw [hp]
  have thinned := thinned_keep hs hcs
  rw [← start] at thinned
  rw [stripNode_eq, stripKind]
  split
  · next nothing =>
    rw [List.isEmpty_iff.mp nothing] at thinned
    exact .emptied thinned rest
  · next something =>
    refine .text thinned (fun h => something ?_) rest
    rw [h]
    rfl

/-- What is left of a block, given what is left of its nodes. -/
lemma thinned_block (hs : OnlyBlanks cs spans) {b : Block} (hb : ∀ n ∈ b, Node.Faithful cs false n)
    (hn : ∀ n ∈ b, n.isText = false → ∃ m, stripNode spans n = some m ∧
      Node.Thinned (isRemoved spans · = true) n m) :
    Block.Thinned (isRemoved spans · = true) b (stripBlock spans b) := by
  induction b with
  | nil => exact .nil
  | cons n b ih =>
    obtain ⟨here, later⟩ := List.forall_mem_cons.mp hb
    obtain ⟨left, others⟩ := List.forall_mem_cons.mp hn
    have rest := ih later others
    rw [stripBlock_eq] at rest ⊢
    rw [List.filterMap_cons]
    cases ht : n.isText with
    | true =>
      obtain ⟨s, p, rfl⟩ := Node.exists_text ht
      have thinned := thinned_text hs (here.spells rfl) rest
      cases hm : stripNode spans ⟨.text s, p⟩ with
      | none => rwa [hm] at thinned
      | some m => rwa [hm] at thinned
    | false =>
      obtain ⟨m, hm, thinned⟩ := left ht
      rw [hm]
      exact .node thinned rest

/-- What is left of a node that stands for its text and is no text. -/
lemma thinned_stripNode (hs : OnlyBlanks cs spans) {n : Node} (h : Node.Faithful cs false n)
    (ht : n.isText = false) : ∃ m, stripNode spans n = some m ∧ Node.Thinned (isRemoved spans · = true) n m := by
  have notText : ∀ s, n.kind ≠ .text s := by
    intro s hk
    obtain ⟨kind, p⟩ := n
    cases hk
    cases ht
  obtain ⟨k', hk⟩ := exists_stripKind spans n.position.span.start notText
  refine ⟨⟨k', n.position⟩, by rw [stripNode_eq, hk]; rfl, ?_⟩
  refine .intro ht rfl (hollow_stripKind notText hk) ?_
  show List.Forall₂ _ n.kind.subblocks k'.subblocks
  rw [(stripped_of_stripKind hk).blocks, List.forall₂_map_right_iff, List.forall₂_same]
  intro b hb
  cases h with
  | intro _ _ _ blocks =>
    cases blocks b hb with
    | intro _ _ _ _ nodes =>
      exact thinned_block hs nodes fun m hm => thinned_stripNode hs (nodes m hm)
termination_by sizeOf n
decreasing_by exact Nat.lt_trans (List.sizeOf_lt_of_mem hm) (Node.sizeOf_subblocks hb)

end Gobbling

/-- Gobbling thins a block that stands for its text. -/
theorem Block.Fills.thinned_gobble {cs : List Char} {lo hi : Nat} {b : Block} (hb : b.Fills cs false lo hi)
    {policy : GobblingPolicy} {m : MarkerSpans} (hs : Gobbling.OnlyBlanks cs (Gobbling.removals cs policy m)) :
    Block.Thinned (Gobbling.isRemoved (Gobbling.removals cs policy m) · = true) b (b.gobble policy cs m) := by
  unfold Block.gobble
  split
  · next h =>
    rw [h]
    exact hb.thinned_self nofun
  · exact Gobbling.thinned_block hs hb.nodes fun n hn => Gobbling.thinned_stripNode hs (hb.nodes n hn)

/-! ### What is wrong with a tree -/

namespace Gobbling

variable (spans : List Span)

/-- Whether gobbling leaves what is wrong with the nodes of a block. -/
def KeepsFaults (b : Block) : Prop :=
  ∀ e, Finding.faults (blockFindings e (stripBlock spans b)) = Finding.faults (blockFindings e b)

variable {spans}

lemma faults_stripOption {o : Option Block} (h : ∀ b ∈ o, KeepsFaults spans b) (e : Enclosure) :
    Finding.faults (optionFindings e (stripOption spans o)) = Finding.faults (optionFindings e o) := by
  cases o with
  | none => rfl
  | some b => exact h b rfl e

lemma faults_stripBranches {bs : List Branch} (h : ∀ b ∈ bs, KeepsFaults spans b.body) (e : Enclosure) :
    Finding.faults (branchFindings e (stripBranches spans bs)) = Finding.faults (branchFindings e bs) := by
  induction bs with
  | nil => rfl
  | cons b bs ih =>
    obtain ⟨here, later⟩ := List.forall_mem_cons.mp h
    obtain ⟨condition, body⟩ := b
    have body_ := here e
    have others := ih later
    simp only [stripBranches, branchFindings, Finding.faults_append] at body_ others ⊢
    rw [body_, others]

/-- Gobbling leaves what is wrong with a node, if it does so in the blocks in it. -/
lemma faults_stripKind {offset : Nat} {k k' : NodeKind} (hk : stripKind spans offset k = some k')
    (h : ∀ b ∈ k.subblocks, KeepsFaults spans b) (e : Enclosure) (p : Position) :
    Finding.faults (NodeKind.findings e p k') = Finding.faults (NodeKind.findings e p k) := by
  cases k with
  | text s =>
    rw [stripKind] at hk
    split at hk
    · cases hk
    · cases hk
      rfl
  | conditional branches otherwise =>
    cases hk
    have bodies : ∀ b ∈ branches, KeepsFaults spans b.body := fun b hb =>
      h _ (List.mem_append_left _ (List.mem_map_of_mem hb))
    have other : ∀ b ∈ otherwise, KeepsFaults spans b := fun b hb =>
      h _ (List.mem_append_right _ (Option.mem_toList.mpr hb))
    simp only [NodeKind.findings, Finding.faults_append]
    rw [faults_stripBranches bodies, faults_stripOption other]
  | loop var iterable body otherwise =>
    cases hk
    have other : ∀ b ∈ otherwise, KeepsFaults spans b := fun b hb =>
      h _ (List.mem_cons_of_mem _ (Option.mem_toList.mpr hb))
    have inside := h body (List.mem_cons_self ..) e
    simp only [NodeKind.findings, Finding.faults_append]
    rw [inside, faults_stripOption other]
  | macroDef d =>
    obtain ⟨name, params, body, source, q⟩ := d
    cases hk
    have inside := h body (List.mem_singleton_self _)
    simp only [NodeKind.findings, stripDef, MacroDef.findings]
    split
    · rfl
    · simp only [Finding.faults_append]
      rw [inside]
      rfl
  | macroCall c =>
    obtain ⟨name, args, body, literal⟩ := c
    cases hk
    have inside : ∀ b ∈ body, KeepsFaults spans b := fun b hb => h b (Option.mem_toList.mpr hb)
    simp only [NodeKind.findings, stripCall, MacroCall.findings, Finding.faults_append]
    rw [faults_stripOption inside]
  | _ =>
    cases hk
    rfl

lemma keepsFaults_of_nodes {b : Block} (h : ∀ n ∈ b, ∀ c ∈ n.kind.subblocks, KeepsFaults spans c) :
    KeepsFaults spans b := by
  intro e
  induction b with
  | nil => rfl
  | cons n b ih =>
    obtain ⟨here, later⟩ := List.forall_mem_cons.mp h
    have rest := ih later
    obtain ⟨kind, p⟩ := n
    rw [stripBlock_eq] at rest ⊢
    rw [List.filterMap_cons, stripNode_eq, blockFindings, Finding.faults_append]
    cases hk : stripKind spans p.span.start kind with
    | none =>
      -- Only texts are dropped, and nothing is wrong with them.
      have text : ∃ s, kind = .text s := by
        by_contra notText
        obtain ⟨k', found⟩ := exists_stripKind spans p.span.start fun s hs => notText ⟨s, hs⟩
        rw [hk] at found
        cases found
      obtain ⟨s, rfl⟩ := text
      exact rest
    | some k' =>
      have node := faults_stripKind hk here e p
      show Finding.faults (NodeKind.findings e p k' ++ blockFindings e (b.filterMap _)) = _
      rw [Finding.faults_append, node, rest]
      rfl

/-- Gobbling leaves what is wrong with a block. -/
theorem keepsFaults_stripBlock (b : Block) : KeepsFaults spans b := by
  refine keepsFaults_of_nodes fun n hn c hc => ?_
  have smaller := Nat.lt_trans (Node.sizeOf_subblocks hc) (List.sizeOf_lt_of_mem hn)
  exact keepsFaults_stripBlock c
termination_by sizeOf b

end Gobbling

/-- What is wrong with a template does not depend on the policy. -/
lemma Block.faults_gobble (b : Block) (policy : GobblingPolicy) (cs : List Char) (m : MarkerSpans) (e : Enclosure) :
    Finding.faults (blockFindings e (b.gobble policy cs m)) = Finding.faults (blockFindings e b) := by
  unfold Block.gobble
  split
  · rfl
  · exact Gobbling.keepsFaults_stripBlock b e

end Stencil
