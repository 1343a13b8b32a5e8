import Stencil.Proofs.Reading.Derivation

/-!
# The rules of a block

A block is read node by node, by the first of its rules that matches. Main statement: `Rule.nodes_advance`, no
node is empty.
-/

namespace Stencil

variable {c d : Cursor} {ts : List (Tree Rule)}

/-- The rules that a block consists of, in the order in which they are tried. -/
def Rule.nodes : List Rule := [
  rawBlock, blockComment, lineComment, unterminated, escaped, ifDirective, foreachDirective, setDirective,
  macroDirective, parseDirective, includeDirective, evaluateDirective, stopDirective, breakDirective,
  blockMacroCall, macroCall, reference, Rule.text, stray]

/-- A node of a block: it does not start where the block ends. -/
def Rule.item : Peg Rule := .seq (.token (.absent blockEnd)) (.choice rawBlock nodes.tail)

lemma Rule.body_block : Rule.body .block = .phrase (.many item) := rfl

/-- What is read as a node has been read by one of the rules. -/
lemma Rule.derives_item (hd : Peg.Derives Rule.body item c d ts) :
    ∃ r ∈ nodes, ∃ us, ts = [.node r c d us] ∧ Peg.Derives Rule.body (.rule r) c d ts := by
  cases hd with
  | seq habsent hchoice =>
    cases habsent with
    | token hrun =>
      obtain rfl := Pattern.eq_of_run_absent hrun
      exact hchoice.of_choice

/-- The characters that text never holds. -/
def Rule.marks : List Char := ['#', '$', '\\']

/-- Every node but a text opens with one of these. -/
lemma Rule.openers_nodes : ∀ r ∈ Rule.nodes, r = .text ∨
    ∃ cs, Rule.body.openers 3 r = some cs ∧ ∀ x ∈ cs, x ∈ marks := by
  have checked : ∀ r ∈ Rule.nodes, r = .text ∨
      ((Rule.body.openers 3 r).any fun cs => cs.all (marks.contains ·)) = true := by
    decide +kernel
  intro r hr
  rcases checked r hr with text | opens
  · exact .inl text
  · obtain ⟨cs, hcs, all⟩ := (Option.any_eq_true _ _).mp opens
    refine .inr ⟨cs, hcs, fun x hx => ?_⟩
    exact List.contains_iff_mem.mp (List.all_eq_true.mp all x hx)

/-- No node is empty. -/
lemma Rule.nodes_advance {r : Rule} (hr : r ∈ Rule.nodes) (hd : Peg.Derives Rule.body (.rule r) c d ts) :
    c.offset < d.offset := by
  rcases Rule.openers_nodes r hr with rfl | ⟨cs, ho, -⟩
  · obtain ⟨p, hp⟩ : ∃ p, Rule.body .text = .word (.seq (.seq (.absent p) .any) (.many _)) := ⟨_, rfl⟩
    obtain ⟨hrun, -⟩ := hd.of_word hp
    obtain ⟨e, he, hmany⟩ := Option.bind_eq_some_iff.mp hrun
    obtain ⟨c', hc', hany⟩ := Option.bind_eq_some_iff.mp he
    obtain ⟨cs, hcs⟩ := Pattern.run_reaches hc'
    obtain ⟨x, -, hx⟩ := Cursor.next?_reaches hany
    obtain ⟨ds, hds⟩ := Pattern.run_reaches hmany
    have before := hcs.offset_le
    have after := hds.offset_le
    have read := hx.2
    have positive := x.utf8Size_pos
    simp only [utf8Length_cons, utf8Length_nil] at read
    omega
  · exact (hd.opened ho).lt

end Stencil
