import Stencil.Proofs.Fitness
import Stencil.Proofs.Reading
import Stencil.Proofs.Reading.Placing
import Stencil.Proofs.Reading.Refusals

/-!
# Every position is exact

In a template that parses, under whatever policy, every position lies between characters of the text and counts its
lines and columns, also in strings in strings, and what a position covers lies in order in what it is part of. Main
statements: `parse_placed`, and `raised_of_parse` for a text that does not parse.
-/

namespace Stencil

/-! ### Blocks -/

section

variable {site : Site} {inner : Site → List Char → Except Failure Block} {quoted : Bool} {text : List Char}

/-- The block of a template lies in the template's place. -/
lemma Rule.meets_block (hi : ReadsInPlace site.source inner) (hmade : MakesParts site inner)
    (hm : site.Mapped quoted text) {t : Tree Rule} (ht : readTree text = .ok t) :
    Meets (Failure.Raised site.source)
      (fun part => ∀ b, part = .block b →
        Element.Row site.source ⟨site.absolute 0, site.absolute (utf8Length text)⟩ (Block.elements b))
      (t.eval (meaning site inner)) := by
  obtain ⟨d, derived⟩ := exists_derives_of_readTree ht
  have chain := Part.inPlace_of_derives hi hmade hm derived ⟨[], .refl _⟩
  obtain ⟨w, hw⟩ := derived.reaches
  have within : d.offset ≤ utf8Length text := by
    have stop : d.offset = 0 + utf8Length w := hw.2
    have read : text = w ++ d.rest := hw.1
    have length := congrArg utf8Length read
    rw [utf8Length_append] at length
    omega
  rw [Tree.evalAll] at chain
  cases he : t.eval (meaning site inner) with
  | error f =>
    rw [he] at chain
    exact chain
  | ok part =>
    rw [he] at chain
    rintro b rfl
    have chain : Part.Chain site text _ _ [.block b] := chain
    have row : Element.Row site.source _ (Block.elements b) := chain.head
    exact row.mono ⟨Nat.le_refl _, hm.regular.absolute_le within (Nat.le_refl _)⟩

/-- What is read from a text lies in the text's place, however deep strings are nested. -/
theorem readsInPlace_readBlock (s : Source) (depth : Nat) : ReadsInPlace s (readBlock depth) := by
  induction depth with
  | zero => exact fun _ _ => Failure.raised_of _ _
  | succ depth ih =>
    intro site quoted text hs hm
    subst hs
    have hmade : Rule.MakesParts site (readBlock depth) := fun m =>
      Rule.meets_match (meets_readBlock_orderly depth) m
    unfold readBlock
    cases ht : readTree text with
    | error refusal =>
      obtain ⟨_, _, _, _, _, points⟩ := Site.points_refused hm ht
      exact points.raised
    | ok t =>
      have block := Rule.meets_block ih hmade hm ht
      dsimp only
      cases he : t.eval (Rule.meaning site (readBlock depth)) with
      | error f =>
        rw [he] at block
        exact block
      | ok part =>
        rw [he] at block
        cases part with
        | block b => exact block b rfl
        | _ => exact Failure.raised_of _ _

end

/-! ### Gobbling -/

/-- What holds of elements and of what is made of some of them, each in its place, holds of a row. -/
lemma Element.Row.filterMap {s : Source} {outer : Span} {es : List Element} (h : Row s outer es)
    {f : Element → Option Element} (hf : ∀ e ∈ es, ∀ x ∈ f e, x.Placed s ∧ x.position = e.position) :
    Row s outer (es.filterMap f) := by
  have same {e x : Element} (he : e ∈ es) (hx : x ∈ f e) : x.span = e.span := by
    unfold span
    rw [(hf e he x hx).2]
  refine ⟨?_, ?_, ?_⟩
  · intro x hx
    obtain ⟨e, he, hx⟩ := List.mem_filterMap.mp hx
    rw [same he hx]
    exact h.inside e he
  · refine List.pairwise_filterMap.mpr (h.ordered.imp_of_mem fun he he' le x hx y hy => ?_)
    rw [same he hx, same he' hy]
    exact le
  · intro x hx
    obtain ⟨e, he, hx⟩ := List.mem_filterMap.mp hx
    exact (hf e he x hx).1

namespace Gobbling

/-- What is left of an element. -/
def stripElement (spans : List Span) : Element → Option Element
  | .node n => (stripNode spans n).map .node
  | .macroDef d => some (.macroDef (stripDef spans d))
  | e => some e

variable (spans : List Span)

lemma elements_stripBlock (b : Block) :
    Block.elements (stripBlock spans b) = (Block.elements b).filterMap (stripElement spans) := by
  unfold Block.elements
  rw [stripBlock_eq, List.filterMap_map, List.map_filterMap]
  rfl

lemma elements_stripOption (o : Option Block) :
    (stripOption spans o).toList.flatMap Block.elements =
      (o.toList.flatMap Block.elements).filterMap (stripElement spans) := by
  cases o with
  | none => rfl
  | some b =>
    show Block.elements (stripBlock spans b) ++ [] = (Block.elements b ++ []).filterMap _
    rw [List.append_nil, List.append_nil, elements_stripBlock]

lemma elements_stripBranches (bs : List Branch) :
    (stripBranches spans bs).flatMap Branch.elements =
      (bs.flatMap Branch.elements).filterMap (stripElement spans) := by
  induction bs with
  | nil => rfl
  | cons b bs ih =>
    obtain ⟨condition, body⟩ := b
    rw [List.flatMap_cons, List.filterMap_append, ← ih]
    show (.expr condition :: Block.elements (stripBlock spans body)) ++ _ = _
    rw [elements_stripBlock]
    rfl

lemma filterMap_exprs (es : List Expr) : (es.map Element.expr).filterMap (stripElement spans) = es.map .expr := by
  rw [List.filterMap_map]
  exact List.filterMap_eq_map ▸ rfl

lemma filterMap_params (ps : List Param) : (ps.map Element.param).filterMap (stripElement spans) = ps.map .param := by
  rw [List.filterMap_map]
  exact List.filterMap_eq_map ▸ rfl

/-- What is left of a node is in order what is left of its elements. -/
lemma elements_stripKind {offset : Nat} {k k' : NodeKind} (h : stripKind spans offset k = some k') :
    k'.elements = k.elements.filterMap (stripElement spans) := by
  cases k with
  | text s =>
    rw [stripKind] at h
    split at h
    · cases h
    · cases h
      rfl
  | conditional branches otherwise =>
    cases h
    show (stripBranches spans branches).flatMap Branch.elements ++
      (stripOption spans otherwise).toList.flatMap Block.elements = _
    rw [elements_stripBranches, elements_stripOption, ← List.filterMap_append]
    rfl
  | loop var e body otherwise =>
    cases h
    show .expr e :: (Block.elements (stripBlock spans body) ++
      (stripOption spans otherwise).toList.flatMap Block.elements) = _
    rw [elements_stripBlock, elements_stripOption, ← List.filterMap_append]
    rfl
  | macroDef d =>
    cases h
    rfl
  | macroCall c =>
    obtain ⟨name, args, body, literal⟩ := c
    cases h
    show args.map (Element.expr ·.value) ++ (stripOption spans body).toList.flatMap Block.elements =
      (args.map (Element.expr ·.value) ++ body.toList.flatMap Block.elements).filterMap _
    have arguments := filterMap_exprs spans (args.map (·.value))
    rw [List.map_map] at arguments
    rw [List.filterMap_append, elements_stripOption]
    exact congrArg (· ++ _) arguments.symm
  | reference r => cases h; rfl
  | assign target value => cases h; rfl
  | parse name => cases h; rfl
  | inclusion names =>
    cases h
    exact (filterMap_exprs spans names).symm
  | evaluate e => cases h; rfl
  | escaped s => cases h; rfl
  | raw s => cases h; rfl
  | comment => cases h; rfl
  | stop => cases h; rfl
  | leave scope => cases h; rfl

/-- What is left of an element stays in its place. -/
theorem placed_stripElement {s : Source} {e : Element} (h : e.Placed s) :
    ∀ x ∈ stripElement spans e, x.Placed s ∧ x.position = e.position := by
  induction h with
  | @intro e exact_ homed inside ordered placed ih =>
    intro x hx
    have row : Element.Row s e.span e.children := ⟨inside, ordered, placed⟩
    have left := row.filterMap ih
    cases e with
    | node n =>
      obtain ⟨m, hm, rfl⟩ := Option.map_eq_some_iff.mp hx
      obtain ⟨kind, p⟩ := n
      obtain ⟨k', hk, rfl⟩ :=
        Option.map_eq_some_iff.mp (show (stripKind spans p.span.start kind).map (⟨·, p⟩) = some m from hm)
      refine ⟨Element.Row.element ?_ exact_ trivial, rfl⟩
      show Element.Row s p.span k'.elements
      rw [elements_stripKind spans hk]
      exact left
    | macroDef d =>
      obtain rfl := Option.some.inj hx
      obtain ⟨name, params, body, source, p⟩ := d
      refine ⟨Element.Row.element ?_ exact_ homed, rfl⟩
      show Element.Row s p.span (params.map .param ++ Block.elements (stripBlock spans body))
      rw [elements_stripBlock, ← filterMap_params spans params, ← List.filterMap_append]
      exact left
    | expr e =>
      obtain rfl := Option.some.inj hx
      exact ⟨row.element exact_ trivial, rfl⟩
    | reference r =>
      obtain rfl := Option.some.inj hx
      exact ⟨row.element exact_ trivial, rfl⟩
    | segment t =>
      obtain rfl := Option.some.inj hx
      exact ⟨row.element exact_ trivial, rfl⟩
    | param q =>
      obtain rfl := Option.some.inj hx
      exact ⟨row.element exact_ trivial, rfl⟩

end Gobbling

/-- Gobbling leaves what it leaves in its place. -/
lemma Element.Row.gobble {s : Source} {outer : Span} {b : Block} (h : Row s outer (Block.elements b))
    (policy : GobblingPolicy) (cs : List Char) (m : MarkerSpans) :
    Row s outer (Block.elements (b.gobble policy cs m)) := by
  unfold Block.gobble
  split
  · exact h
  · rw [Gobbling.elements_stripBlock]
    exact h.filterMap fun e he => Gobbling.placed_stripElement _ (h.placed e he)

/-! ### Templates -/

/-- A source is mapped to itself. -/
lemma Site.mapped_ofSource (s : Source) : (Site.ofSource s).Mapped false s.text.toList :=
  ⟨Site.regular_ofSource s, rfl, fun {front back} ht => ⟨front, back, ht, rfl⟩⟩

/-- What a source is read as lies in its place, or the failure points into the source. -/
lemma meets_parseTree (s : Source) :
    Meets (Failure.Raised s) (fun found => Element.Row s ⟨0, s.text.utf8ByteSize⟩ (Block.elements found.1))
      (parseTree s) := by
  have origin : (Site.ofSource s).source = s := rfl
  have read := readsInPlace_readBlock s (stringDepth s.text.toList + 1) origin (Site.mapped_ofSource s)
  rw [utf8Length_toList, ← map_parseTree] at read
  cases ht : parseTree s with
  | error f =>
    rw [ht] at read
    exact read
  | ok found =>
    rw [ht] at read
    exact read

/-- In a template that parses, every position is exact: the nodes of the block lie in order in the text, and each of
them, and everything in it, lies between characters of the text, with its line and its column, inside what it is part
of and before what follows it there. -/
theorem parse_placed {s : Source} {policy : GobblingPolicy} {b : Block} (h : parse s policy = .ok b) :
    Element.Row s ⟨0, s.text.utf8ByteSize⟩ (Block.elements b) := by
  have read := meets_parseTree s
  unfold parse at h
  cases ht : parseTree s with
  | error f =>
    rw [ht] at h
    cases h
  | ok found =>
    obtain ⟨root, spans⟩ := found
    rw [ht] at h read
    cases h
    exact Element.Row.gobble read policy _ _

/-- A string in a string with escaped quotes, operators, characters of several bytes and more than one line. -/
theorem parse_placed_nested : ∃ b,
    parse ⟨"t", "é\n#set($a = -1 + \"x$b[\\\"é$c\\\"]\")\n#macro(m $p=(2))$p#end"⟩ .lines = .ok b ∧
      Element.Row ⟨"t", "é\n#set($a = -1 + \"x$b[\\\"é$c\\\"]\")\n#macro(m $p=(2))$p#end"⟩ ⟨0, 57⟩
        (Block.elements b) := by
  have parses : (match parse ⟨"t", "é\n#set($a = -1 + \"x$b[\\\"é$c\\\"]\")\n#macro(m $p=(2))$p#end"⟩ .lines with
      | .ok _ => true
      | .error _ => false) = true := by
    decide +kernel
  split at parses
  · next b hb => exact ⟨b, hb, parse_placed hb⟩
  · cases parses

/-- A source that does not parse is refused with one failure, which points into it. -/
theorem raised_of_parse {s : Source} {policy : GobblingPolicy} {e : TemplateError} (h : parse s policy = .error e) :
    ∃ f : Failure, e = .single (f.inSource s) ∧ f.Raised s := by
  obtain ⟨f, failed, rfl⟩ := parse_eq_error_iff.mp h
  have read := meets_parseTree s
  rw [failed] at read
  exact ⟨f, rfl, read⟩

end Stencil
