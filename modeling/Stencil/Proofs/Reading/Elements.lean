import Mathlib.Data.List.Pairwise
import Stencil.Proofs.Reading.Sites

/-!
# Elements of trees and their places

Everything in a tree that has a position is an element of it. Exact positions lie between characters of the source
and count its lines and columns. Main statements: `Site.Mapped.exact_position`, what is read has an exact position, and
`Site.Mapped.within`, so has what is read from the content of a string.
-/

namespace Stencil

/-! ### Exact positions -/

/-- A position whose span is the characters `word` of a source, which stand after the characters `front`; its line
and its column count what stands before it. -/
structure Position.Cuts (s : Source) (p : Position) (front word back : List Char) : Prop where
  template : p.template = s.name
  text : s.text.toList = front ++ word ++ back
  span : p.span = ⟨utf8Length front, utf8Length (front ++ word)⟩
  line : p.line = 1 + front.count '\n'
  column : p.column = 1 + (front.reverse.takeWhile (· ≠ '\n')).length

/-- A position in a source: between characters, with the line and the column of its start. -/
def Position.Exact (s : Source) (p : Position) : Prop := ∃ front word back, p.Cuts s front word back

lemma lineColumnAfter_append (start : Nat × Nat) (cs ds : List Char) :
    lineColumnAfter start (cs ++ ds) = lineColumnAfter (lineColumnAfter start cs) ds := by
  induction cs generalizing start with
  | nil => rfl
  | cons c cs ih => exact ih _

/-- The column is one more than the number of characters after the last line feed. -/
lemma lineColumnAfter_snd (cs : List Char) :
    (lineColumnAfter (1, 1) cs).2 = 1 + (cs.reverse.takeWhile (· ≠ '\n')).length := by
  induction cs using List.reverseRecOn with
  | nil => rfl
  | append_singleton cs c ih =>
    rw [lineColumnAfter_append, List.reverse_append, List.reverse_singleton, List.singleton_append]
    by_cases hc : c = '\n'
    · simp [lineColumnAfter, hc]
    · simp [lineColumnAfter, hc, ih, Nat.add_assoc]

lemma Position.Exact.le {s : Source} {p : Position} (h : p.Exact s) : p.span.start ≤ p.span.stop := by
  obtain ⟨front, word, back, cuts⟩ := h
  rw [cuts.span, utf8Length_append]
  exact Nat.le_add_right _ _

/-- Of two parts that a text starts with, the one of fewer bytes starts the other. -/
lemma exists_append_of_utf8Length_le {front back front' back' : List Char}
    (h : front ++ back = front' ++ back') (le : utf8Length front ≤ utf8Length front') :
    ∃ word, front' = front ++ word := by
  rcases List.append_eq_append_iff.mp h with ⟨word, rfl, -⟩ | ⟨word, rfl, -⟩
  · exact ⟨word, rfl⟩
  · refine ⟨[], ?_⟩
    rw [utf8Length_append] at le
    cases word with
    | nil => simp only [List.append_nil]
    | cons c word =>
      have := c.utf8Size_pos
      rw [utf8Length_cons] at le
      omega

/-- From the start of an exact position to the end of a later one. -/
lemma Position.Exact.to {s : Source} {p q : Position} (hp : p.Exact s) (hq : q.Exact s)
    (le : p.span.start ≤ q.span.stop) : (p.to q).Exact s := by
  obtain ⟨front, word, back, cuts⟩ := hp
  obtain ⟨front', word', back', cuts'⟩ := hq
  have same : front ++ (word ++ back) = (front' ++ word') ++ back' := by
    rw [← List.append_assoc, ← cuts.text, cuts'.text]
  rw [cuts.span, cuts'.span] at le
  obtain ⟨between, join⟩ := exists_append_of_utf8Length_le same le
  refine ⟨front, between, back', cuts.template, ?_, ?_, cuts.line, cuts.column⟩
  · rw [← join, cuts'.text]
  · show (⟨p.span.start, q.span.stop⟩ : Span) = _
    rw [cuts.span, cuts'.span, ← join]

/-! ### Failures of reading -/

/-- A failure as it arises: nothing has been added to it, and its position, if it has one, is in the source. -/
structure Failure.Raised (s : Source) (f : Failure) : Prop where
  source : f.source = none
  trail : f.trail = []
  exact : ∀ p ∈ f.position, p.Exact s

lemma Failure.raised_of (s : Source) (cause : Cause) : (Failure.of cause).Raised s := ⟨rfl, rfl, nofun⟩

lemma Failure.raised_at {s : Source} {p : Position} (h : p.Exact s) (cause : Cause) :
    (Failure.at_ cause p).Raised s := by
  refine ⟨rfl, rfl, ?_⟩
  intro q hq
  obtain rfl := Option.some.inj hq
  exact h

/-! ### Elements -/

/-- A part of a tree that has a position. -/
inductive Element where
  | node (n : Node)
  | expr (e : Expr)
  | reference (r : Reference)
  | segment (s : Segment)
  | param (p : Param)
  | macroDef (d : MacroDef)

/-- The elements directly in a block. -/
def Block.elements (b : Block) : List Element := b.map .node

def Branch.elements (b : Branch) : List Element := .expr b.condition :: Block.elements b.body

def Entry.elements (e : Entry) : List Element := [.expr e.key, .expr e.value]

/-- The elements directly in a node, in the order in which they are written. -/
def NodeKind.elements : NodeKind → List Element
  | reference r => [.reference r]
  | conditional branches otherwise =>
    branches.flatMap Branch.elements ++ otherwise.toList.flatMap Block.elements
  | loop _ iterable body otherwise =>
    .expr iterable :: (Block.elements body ++ otherwise.toList.flatMap Block.elements)
  | assign target value => [.reference target, .expr value]
  | macroDef d => [.macroDef d]
  | macroCall c => c.args.map (.expr ·.value) ++ c.body.toList.flatMap Block.elements
  | parse name => [.expr name]
  | inclusion names => names.map .expr
  | evaluate e => [.expr e]
  | _ => []

/-- The elements directly in an expression, in the order in which they are written. -/
def ExprKind.elements : ExprKind → List Element
  | literal _ => []
  | interpolated body => Block.elements body
  | reference r => [.reference r]
  | list items => items.map .expr
  | map entries => entries.flatMap Entry.elements
  | range lower upper => [.expr lower, .expr upper]
  | unary _ operand => [.expr operand]
  | binary _ left right => [.expr left, .expr right]
  | bareWord _ => []

namespace Element

def position : Element → Position
  | node n => n.position
  | expr e => e.position
  | reference r => r.position
  | segment s => s.position
  | param p => p.position
  | macroDef d => d.position

abbrev span (p : Element) : Span := p.position.span

/-- The elements directly in an element, in the order in which they are written. -/
def children : Element → List Element
  | node n => n.kind.elements
  | expr e => e.kind.elements
  | reference r => r.segments.map segment
  | segment s => s.kind.exprs.map expr
  | param p => p.fallback.toList.map expr
  | macroDef d => d.params.map param ++ Block.elements d.body

/-- Whether an element that knows its source, a macro's definition, stands in the given one. -/
def Homed (s : Source) : Element → Prop
  | macroDef d => d.source = s
  | _ => True

/-- An element of a source and all elements in it have exact positions and know their source, the elements in an
element lie inside of it, and each of them ends before the next one starts. -/
inductive Placed (s : Source) : Element → Prop
  | intro {p : Element} : p.position.Exact s → p.Homed s → (∀ q ∈ p.children, q.span.Inside p.span) →
    p.children.Pairwise (fun q r => q.span.stop ≤ r.span.start) → (∀ q ∈ p.children, Placed s q) → Placed s p

/-- Elements of a source in a row inside a span: each of them ends before the next one starts. -/
structure Row (s : Source) (outer : Span) (ps : List Element) : Prop where
  inside : ∀ q ∈ ps, q.span.Inside outer
  ordered : ps.Pairwise fun q r => q.span.stop ≤ r.span.start
  placed : ∀ q ∈ ps, q.Placed s

variable {s : Source} {outer outer' : Span} {p : Element} {ps qs : List Element}

lemma Placed.exact (h : p.Placed s) : p.position.Exact s := by
  cases h with
  | intro exact_ _ _ _ _ => exact exact_

lemma Placed.homed (h : p.Placed s) : p.Homed s := by
  cases h with
  | intro _ homed _ _ _ => exact homed

lemma Placed.children (h : p.Placed s) : Row s p.span p.children := by
  cases h with
  | intro _ _ inside ordered placed => exact ⟨inside, ordered, placed⟩

lemma Row.element (h : Row s p.span p.children) (he : p.position.Exact s) (hh : p.Homed s) : p.Placed s :=
  .intro he hh h.inside h.ordered h.placed

lemma Row.nil : Row s outer [] := ⟨nofun, .nil, nofun⟩

lemma Row.singleton (h : p.Placed s) (hi : p.span.Inside outer) : Row s outer [p] :=
  ⟨List.forall_mem_singleton.mpr hi, List.pairwise_singleton _ _, List.forall_mem_singleton.mpr h⟩

lemma Row.head (h : Row s outer (p :: ps)) : p.Placed s ∧ p.span.Inside outer :=
  ⟨h.placed p (List.mem_cons_self ..), h.inside p (List.mem_cons_self ..)⟩

lemma Row.mono (h : Row s outer ps) (ho : outer.Inside outer') : Row s outer' ps :=
  ⟨fun q hq => (h.inside q hq).trans ho, h.ordered, h.placed⟩

/-- Some of the elements of a row are a row. -/
lemma Row.sublist (h : Row s outer qs) (hs : ps.Sublist qs) : Row s outer ps :=
  ⟨fun q hq => h.inside q (hs.subset hq), h.ordered.sublist hs, fun q hq => h.placed q (hs.subset hq)⟩

/-- A row and one that starts where it ends are a row. -/
lemma Row.append {lo mid hi : Nat} (hp : Row s ⟨lo, mid⟩ ps) (hq : Row s ⟨mid, hi⟩ qs) (hlo : lo ≤ mid)
    (hhi : mid ≤ hi) : Row s ⟨lo, hi⟩ (ps ++ qs) := by
  have lower : (⟨lo, mid⟩ : Span).Inside ⟨lo, hi⟩ := ⟨Nat.le_refl _, hhi⟩
  have upper : (⟨mid, hi⟩ : Span).Inside ⟨lo, hi⟩ := ⟨hlo, Nat.le_refl _⟩
  refine ⟨?_, ?_, ?_⟩
  · exact List.forall_mem_append.mpr ⟨(hp.mono lower).inside, (hq.mono upper).inside⟩
  · refine List.pairwise_append.mpr ⟨hp.ordered, hq.ordered, fun q hqp r hr => ?_⟩
    exact Nat.le_trans (hp.inside q hqp).stop (hq.inside r hr).start
  · exact List.forall_mem_append.mpr ⟨hp.placed, hq.placed⟩

end Element

/-! ### Where strings come from -/

/-- What is left of a string up to some character comes from the string up to some character. -/
lemma Quoted.exists_origin {offset : Nat} {cs front back : List Char}
    (h : (unescape offset cs).1 = front ++ back) :
    ∃ front' back', cs = front' ++ back' ∧
      (unescape offset cs).2[utf8Length front]? = some (offset + utf8Length front') := by
  have start (offset : Nat) (cs : List Char) : (unescape offset cs).2[0]? = some offset := by
    rw [← List.head?_eq_getElem?]
    exact head?_origins offset cs
  fun_induction unescape offset cs generalizing front with
  | case1 offset =>
    obtain ⟨rfl, -⟩ := List.append_eq_nil_iff.mp h.symm
    exact ⟨[], [], rfl, rfl⟩
  | case2 offset cs content origins hr ih =>
    cases front with
    | nil => exact ⟨[], _, rfl, rfl⟩
    | cons c front =>
      obtain ⟨rfl, rest⟩ := List.cons.inj h
      rw [hr] at ih
      obtain ⟨front', back', rfl, found⟩ := ih rest
      refine ⟨'\\' :: '"' :: front', back', rfl, ?_⟩
      have quote : ('"' : Char).utf8Size = 1 := rfl
      have backslash : ('\\' : Char).utf8Size = 1 := rfl
      rw [utf8Length_cons, quote, Nat.add_comm, List.getElem?_cons_succ, found]
      simp only [utf8Length_cons, quote, backslash, Option.some.injEq]
      omega
  | case3 offset c cs _ content origins hr ih =>
    cases front with
    | nil =>
      refine ⟨[], _, rfl, ?_⟩
      obtain ⟨k, hk⟩ := Nat.exists_eq_add_one.mpr c.utf8Size_pos
      rw [hk, List.range_succ_eq_map]
      rfl
    | cons d front =>
      obtain ⟨rfl, rest⟩ := List.cons.inj h
      rw [hr] at ih
      obtain ⟨front', back', rfl, found⟩ := ih rest
      refine ⟨c :: front', back', rfl, ?_⟩
      have length : ((List.range c.utf8Size).map (offset + ·)).length = c.utf8Size := by
        rw [List.length_map, List.length_range]
      rw [utf8Length_cons, List.getElem?_append_right (by omega), length, Nat.add_sub_cancel_left, found,
        utf8Length_cons, Nat.add_assoc]

/-- A site of a template's text: what it reads up to some character comes from the template up to some
character. -/
structure Site.Mapped (site : Site) (quoted : Bool) (text : List Char) : Prop where
  regular : site.Regular quoted text
  chars : site.chars = site.source.text.toList
  cut : ∀ {front back}, text = front ++ back → ∃ front' back', site.chars = front' ++ back' ∧
    site.absolute (utf8Length front) = utf8Length front'

namespace Site

variable {site : Site} {quoted : Bool} {text w : List Char} {c d : Cursor}

/-- Where the content of a string is read, it comes from the template character by character. -/
theorem Mapped.within (h : site.Mapped quoted text) {front w back content : List Char} {origins : List Nat}
    (ht : text = front ++ w ++ back) (hw : Quoted.unescape (utf8Length front) w = (content, origins)) :
    (site.within origins).Mapped true content := by
  refine ⟨(h.regular.within ht hw).1, h.chars, ?_⟩
  intro first last hc
  have content_eq : (Quoted.unescape (utf8Length front) w).1 = first ++ last := by rw [hw, hc]
  obtain ⟨front', back', rfl, found⟩ := Quoted.exists_origin content_eq
  rw [hw] at found
  rw [site.absolute_within found, ← utf8Length_append]
  exact h.cut (by rw [ht, List.append_assoc, List.append_assoc, ← List.append_assoc front])

/-- A span between characters of the template is an exact position of it. -/
lemma cuts_positionOf (chars : site.chars = site.source.text.toList) {front word back : List Char}
    (h : site.chars = front ++ word ++ back) :
    (site.positionOf ⟨utf8Length front, utf8Length (front ++ word)⟩).Cuts site.source front word back := by
  have read : takeBytes (utf8Length front) site.chars = front := by
    rw [h, List.append_assoc]
    exact takeBytes_append front _
  refine ⟨rfl, chars.symm.trans h, rfl, ?_, ?_⟩
  · show (lineColumnAfter (1, 1) (takeBytes (utf8Length front) site.chars)).1 = _
    rw [read, lineColumnAfter_fst]
  · show (lineColumnAfter (1, 1) (takeBytes (utf8Length front) site.chars)).2 = _
    rw [read, lineColumnAfter_snd]

lemma Mapped.exact_positionOf (h : site.Mapped quoted text) {front back front' back' : List Char}
    (ht : text = front ++ back) (ht' : text = front' ++ back')
    (le : utf8Length front ≤ utf8Length front') :
    (site.positionOf ⟨site.absolute (utf8Length front), site.absolute (utf8Length front')⟩).Exact site.source := by
  obtain ⟨first, last, hc, hf⟩ := h.cut ht
  obtain ⟨first', last', hc', hf'⟩ := h.cut ht'
  have within : utf8Length front' ≤ utf8Length text := by
    rw [ht', utf8Length_append]
    exact Nat.le_add_right _ _
  have le' := h.regular.absolute_le le within
  rw [hf, hf'] at le'
  obtain ⟨word, rfl⟩ := exists_append_of_utf8Length_le (hc.symm.trans hc') le'
  rw [hf, hf']
  exact ⟨first, word, last', cuts_positionOf h.chars hc'⟩

/-- What is read has an exact position. -/
lemma Mapped.exact_position (h : site.Mapped quoted text) (hb : ∃ front, (Cursor.start text).Reaches c front)
    (hr : c.Reaches d w) : (site.position c d).Exact site.source := by
  obtain ⟨front, ht, hc, hd⟩ := Read.parts ⟨h.regular, hb, hr⟩
  unfold position
  rw [hc, hd]
  refine h.exact_positionOf (ht.trans (List.append_assoc ..)) ht ?_
  rw [utf8Length_append]
  exact Nat.le_add_right _ _

end Site

end Stencil
