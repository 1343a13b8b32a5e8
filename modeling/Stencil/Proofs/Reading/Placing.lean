import Stencil.Proofs.Reading.Operands
import Stencil.Proofs.Reading.Rows

/-!
# Meanings have their places

What a match stands for lies where the match lies: every element that it makes has an exact position, and the elements
in it lie in order. Main statements: `Rule.meets_place`, for every rule, and `Part.inPlace_of_derives`, for all matches.
-/

namespace Stencil

/-! ### Joined texts -/

lemma Element.Row.cons {s : Source} {lo hi : Nat} {p : Element} {ps : List Element} (hp : p.Placed s)
    (hlo : lo ≤ p.span.start) (hhi : p.span.stop ≤ hi) (hr : Row s ⟨p.span.stop, hi⟩ ps) :
    Row s ⟨lo, hi⟩ (p :: ps) := by
  have first : Row s ⟨lo, p.span.stop⟩ [p] := .singleton hp ⟨hlo, Nat.le_refl _⟩
  exact first.append hr (Nat.le_trans hlo hp.exact.le) hhi

lemma Element.Row.uncons {s : Source} {lo hi : Nat} {p : Element} {ps : List Element}
    (h : Row s ⟨lo, hi⟩ (p :: ps)) :
    p.Placed s ∧ lo ≤ p.span.start ∧ p.span.stop ≤ hi ∧ Row s ⟨p.span.stop, hi⟩ ps := by
  obtain ⟨placed, inside⟩ := h.head
  have rest := h.sublist (List.sublist_cons_self _ _)
  refine ⟨placed, inside.start, inside.stop, fun q hq => ⟨?_, (rest.inside q hq).stop⟩, rest.ordered,
    rest.placed⟩
  exact (List.pairwise_cons.mp h.ordered).1 q hq

/-- Two texts that are joined make a text over both. -/
lemma Node.placed_join? {s : Source} {m n k : Node} (h : m.join? n = some k) (hm : (Element.node m).Placed s)
    (hn : (Element.node n).Placed s) (le : m.position.span.stop ≤ n.position.span.start) :
    (Element.node k).Placed s ∧ k.position.span = ⟨m.position.span.start, n.position.span.stop⟩ := by
  have whole : m.position.span.start ≤ n.position.span.stop :=
    Nat.le_trans hm.exact.le (Nat.le_trans le hn.exact.le)
  unfold join? at h
  split at h
  · split at h
    · cases h
      exact ⟨Element.Row.element .nil (hm.exact.to hn.exact whole) trivial, rfl⟩
    · cases h
  · cases h

/-- Joining texts leaves a row a row. -/
lemma Block.row_joinTexts {s : Source} {lo hi : Nat} {b : Block} (h : Element.Row s ⟨lo, hi⟩ b.elements) :
    Element.Row s ⟨lo, hi⟩ (joinTexts b).elements := by
  induction b generalizing lo with
  | nil => exact h
  | cons n b ih =>
    obtain ⟨placed, start, stop, rest⟩ := h.uncons
    have joined := ih rest
    unfold joinTexts
    cases hj : joinTexts b with
    | nil => exact .singleton placed ⟨start, stop⟩
    | cons m ms =>
      rw [hj] at joined
      dsimp only
      split
      · next k hk =>
        obtain ⟨placed', start', stop', rest'⟩ := joined.uncons
        obtain ⟨both, span⟩ := Node.placed_join? hk placed placed' start'
        have whole : (Element.node k).span = ⟨(Element.node n).span.start, (Element.node m).span.stop⟩ := span
        refine .cons both ?_ ?_ ?_
        · rw [whole]
          exact start
        · rw [whole]
          exact stop'
        · rw [whole]
          exact rest'
      · exact .cons placed start stop joined

/-! ### Branches -/

namespace Part

variable {site : Site} {text : List Char} {lo hi : Nat} {parts : List Part}

lemma Chain.branches (h : Chain site text lo hi parts) :
    Element.Row site.source ⟨lo, hi⟩ ((Part.branches parts).flatMap Branch.elements) := by
  induction h with
  | nil _ => exact .nil
  | @cons lo mid hi part parts le rests rest ih =>
    have later : Element.Row site.source ⟨lo, hi⟩ ((Part.branches parts).flatMap Branch.elements) :=
      ih.mono ⟨le, Nat.le_refl _⟩
    cases part with
    | branch b => exact Element.Row.append rests ih le rest.le
    | _ => exact later

lemma branches_append (ps qs : List Part) : branches (ps ++ qs) = branches ps ++ branches qs :=
  List.filterMap_append

/-- Branches hold no block of an `#else`. -/
lemma otherwise?_append {ps : List Part} (hp : ∀ p ∈ ps, ∃ r ∈ [Rule.elseifBranch], r.Makes p)
    (qs : List Part) :
    otherwise? (ps ++ qs) = otherwise? qs := by
  induction ps with
  | nil => rfl
  | cons p ps ih =>
    obtain ⟨⟨r, hr, made⟩, later⟩ := List.forall_mem_cons.mp hp
    obtain rfl := List.mem_singleton.mp hr
    obtain ⟨b, rfl, -⟩ := made
    exact ih later

/-- What ends a directive with a body: an `#else` with its block, or nothing but the `#end`. -/
lemma Chain.ending (h : Chain site text lo hi parts)
    (hf : Slot.FillsOne Rule.Makes [[.one [.endMarker]], [.one [.elseBranch], .one [.endMarker]]] parts) :
    Part.branches parts = [] ∧
      Element.Row site.source ⟨lo, hi⟩ ((otherwise? parts).toList.flatMap Block.elements) := by
  rcases hf.cases with filled | hf
  · obtain ⟨last, rfl, rfl⟩ := filled.single
    exact ⟨rfl, .nil⟩
  · obtain ⟨other, last, rfl, ⟨b, rfl, -⟩, rfl⟩ := hf.filled.pair
    refine ⟨rfl, ?_⟩
    have here : Element.Row site.source ⟨lo, hi⟩ (Block.elements b) := h.head
    show Element.Row site.source ⟨lo, hi⟩ (Block.elements b ++ [])
    rwa [List.append_nil]

/-! ### Paths -/

lemma Chain.pathOf (h : Chain site text lo hi parts) :
    Meets (Failure.Raised site.source) (fun found => Element.Row site.source ⟨lo, hi⟩ (found.2.map .segment))
      (Part.pathOf parts) := by
  unfold Part.pathOf
  split
  · exact h.head
  · obtain ⟨mid, -, le, behind, -⟩ := h.uncons
    exact (behind.mapM_single keeps_toSegment).bind fun segments _ hs => hs.mono ⟨le, Nat.le_refl _⟩
  · exact Failure.raised_of _ _

lemma Chain.referenceOf {literal : String} {p : Position} (h : Chain site text lo hi parts) :
    Meets (Failure.Raised site.source)
      (fun r : Reference => r.position = p ∧ Element.Row site.source ⟨lo, hi⟩ (r.segments.map .segment))
      (Part.referenceOf literal p parts) := by
  unfold Part.referenceOf
  split
  · next isQuiet rest heq =>
    have path : Meets (Failure.Raised site.source)
        (fun found => Element.Row site.source ⟨lo, hi⟩ (found.2.map .segment)) (Part.pathOf rest) := by
      split at heq
      · cases heq
        obtain ⟨mid, -, le, behind, -⟩ := h.uncons
        exact behind.pathOf.mono fun found hf => hf.mono ⟨le, Nat.le_refl _⟩
      · cases heq
        exact h.pathOf
    exact path.bind fun found _ hf => ⟨rfl, hf⟩

end Part

/-! ### Operators and operands -/

namespace Rule

open Slot (Filled FillsOne)

variable {site : Site} {inner : Site → List Char → Except Failure Block} {quoted : Bool} {text w : List Char}
  {c d e : Cursor} {ts us : List (Tree Rule)} {parts ps qs : List Part}

/-- Whether the rules make parts of their kinds, as far as they do not fail. -/
def MakesParts (site : Site) (inner : Site → List Char → Except Failure Block) : Prop :=
  ∀ {text r c d ps}, Grammar.Match body (meaning site inner) Makes text r c d ps →
    Meets (fun _ => True) r.Makes (r.meaning site inner c d ps)

lemma MakesParts.fills (hmade : MakesParts site inner) {g : Peg Rule} (hd : Peg.Derives body g c d ts)
    (hc : c.rest <:+ text) (hp : Tree.evalAll (meaning site inner) ts = .ok parts) :
    FillsOne Makes g.rows parts := by
  have meets : Meets (fun _ => True) (FillsOne Makes g.rows) (Tree.evalAll (meaning site inner) ts) :=
    Peg.filled_of_derives hmade hd hc
  rw [hp] at meets
  exact meets

/-- A rule that reads a part of a text, where that part has a meaning. -/
lemma MakesParts.match_ (hmade : MakesParts site inner) {r : Rule}
    (hd : Peg.Derives body (.rule r) c d [.node r c d ts]) (hc : c.rest <:+ text)
    (hp : Tree.evalAll (meaning site inner) ts = .ok parts) :
    Grammar.Match body (meaning site inner) Makes text r c d parts := by
  refine ⟨hc, ⟨ts, hd, hp⟩, fun g hg => ?_⟩
  obtain ⟨us, hus, derived⟩ := hd.of_phrase hg
  cases hus
  exact hmade.fills derived hc hp

/-- Every tree that is read makes a part of its rule's kind. -/
lemma MakesParts.forall (hmade : MakesParts site inner) {g : Peg Rule} (hd : Peg.Derives body g c d ts)
    (hc : c.rest <:+ text) (hp : Tree.evalAll (meaning site inner) ts = .ok parts) :
    List.Forall₂ (fun (t : Tree Rule) p => t.rule.Makes p) ts parts := by
  have single {r : Rule} {c d : Cursor} {ts : List (Tree Rule)} {parts : List Part} (hc : c.rest <:+ text)
      (hd : Peg.Derives body (.rule r) c d [.node r c d ts])
      (hp : Tree.evalAll (meaning site inner) [.node r c d ts] = .ok parts) :
      List.Forall₂ (fun (t : Tree Rule) p => t.rule.Makes p) [.node r c d ts] parts := by
    have filled : FillsOne Makes [[.one [r]]] parts := hmade.fills hd hc hp
    obtain ⟨r', hr, p, rfl, made⟩ := filled.filled.eq_singleton
    obtain rfl := List.mem_singleton.mp hr
    exact .cons made .nil
  have append {g : Peg Rule} {c d : Cursor} {ts us : List (Tree Rule)} {parts : List Part} (hc : c.rest <:+ text)
      (hd : Peg.Derives body g c d ts) (hp : Tree.evalAll (meaning site inner) (ts ++ us) = .ok parts)
      (front : ∀ {ps}, c.rest <:+ text → Tree.evalAll (meaning site inner) ts = .ok ps →
        List.Forall₂ (fun (t : Tree Rule) p => t.rule.Makes p) ts ps)
      (back : ∀ {ps}, d.rest <:+ text → Tree.evalAll (meaning site inner) us = .ok ps →
        List.Forall₂ (fun (t : Tree Rule) p => t.rule.Makes p) us ps) :
      List.Forall₂ (fun (t : Tree Rule) p => t.rule.Makes p) (ts ++ us) parts := by
    obtain ⟨ps, qs, hps, hqs, rfl⟩ := Tree.evalAll_append _ hp
    obtain ⟨w, hw⟩ := hd.reaches
    exact List.rel_append (front hc hps) (back (hw.suffix hc) hqs)
  induction hd generalizing parts with
  | token _ =>
    cases hp
    exact .nil
  | seq hg _ ihg ihh => exact append hc hg hp ihg ihh
  | left _ ih => exact ih hc hp
  | right _ ih => exact ih hc hp
  | done =>
    cases hp
    exact .nil
  | more hg _ ihg ihh => exact append hc hg hp ihg ihh
  | skipped =>
    cases hp
    exact .nil
  | taken _ ih => exact ih hc hp
  | word hb hr => exact single hc (.word hb hr) hp
  | phrase hb hg _ => exact single hc (.phrase hb hg) hp

lemma operand_of_makes (h : Tree.Operand ts) (hp : List.Forall₂ (fun (t : Tree Rule) p => t.rule.Makes p) ts ps) :
    Part.Operand ps := by
  induction h generalizing ps with
  | value hr =>
    obtain ⟨p, qs, made, rest, rfl⟩ := List.forall₂_cons_left_iff.mp hp
    cases rest
    rcases makes_value hr made with ⟨e, rfl, -⟩ | ⟨q, rfl, -⟩
    · exact .expr e
    · exact .reference q
  | unary hr _ ih =>
    obtain ⟨p, qs, made, rest, rfl⟩ := List.forall₂_cons_left_iff.mp hp
    obtain ⟨op, q, rfl⟩ := makes_unary hr made
    exact .unary op q (ih rest)

lemma operands_of_makes (h : Tree.Operands ts) (hp : List.Forall₂ (fun (t : Tree Rule) p => t.rule.Makes p) ts ps) :
    Part.Operands ps := by
  induction h generalizing ps with
  | nil =>
    cases hp
    exact .nil
  | binary hr operand _ ih =>
    obtain ⟨p, qs, made, rest, rfl⟩ := List.forall₂_cons_left_iff.mp hp
    obtain ⟨op, rfl⟩ := makes_binary hr made
    obtain ⟨front, back, rfl, here, later⟩ := exists_append_of_forall₂ rest
    exact .binary op (operand_of_makes operand here) (ih later)

/-- Between operators, an expression has operands with operators in front of them. -/
lemma operation_of_derives (hmade : MakesParts site inner)
    (hd : Peg.Derives body (.rule expr) c d [.node expr c d ts]) (hc : c.rest <:+ text)
    (hp : Tree.evalAll (meaning site inner) ts = .ok parts) : Part.Operation parts := by
  obtain ⟨us, vs, rfl, operand, operands⟩ := Tree.expression_of_derives hd
  obtain ⟨us', hus, derived⟩ := hd.of_phrase rfl
  cases hus
  obtain ⟨ps, qs, rfl, here, later⟩ := exists_append_of_forall₂ (hmade.forall derived hc hp)
  exact ⟨ps, qs, rfl, operand_of_makes operand here, operands_of_makes operands later⟩

end Rule

/-! ### Meanings -/

/-- Whether what is read from a text lies in the text's place in a source. -/
def ReadsInPlace (s : Source) (inner : Site → List Char → Except Failure Block) : Prop :=
  ∀ {site : Site} {quoted : Bool} {text : List Char}, site.source = s → site.Mapped quoted text →
    Meets (Failure.Raised s)
      (fun b => Element.Row s ⟨site.absolute 0, site.absolute (utf8Length text)⟩ (Block.elements b))
      (inner site text)

section

variable {site : Site} {inner : Site → List Char → Except Failure Block} {quoted : Bool} {text : List Char}
  {c d e : Cursor} {ts us : List (Tree Rule)} {parts : List Part}

lemma ExprKind.meets_ofQuoted (hi : ReadsInPlace site.source inner) (hm : site.Mapped quoted text) {outer : Span}
    {content : List Char} {start : Nat} (hw : Part.Rests site text outer (.word content start)) :
    Meets (Failure.Raised site.source) (fun k : ExprKind => Element.Row site.source outer k.elements)
      (ofQuoted site inner content start) := by
  obtain ⟨front, back, ht, rfl, lo, hi'⟩ := hw
  unfold ofQuoted
  rcases hu : Quoted.unescape (utf8Length front) content with ⟨unescaped, origins⟩
  dsimp only
  split
  · exact Element.Row.nil
  · obtain ⟨-, first, last⟩ := hm.regular.within ht hu
    have same : (site.within origins).source = site.source := rfl
    have read := hi same (hm.within ht hu)
    refine read.bind fun b _ hb => ?_
    split
    · exact Element.Row.nil
    · rw [first, last] at hb
      exact hb.mono ⟨lo, hi'⟩

/-- What the match of a rule stands for lies where the match lies, and where it stands for nothing, the failure
points there. -/
theorem Rule.meets_place (hi : ReadsInPlace site.source inner) (hmade : MakesParts site inner)
    (hm : site.Mapped quoted text) (hb : ∃ front, (Cursor.start text).Reaches c front) {r : Rule}
    (m : Grammar.Match body (meaning site inner) Makes text r c d parts)
    (hc : Part.Chain site text (site.absolute c.offset) (site.absolute d.offset) parts) :
    Meets (Failure.Raised site.source) (Part.Rests site text (site.position c d).span)
      (r.meaning site inner c d parts) := by
  obtain ⟨ts, derived, hts⟩ := m.derived
  obtain ⟨w, hw⟩ := derived.reaches
  have hp : ∀ g, body r = .phrase g → Slot.FillsOne Makes r.rows parts := fun g hg =>
    rows_of_body hg ▸ m.filled g hg
  have exact_ : (site.position c d).Exact site.source := hm.exact_position hb hw
  have node {kind : NodeKind} (h : Element.Row site.source (site.position c d).span kind.elements) :
      Part.Rests site text (site.position c d).span (.node ⟨kind, site.position c d⟩) :=
    .singleton (Element.Row.element h exact_ trivial) (.refl _)
  have expr_ {kind : ExprKind} (h : Element.Row site.source (site.position c d).span kind.elements) :
      Part.Rests site text (site.position c d).span (.expr ⟨kind, site.position c d⟩) :=
    .singleton (Element.Row.element h exact_ trivial) (.refl _)
  have word : Part.Rests site text (site.position c d).span (.word (c.upTo d) c.offset) := by
    obtain ⟨front, ht, hstart, hstop⟩ := Site.Read.parts ⟨hm.regular, hb, hw⟩
    rw [hw.upTo_eq]
    refine ⟨front, d.rest, ht, hstart, Nat.le_refl _, ?_⟩
    rw [← hstop]
    exact Nat.le_refl _
  have nothing : Element.Row site.source (site.position c d).span [] := .nil
  cases r with
  -- marks, words and operators
  | ending | elseHead | endMarker | quiet | opOr | opAnd | opEq | opNe | opLe | opGe | opLt | opGt | opAdd | opSub
  | opMul | opDiv | opMod => exact nothing
  | opNot | opNeg => exact ⟨exact_, .refl _⟩
  | rawContent | macroName | ident | dqInner | sqInner => exact word
  -- texts and comments
  | text | stray | lineComment | blockComment | escaped => exact node nothing
  | unterminated => exact Failure.raised_at exact_ _
  | rawBlock =>
    obtain ⟨part, rfl, w, start, rfl⟩ := (hp _ rfl).filled.single
    exact node nothing
  -- blocks
  | template =>
    obtain ⟨part, rest, rfl, ⟨b, rfl, -⟩, -⟩ := (hp _ rfl).filled.part
    exact hc.head
  | block =>
    exact (hc.mapM_single Part.keeps_toNode).bind fun b _ hb => Block.row_joinTexts hb
  | ifDirective =>
    have made {row : List (Slot Rule)} (hrow : row ∈ [[.one [endMarker]], [.one [elseBranch], .one [endMarker]]])
        (h : Slot.Filled Makes (.one [ifHead] :: .one [block] :: .any [elseifBranch] :: row) parts) :
        Meets (Failure.Raised site.source) (Part.Rests site text (site.position c d).span)
          (meaning site inner ifDirective c d parts) := by
      obtain ⟨head, rest, rfl, ⟨e, rfl, -⟩, tail⟩ := h.part
      obtain ⟨content, others, rfl, ⟨b, rfl, -⟩, tail'⟩ := tail.part
      obtain ⟨branches, last, rfl, hbranches, ends⟩ := tail'.span
      obtain ⟨mid, condition, le, behind, -⟩ := hc.uncons
      obtain ⟨mid', content, le', behind', le''⟩ := behind.uncons
      obtain ⟨mid'', first, second⟩ := behind'.split
      obtain ⟨none, other⟩ := second.ending ⟨row, hrow, ends⟩
      have later := first.branches.append other first.le second.le
      have whole := Element.Row.append (Element.Row.append condition content le le') later (Nat.le_trans le le') le''
      refine node ?_
      show Element.Row site.source _ ((⟨e, b⟩ :: Part.branches (branches ++ last)).flatMap Branch.elements ++
        (Part.otherwise? (branches ++ last)).toList.flatMap Block.elements)
      rw [Part.branches_append, none, List.append_nil, Part.otherwise?_append hbranches, List.flatMap_cons,
        List.append_assoc]
      exact whole
    rcases (hp _ rfl).cases with filled | h
    · exact made (List.mem_cons_self ..) filled
    · exact made (List.mem_cons_of_mem _ (List.mem_singleton_self _)) h.filled
  | foreachDirective =>
    have made {row : List (Slot Rule)} (hrow : row ∈ [[.one [endMarker]], [.one [elseBranch], .one [endMarker]]])
        (h : Slot.Filled Makes (.one [foreachHead] :: .one [block] :: row) parts) :
        Meets (Failure.Raised site.source) (Part.Rests site text (site.position c d).span)
          (meaning site inner foreachDirective c d parts) := by
      obtain ⟨head, rest, rfl, ⟨var, e, rfl, -⟩, tail⟩ := h.part
      obtain ⟨content, last, rfl, ⟨b, rfl, -⟩, ends⟩ := tail.part
      obtain ⟨mid, iterable, le, behind, -⟩ := hc.uncons
      obtain ⟨mid', content, le', behind', le''⟩ := behind.uncons
      obtain ⟨-, other⟩ := behind'.ending ⟨row, hrow, ends⟩
      exact node (Element.Row.append iterable (Element.Row.append content other le' le'') le (Nat.le_trans le' le''))
    rcases (hp _ rfl).cases with filled | h
    · exact made (List.mem_cons_self ..) filled
    · exact made (List.mem_cons_of_mem _ (List.mem_singleton_self _)) h.filled
  | setDirective =>
    obtain ⟨target, value, rfl, ⟨q, rfl, -⟩, e, rfl, -⟩ := (hp _ rfl).filled.pair
    obtain ⟨mid, first, le, behind, le'⟩ := hc.uncons
    exact node (Element.Row.append first behind.head le le')
  | macroDirective =>
    obtain ⟨head, rest, rfl, ⟨name, params, rfl, -⟩, tail⟩ := (hp _ rfl).filled.part
    obtain ⟨content, others, rfl, ⟨b, rfl, -⟩, last⟩ := tail.part
    obtain ⟨mid, params, le, behind, le'⟩ := hc.uncons
    have parts := Element.Row.append params behind.head le le'
    exact node (.singleton (Element.Row.element parts exact_ rfl) (.refl _))
  | ifHead | elseifHead => exact hc.soleExpr.bind fun e _ he => he
  | elseifBranch =>
    obtain ⟨head, content, rfl, ⟨e, rfl, -⟩, b, rfl, -⟩ := (hp _ rfl).filled.pair
    obtain ⟨mid, condition, le, behind, le'⟩ := hc.uncons
    exact Element.Row.append condition behind.head le le'
  | elseBranch =>
    obtain ⟨head, content, rfl, rfl, b, rfl, -⟩ := (hp _ rfl).filled.pair
    obtain ⟨mid, -, le, behind, -⟩ := hc.uncons
    exact behind.head.mono ⟨le, Nat.le_refl _⟩
  | foreachHead =>
    obtain ⟨var, iterable, rfl, ⟨w, start, rfl⟩, e, rfl, -⟩ := (hp _ rfl).filled.pair
    obtain ⟨mid, -, le, behind, -⟩ := hc.uncons
    exact behind.head.mono ⟨le, Nat.le_refl _⟩
  | loopVar =>
    obtain ⟨name, rfl, w, start, rfl⟩ := (hp _ rfl).filled.sole (P := ident.Makes) (by simp)
    exact hc.head
  | macroHead =>
    obtain ⟨name, rest, rfl, ⟨w, start, rfl⟩, tail⟩ := (hp _ rfl).filled.part
    obtain ⟨mid, -, le, behind, -⟩ := hc.uncons
    refine (behind.mapM_single Part.keeps_toParam).bind fun params _ hparams => ?_
    exact hparams.mono ⟨le, Nat.le_refl _⟩
  | macroParam =>
    have param {fallback : Option Expr} {w : List Char}
        (h : Element.Row site.source (site.position c d).span (fallback.toList.map .expr)) :
        Part.Rests site text (site.position c d).span
          (.param ⟨String.ofList w, fallback, site.position c d⟩) :=
      .singleton (Element.Row.element h exact_ trivial) (.refl _)
    rcases (hp _ rfl).cases with filled | h
    · obtain ⟨name, rfl, w, start, rfl⟩ := filled.sole (P := ident.Makes) (by simp)
      exact param nothing
    · obtain ⟨name, value, rfl, ⟨w, start, rfl⟩, e, rfl, -⟩ :=
        h.filled.couple (P := ident.Makes) (Q := expr.Makes) (by simp) (by simp)
      obtain ⟨mid, -, le, behind, -⟩ := hc.uncons
      exact param (behind.head.mono ⟨le, Nat.le_refl _⟩)
  | parseDirective => exact hc.soleExpr.bind fun e _ he => node he
  | includeDirective => exact (hc.mapM_single Part.keeps_toExpr).bind fun es _ hes => node hes
  | evaluateDirective => exact hc.soleExpr.bind fun e _ he => node he
  | stopDirective => exact node nothing
  | breakDirective =>
    rcases (hp _ rfl).cases with filled | h
    · obtain rfl := filled.eq_nil
      exact node nothing
    · obtain ⟨label, rest, rfl, ⟨w, start, rfl⟩, -⟩ := h.filled.part
      exact node nothing
  -- macro calls
  | blockMacroCall =>
    obtain ⟨head, rest, rfl, ⟨name, as, rfl, -⟩, tail⟩ := (hp _ rfl).filled.part
    obtain ⟨content, others, rfl, ⟨b, rfl, -⟩, last⟩ := tail.part
    obtain ⟨mid, arguments, le, behind, le'⟩ := hc.uncons
    have content : Element.Row site.source ⟨mid, site.absolute d.offset⟩ (Block.elements b ++ []) := by
      rw [List.append_nil]
      exact behind.head
    exact node (Element.Row.append arguments content le le')
  | blockCallHead =>
    obtain ⟨name, args, rfl, ⟨w, start, rfl⟩, as, rfl, -⟩ :=
      (hp _ rfl).filled.couple (P := macroName.Makes) (Q := macroArgs.Makes) (by simp) (by simp)
    obtain ⟨mid, -, le, behind, -⟩ := hc.uncons
    exact behind.head.mono ⟨le, Nat.le_refl _⟩
  | macroCall =>
    obtain ⟨name, args, rfl, ⟨w, start, rfl⟩, as, rfl, -⟩ :=
      (hp _ rfl).filled.couple (P := macroName.Makes) (Q := macroArgs.Makes) (by simp) (by simp)
    obtain ⟨mid, -, le, behind, -⟩ := hc.uncons
    have arguments : Element.Row site.source (site.position c d).span (as.map (.expr ·.value) ++ []) := by
      rw [List.append_nil]
      exact behind.head.mono ⟨le, Nat.le_refl _⟩
    exact node arguments
  | macroArgs => exact (hc.mapM_single Part.keeps_toArg).bind fun as _ has => has
  | namedArg =>
    obtain ⟨name, value, rfl, ⟨w, start, rfl⟩, -⟩ :=
      (hp _ rfl).filled.couple (P := ident.Makes) (Q := fun _ => True) (by simp) fun _ _ _ _ => trivial
    obtain ⟨mid, -, le, behind, -⟩ := hc.uncons
    exact (Part.keeps_toExpr behind.head).bind fun e _ he => he.mono ⟨le, Nat.le_refl _⟩
  | positionalArg => exact hc.soleExpr.bind fun e _ he => he
  | bareWord => exact expr_ nothing
  -- expressions
  | expr =>
    have operation := operation_of_derives hmade derived m.place hts
    exact (operation.meets hc).bind fun e _ he => he
  | range =>
    obtain ⟨lower, upper, rfl, ⟨a, rfl, -⟩, b, rfl, -⟩ := (hp _ rfl).filled.pair
    obtain ⟨mid, first, le, behind, le'⟩ := hc.uncons
    exact expr_ (Element.Row.append first behind.head le le')
  | list => exact (hc.mapM_single Part.keeps_toExpr).bind fun es _ hes => expr_ hes
  | map => exact (hc.mapM Part.keeps_toEntry).bind fun es _ hes => expr_ hes
  | mapEntry =>
    obtain ⟨key, value, rfl, ⟨a, rfl, -⟩, b, rfl, -⟩ := (hp _ rfl).filled.pair
    obtain ⟨mid, first, le, behind, le'⟩ := hc.uncons
    exact Element.Row.append first behind.head le le'
  | dqString =>
    obtain ⟨content, rfl, w, start, rfl⟩ := (hp _ rfl).filled.single
    exact (ExprKind.meets_ofQuoted hi hm hc.head).bind fun k _ hk => expr_ hk
  | sqString =>
    obtain ⟨content, rfl, w, start, rfl⟩ := (hp _ rfl).filled.single
    exact expr_ nothing
  | number =>
    simp only [meaning]
    cases Literal.ofNumber (c.upTo d) with
    | ok l => exact expr_ nothing
    | error f => exact Failure.raised_at exact_ _
  | boolean | nullLit => exact expr_ nothing
  -- references
  | reference =>
    refine hc.referenceOf.bind fun q _ hq => ?_
    obtain ⟨place, segments⟩ := hq
    refine .singleton (Element.Row.element ?_ ?_ trivial) ?_
    · show Element.Row site.source q.position.span (q.segments.map .segment)
      rw [place]
      exact segments
    · show q.position.Exact site.source
      rw [place]
      exact exact_
    · show q.position.span.Inside _
      rw [place]
      exact .refl _
  | formal => exact hc.pathOf.bind fun found _ hf => hf
  | methodCall =>
    obtain ⟨w, start, rest, rfl⟩ : ∃ w start rest, parts = .word w start :: rest := by
      rcases (hp _ rfl).cases with filled | h
      · obtain ⟨name, rest, rfl, ⟨w, start, rfl⟩, -⟩ := filled.part
        exact ⟨w, start, rest, rfl⟩
      · obtain ⟨name, rest, rfl, ⟨w, start, rfl⟩, -⟩ := h.filled.part
        exact ⟨w, start, rest, rfl⟩
    obtain ⟨mid, -, le, behind, -⟩ := hc.uncons
    refine (behind.mapM_single Part.keeps_toExpr).bind fun es _ hes => ?_
    exact .singleton (Element.Row.element (hes.mono ⟨le, Nat.le_refl _⟩) exact_ trivial) (.refl _)
  | property =>
    obtain ⟨name, rfl, w, start, rfl⟩ := (hp _ rfl).filled.single
    exact .singleton (Element.Row.element nothing exact_ trivial) (.refl _)
  | index =>
    refine hc.soleExpr.bind fun e _ he => ?_
    exact .singleton (Element.Row.element he exact_ trivial) (.refl _)

/-! ### Matches -/

/-- What is read between two places of a text lies between them. -/
lemma Site.Mapped.absolute_le_of_reaches (hm : site.Mapped quoted text)
    (hb : ∃ front, (Cursor.start text).Reaches c front) {w : List Char} (hw : c.Reaches d w) :
    site.absolute c.offset ≤ site.absolute d.offset := by
  obtain ⟨front, ht, -, hstop⟩ := Site.Read.parts ⟨hm.regular, hb, hw⟩
  refine hm.regular.absolute_le hw.offset_le ?_
  rw [hstop, ht, utf8Length_append (front ++ w)]
  exact Nat.le_add_right _ _

/-- Whether the trees that were read between two places of a text stand for parts that lie one after the other
between them, or for a failure that points into the source. -/
def Part.InPlace (site : Site) (inner : Site → List Char → Except Failure Block) (text : List Char)
    (c d : Cursor) (ts : List (Tree Rule)) : Prop :=
  (∃ front, (Cursor.start text).Reaches c front) → Meets (Failure.Raised site.source)
    (Part.Chain site text (site.absolute c.offset) (site.absolute d.offset))
    (Tree.evalAll (Rule.meaning site inner) ts)

lemma Part.inPlace_nil (hm : site.Mapped quoted text) {w : List Char} (hw : c.Reaches d w) :
    Part.InPlace site inner text c d [] :=
  fun hb => .nil (hm.absolute_le_of_reaches hb hw)

lemma Part.inPlace_append {w : List Char} (hw : c.Reaches d w) (ht : Part.InPlace site inner text c d ts)
    (hu : Part.InPlace site inner text d e us) : Part.InPlace site inner text c e (ts ++ us) := by
  rintro ⟨front, hf⟩
  exact Tree.meets_append (ht ⟨front, hf⟩) (hu ⟨_, hf.trans hw⟩) Part.Chain.append

lemma Part.inPlace_rule (hi : ReadsInPlace site.source inner) (hmade : Rule.MakesParts site inner)
    (hm : site.Mapped quoted text) {r : Rule} (hd : Peg.Derives Rule.body (.rule r) c d [.node r c d ts])
    (ht : Part.InPlace site inner text c d ts) : Part.InPlace site inner text c d [.node r c d ts] := by
  rintro ⟨front, hf⟩
  obtain ⟨w, hw⟩ := hd.reaches
  have place : c.rest <:+ text := hf.suffix List.suffix_rfl
  have part : Meets (Failure.Raised site.source) (Part.Rests site text (site.position c d).span)
      (Tree.eval (Rule.meaning site inner) (.node r c d ts)) := by
    rw [Tree.eval]
    refine (ht ⟨front, hf⟩).bind fun ps hps chain => ?_
    exact Rule.meets_place hi hmade hm ⟨front, hf⟩ (hmade.match_ hd place hps) chain
  rw [Tree.evalAll]
  refine part.bind fun p _ hp => ?_
  exact .cons (hm.absolute_le_of_reaches ⟨front, hf⟩ hw) hp (.nil (Nat.le_refl _))

/-- What is read between two places of a text stands for parts that lie one after the other between them. -/
theorem Part.inPlace_of_derives (hi : ReadsInPlace site.source inner) (hmade : Rule.MakesParts site inner)
    (hm : site.Mapped quoted text) {g : Peg Rule} (hd : Peg.Derives Rule.body g c d ts) :
    Part.InPlace site inner text c d ts := by
  induction hd with
  | token hr =>
    obtain ⟨w, hw⟩ := Pattern.run_reaches hr
    exact Part.inPlace_nil hm hw
  | seq hg _ ihg ihh =>
    obtain ⟨w, hw⟩ := hg.reaches
    exact Part.inPlace_append hw ihg ihh
  | left _ ih => exact ih
  | right _ ih => exact ih
  | done => exact Part.inPlace_nil hm (.refl _)
  | more hg _ ihg ihh =>
    obtain ⟨w, hw⟩ := hg.reaches
    exact Part.inPlace_append hw ihg ihh
  | skipped => exact Part.inPlace_nil hm (.refl _)
  | taken _ ih => exact ih
  | word hw hr =>
    obtain ⟨w, hreach⟩ := Pattern.run_reaches hr
    exact Part.inPlace_rule hi hmade hm (.word hw hr) (Part.inPlace_nil hm hreach)
  | phrase hg hd ih => exact Part.inPlace_rule hi hmade hm (.phrase hg hd) ih

end

end Stencil
