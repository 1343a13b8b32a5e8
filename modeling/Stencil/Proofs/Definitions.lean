import Stencil.Proofs.Places
import Stencil.Proofs.Thinning

/-!
# The definitions in a tree

The definitions that a walk over a tree finds are the nodes of the tree that define macros, in the order in which they
stand in the text. Main statement: `Template.get?_macros`, the table of a compiled template has of each name the
definition that starts last.
-/

namespace Stencil

/-! ### Faults aside -/

namespace Finding

/-- Some findings with some faults among them. -/
inductive Amid : List Finding → List Finding → Prop
  | nil : Amid [] []
  | keep {fs gs : List Finding} (x : Finding) : Amid fs gs → Amid (x :: fs) (x :: gs)
  | fault {fs gs : List Finding} (f : Failure) : Amid fs gs → Amid fs (.fault f :: gs)

variable {fs gs fs' gs' : List Finding}

lemma Amid.refl (fs : List Finding) : Amid fs fs := by
  induction fs with
  | nil => exact .nil
  | cons x fs ih => exact ih.keep x

lemma Amid.of_eq (h : fs = gs) : Amid fs gs := h ▸ .refl fs

lemma Amid.append (h : Amid fs gs) (h' : Amid fs' gs') : Amid (fs ++ fs') (gs ++ gs') := by
  induction h with
  | nil => exact h'
  | keep x _ ih => exact ih.keep x
  | fault f _ ih => exact ih.fault f

/-- Where there are no faults, none are among the findings. -/
lemma Amid.eq_of_clean (h : Amid fs gs) (clean : faults gs = []) : fs = gs := by
  induction h with
  | nil => rfl
  | keep x _ ih =>
    cases x with
    | fault f => cases clean
    | definition d => exact congrArg (_ :: ·) (ih clean)
  | fault f _ _ => cases clean

end Finding

/-! ### What is found in an element -/

namespace Element

open Finding (Amid faults definitions)

/-- What a walk finds in an element. -/
def findings (e : Enclosure) : Element → List Finding
  | node n => Node.findings e n
  | expr x => Expr.findings e x
  | reference r => Reference.findings e r
  | segment s => SegmentKind.findings e s.kind
  | param p => fallbackFindings e p.fallback
  | macroDef d => MacroDef.findings e d.position d

/-- What encloses the elements of an element that defines no macro. -/
def inner (e : Enclosure) : Element → Enclosure
  | expr ⟨.interpolated _, _⟩ => e.quoted
  | _ => e

variable {e : Enclosure}

lemma findings_block (b : Block) : (Block.elements b).flatMap (findings e) = blockFindings e b := by
  induction b with
  | nil => rfl
  | cons n b ih =>
    rw [blockFindings, ← ih]
    rfl

lemma findings_option (o : Option Block) :
    (o.toList.flatMap Block.elements).flatMap (findings e) = optionFindings e o := by
  cases o with
  | none => rfl
  | some b =>
    rw [Option.toList_some, List.flatMap_singleton, findings_block, optionFindings]

lemma findings_exprs (xs : List Expr) : (xs.map Element.expr).flatMap (findings e) = exprFindings e xs := by
  induction xs with
  | nil => rfl
  | cons x xs ih =>
    rw [exprFindings, ← ih]
    rfl

lemma findings_branches (bs : List Branch) :
    (bs.flatMap Branch.elements).flatMap (findings e) = branchFindings e bs := by
  induction bs with
  | nil => rfl
  | cons b bs ih =>
    obtain ⟨condition, body⟩ := b
    rw [branchFindings, ← ih, ← findings_block, List.flatMap_cons, List.flatMap_append]
    rfl

lemma findings_entries (es : List Entry) :
    (es.flatMap Entry.elements).flatMap (findings e) = entryFindings e es := by
  induction es with
  | nil => rfl
  | cons y es ih =>
    obtain ⟨key, value⟩ := y
    rw [entryFindings, ← ih, List.append_assoc]
    rfl

lemma findings_segments (ss : List Segment) :
    (ss.map Element.segment).flatMap (findings e) = segmentFindings e ss := by
  induction ss with
  | nil => rfl
  | cons s ss ih =>
    obtain ⟨kind, p⟩ := s
    rw [segmentFindings, ← ih]
    rfl

lemma amid_args (name : String) (seen : List String) (as : List Argument) :
    Amid ((as.map (Element.expr ·.value)).flatMap (findings e)) (argFindings e name seen as) := by
  have value (x : Expr) : Amid (Expr.findings e x) (argValueFindings e name x) := by
    obtain ⟨kind, p⟩ := x
    cases kind with
    | bareWord word => exact Amid.nil.fault _
    | _ => exact .refl _
  induction as generalizing seen with
  | nil => exact .nil
  | cons a as ih =>
    obtain ⟨label, x⟩ := a
    cases label with
    | none => exact (value x).append (ih seen)
    | some arg =>
      have again : Amid [] (if seen.contains arg then [.at_ (.repeatedArgument arg name) x.position] else []) := by
        split
        · exact Amid.nil.fault _
        · exact .nil
      have here := (value x).append again
      rw [List.append_nil] at here
      exact here.append (ih (arg :: seen))

lemma amid_params (name : String) (seen : List String) (ps : List Param) :
    Amid ((ps.map Element.param).flatMap (findings e)) (paramFindings e name seen ps) := by
  induction ps generalizing seen with
  | nil => exact .nil
  | cons q ps ih =>
    obtain ⟨param, fallback, p⟩ := q
    have again : Amid [] (if seen.contains param then [.at_ (.repeatedParameter name param) p] else []) := by
      split
      · exact Amid.nil.fault _
      · exact .nil
    exact (again.append (.refl (fallbackFindings e fallback))).append (ih (param :: seen))

/-- But for faults, what is found in a node is what is found in its elements. -/
lemma amid_node {k : NodeKind} (h : k.isDefinition = false) (p : Position) :
    Amid (k.elements.flatMap (findings e)) (NodeKind.findings e p k) := by
  cases k with
  | text s => exact .nil
  | escaped s => exact .nil
  | raw s => exact .nil
  | comment => exact .nil
  | reference r => exact .of_eq (List.append_nil _)
  | conditional branches otherwise =>
    refine .of_eq ?_
    rw [NodeKind.elements, List.flatMap_append, findings_branches, findings_option, NodeKind.findings]
  | loop var iterable body otherwise =>
    refine .of_eq ?_
    rw [NodeKind.elements, List.flatMap_cons, List.flatMap_append, findings_block, findings_option,
      NodeKind.findings, List.append_assoc]
    rfl
  | assign target value =>
    have path : Amid [] target.targetFindings := by
      unfold Reference.targetFindings
      split
      · exact Amid.nil.fault _
      · exact .nil
    have parts : (NodeKind.assign target value).elements.flatMap (findings e) =
        Reference.findings e target ++ Expr.findings e value := by
      show Reference.findings e target ++ (Expr.findings e value ++ []) = _
      rw [List.append_nil]
    rw [parts, NodeKind.findings, List.append_assoc]
    exact path.append (.refl _)
  | macroDef d => cases h
  | macroCall c =>
    obtain ⟨name, args, body, literal⟩ := c
    rw [NodeKind.elements, List.flatMap_append, findings_option, NodeKind.findings, MacroCall.findings]
    exact (amid_args name [] args).append (.refl _)
  | parse name => exact .of_eq (List.append_nil _)
  | inclusion names => exact .of_eq (findings_exprs names)
  | evaluate text => exact .of_eq (List.append_nil _)
  | stop =>
    rw [NodeKind.findings]
    split
    · exact Amid.nil.fault _
    · exact .nil
  | leave scope =>
    unfold NodeKind.findings
    split
    · exact Amid.nil.fault _
    · cases scope with
      | unknown label => exact Amid.nil.fault _
      | _ => exact .nil

/-- What is found in an expression is what is found in its elements. -/
lemma findings_expr (x : Expr) :
    (expr x).children.flatMap (findings ((expr x).inner e)) = Expr.findings e x := by
  obtain ⟨kind, p⟩ := x
  cases kind with
  | literal l => rfl
  | interpolated body => exact findings_block body
  | reference r => exact List.append_nil _
  | list items => exact findings_exprs items
  | map entries => exact findings_entries entries
  | range lower upper => exact congrArg (_ ++ ·) (List.append_nil _)
  | unary op operand => exact List.append_nil _
  | binary op left right => exact congrArg (_ ++ ·) (List.append_nil _)
  | bareWord word => rfl

/-- Whether an element defines a macro, as a node or as what that defines. -/
def IsDefinition : Element → Prop
  | node n => n.kind.isDefinition = true
  | macroDef _ => True
  | _ => False

/-- But for faults, what is found in an element is what is found in its elements. -/
theorem amid_findings {p : Element} (h : ¬p.IsDefinition) :
    Amid (p.children.flatMap (findings (p.inner e))) (p.findings e) := by
  cases p with
  | node n =>
    obtain ⟨kind, q⟩ := n
    exact amid_node (Bool.eq_false_iff.mpr h) q
  | expr x => exact .of_eq (findings_expr x)
  | reference r =>
    obtain ⟨root, quiet, segments, literal, q⟩ := r
    exact .of_eq (findings_segments segments)
  | segment s =>
    obtain ⟨kind, q⟩ := s
    cases kind with
    | property name => exact .nil
    | method name args => exact .of_eq (findings_exprs args)
    | index i => exact .of_eq (List.append_nil _)
  | param q =>
    obtain ⟨name, fallback, r⟩ := q
    cases fallback with
    | none => exact .nil
    | some x => exact .of_eq (List.append_nil _)
  | macroDef d => exact absurd trivial h

/-- A macro is an element of the node that defines it only. -/
lemma isDefinition_of_child {p : Element} {d : MacroDef} (h : macroDef d ∈ p.children) : p.IsDefinition := by
  cases p with
  | node n =>
    obtain ⟨kind, q⟩ := n
    cases kind with
    | macroDef d => rfl
    | _ => simp [children, NodeKind.elements, Branch.elements, Block.elements] at h
  | expr x =>
    obtain ⟨kind, q⟩ := x
    cases kind <;> simp [children, ExprKind.elements, Entry.elements, Block.elements] at h
  | macroDef d => trivial
  | _ => simp [children] at h

/-! ### Elements at any depth -/

/-- An element and those that it is in, at any depth. -/
inductive In : Element → Element → Prop
  | self (p : Element) : In p p
  | child {p q r : Element} : q ∈ p.children → In r q → In r p

lemma inMacro_inner (p : Element) : (p.inner e).inMacro = e.inMacro := by
  unfold inner
  split
  · rfl
  · rfl

/-- What is in an element without faults has none. -/
lemma clean_child {p q : Element} (outside : ¬p.IsDefinition) (clean : faults (p.findings e) = [])
    (hq : q ∈ p.children) : faults (q.findings (p.inner e)) = [] := by
  rw [← (amid_findings outside).eq_of_clean clean, faults, List.filterMap_eq_nil_iff] at clean
  rw [faults, List.filterMap_eq_nil_iff]
  exact fun f hf => clean f (List.mem_flatMap.mpr ⟨q, hq, hf⟩)

/-- Without faults, no macro is defined inside another one. -/
lemma In.not_isDefinition {p r : Element} (h : In r p) (inMacro : e.inMacro = true)
    (clean : faults (p.findings e) = []) : ¬r.IsDefinition := by
  -- What defines a macro is a fault there itself.
  have here {p : Element} {e : Enclosure} (inMacro : e.inMacro = true) (clean : faults (p.findings e) = []) :
      ¬p.IsDefinition := by
    intro definition
    cases p with
    | node n =>
      obtain ⟨kind, q⟩ := n
      cases kind with
      | macroDef d =>
        obtain ⟨name, params, body, source, q'⟩ := d
        simp [findings, Node.findings, NodeKind.findings, MacroDef.findings, inMacro, faults, Finding.at_] at clean
      | _ => cases definition
    | macroDef d =>
      obtain ⟨name, params, body, source, q⟩ := d
      simp [findings, MacroDef.findings, inMacro, faults, Finding.at_] at clean
    | _ => exact definition
  induction h generalizing e with
  | self p => exact here inMacro clean
  | @child p q r hq _ ih =>
    have outside := here inMacro clean
    exact ih ((inMacro_inner p).trans inMacro) (clean_child outside clean hq)

/-! ### Definitions in the order of the text -/

/-- Definitions that are those in some elements of a span, each with the position of the node that it is: they lie in
the span one after the other, in the order of the list. -/
structure Listed (outer : Span) (ps : List Element) (ds : List MacroDef) (found : List (MacroDef × Position)) :
    Prop where
  definitions : found.map Prod.fst = ds
  mem : ∀ d q, (d, q) ∈ found ↔ ∃ p ∈ ps, In (node ⟨.macroDef d, q⟩) p
  inside : ∀ x ∈ found, x.2.span.Inside outer
  ordered : found.Pairwise fun x y => x.2.span.stop ≤ y.2.span.start

variable {s : Source}

/-- The definitions in the elements of a row are those in one after the other. -/
lemma Row.listed {lo hi : Nat} {ps : List Element} (h : Row s ⟨lo, hi⟩ ps)
    (hp : ∀ p ∈ ps, ∃ found, Listed p.span [p] (definitions (p.findings e)) found) :
    ∃ found, Listed ⟨lo, hi⟩ ps (definitions (ps.flatMap (findings e))) found := by
  induction ps generalizing lo with
  | nil => exact ⟨[], rfl, fun d q => ⟨nofun, nofun⟩, nofun, .nil⟩
  | cons p ps ih =>
    obtain ⟨placed, start, stop, rest⟩ := h.uncons
    obtain ⟨here, first⟩ := hp p (List.mem_cons_self ..)
    obtain ⟨later, others⟩ := ih rest fun q hq => hp q (List.mem_cons_of_mem _ hq)
    have le : lo ≤ p.span.stop := Nat.le_trans start placed.exact.le
    refine ⟨here ++ later, ?_, fun d q => ?_, ?_, ?_⟩
    · rw [List.map_append, first.definitions, others.definitions, ← Finding.definitions_append]
      rfl
    · rw [List.mem_append, first.mem, others.mem, List.exists_mem_cons_iff]
      simp
    · refine List.forall_mem_append.mpr ⟨fun x hx => ?_, fun x hx => ?_⟩
      · exact (first.inside x hx).trans ⟨start, stop⟩
      · exact (others.inside x hx).trans ⟨le, Nat.le_refl _⟩
    · refine List.pairwise_append.mpr ⟨first.ordered, others.ordered, fun x hx y hy => ?_⟩
      exact Nat.le_trans (first.inside x hx).stop (others.inside y hy).start

/-- No definitions are found inside a macro. -/
lemma Placed.definitions_eq_nil {p : Element} (h : p.Placed s) (inMacro : e.inMacro = true)
    (clean : faults (p.findings e) = []) : definitions (p.findings e) = [] := by
  induction h generalizing e with
  | @intro p _ _ _ _ _ ih =>
    have outside := (In.self p).not_isDefinition inMacro clean
    rw [← (amid_findings outside).eq_of_clean clean, definitions, List.filterMap_flatMap, List.flatMap_eq_nil_iff]
    exact fun q hq => ih q hq ((inMacro_inner p).trans inMacro) (clean_child outside clean hq)

/-- Without faults, what is found in a macro is what is found in its elements and then the macro itself. -/
lemma findings_definition {d : MacroDef} {p : Position} (outside : e.inMacro = false)
    (clean : faults (MacroDef.findings e p d) = []) :
    MacroDef.findings e p d =
      (macroDef d).children.flatMap (findings { e with inMacro := true }) ++ [.definition d] := by
  obtain ⟨name, params, body, source, q⟩ := d
  have amid : Amid ((params.map param ++ Block.elements body).flatMap (findings { e with inMacro := true }))
      (paramFindings { e with inMacro := true } name [] params ++
        blockFindings { e with inMacro := true } body) := by
    rw [List.flatMap_append]
    exact (amid_params name [] params).append (.of_eq (findings_block body))
  rw [MacroDef.findings, outside, if_neg Bool.false_ne_true] at clean ⊢
  exact ((amid.append (.refl _)).eq_of_clean clean).symm

/-- The definitions in an element in its place, where there are no faults and no macro around it. -/
theorem Placed.listed {p : Element} (h : p.Placed s) (outside : e.inMacro = false)
    (clean : faults (p.findings e) = []) (hd : ∀ d, p ≠ macroDef d) :
    ∃ found, Listed p.span [p] (definitions (p.findings e)) found := by
  induction h generalizing e with
  | @intro p exact_ homed inside ordered placed ih =>
    by_cases definition : p.IsDefinition
    · cases p with
      | node n =>
        obtain ⟨kind, q⟩ := n
        cases kind with
        | macroDef d =>
          have outer := placed _ (List.mem_singleton_self _)
          have found : Element.findings e (node ⟨.macroDef d, q⟩) = _ := findings_definition outside clean
          have parts : ∀ c ∈ (macroDef d).children, faults (c.findings { e with inMacro := true }) = [] := by
            rw [found, Finding.faults_append, List.append_eq_nil_iff, faults, List.filterMap_eq_nil_iff] at clean
            intro c hc
            rw [faults, List.filterMap_eq_nil_iff]
            exact fun f hf => clean.1 f (List.mem_flatMap.mpr ⟨c, hc, hf⟩)
          have none : definitions ((macroDef d).children.flatMap (findings { e with inMacro := true })) = [] := by
            rw [definitions, List.filterMap_flatMap, List.flatMap_eq_nil_iff]
            exact fun c hc => (outer.children.placed c hc).definitions_eq_nil rfl (parts c hc)
          refine ⟨[(d, q)], ?_, fun d' q' => ?_, List.forall_mem_singleton.mpr (.refl _), List.pairwise_singleton _ _⟩
          · rw [found, Finding.definitions_append, none]
            rfl
          · constructor
            · intro same
              obtain ⟨rfl, rfl⟩ := Prod.mk.inj (List.mem_singleton.mp same)
              exact ⟨_, List.mem_singleton_self _, .self _⟩
            · rintro ⟨c, hc, within⟩
              obtain rfl := List.mem_singleton.mp hc
              cases within with
              | self => exact List.mem_singleton_self _
              | child hc within =>
                obtain rfl := List.mem_singleton.mp hc
                cases within with
                | child hc within => exact absurd rfl (within.not_isDefinition rfl (parts _ hc))
        | _ => cases definition
      | macroDef d => exact absurd rfl (hd d)
      | _ => cases definition
    · have row : Row s p.span p.children := ⟨inside, ordered, placed⟩
      obtain ⟨found, listed⟩ := row.listed (e := p.inner e) fun q hq =>
        ih q hq ((inMacro_inner p).trans outside) (clean_child definition clean hq) fun d same =>
          definition (isDefinition_of_child (same ▸ hq))
      refine ⟨found, ?_, fun d q => ?_, listed.inside, listed.ordered⟩
      · rw [← (amid_findings definition).eq_of_clean clean]
        exact listed.definitions
      · rw [listed.mem]
        constructor
        · rintro ⟨c, hc, within⟩
          exact ⟨p, List.mem_singleton_self p, .child hc within⟩
        · rintro ⟨c, hc, within⟩
          obtain rfl := List.mem_singleton.mp hc
          cases within with
          | self => exact absurd rfl definition
          | child hc within => exact ⟨_, hc, within⟩

/-! ### Nodes are not empty -/

end Element

def Expr.Stands (cs : List Char) (x : Expr) : Prop := ∃ quoted outer, Expr.Faithful cs quoted outer x

def Block.Stands (cs : List Char) (b : Block) : Prop := ∃ quoted outer, Block.Faithful cs quoted outer b

namespace Element

/-- An element that stands for its text, which is not empty if it is a node. -/
def Stands (cs : List Char) : Element → Prop
  | node n => n.position.span.start < n.position.span.stop ∧ ∃ quoted, Node.Faithful cs quoted n
  | expr x => x.Stands cs
  | reference r => ∀ x ∈ r.exprs, x.Stands cs
  | segment s => ∀ x ∈ s.kind.exprs, x.Stands cs
  | param p => ∀ x ∈ p.fallback, x.Stands cs
  | macroDef d => (∀ p ∈ d.params, ∀ x ∈ p.fallback, x.Stands cs) ∧ Block.Stands cs d.body

variable {cs : List Char}

lemma stands_block {b : Block} (h : Block.Stands cs b) : ∀ q ∈ Block.elements b, q.Stands cs := by
  obtain ⟨quoted, outer, faithful⟩ := h
  cases faithful with
  | intro _ _ tiles _ nodes =>
    exact List.forall_mem_map.mpr fun n hn => ⟨tiles.lt_of_mem n hn, quoted, nodes n hn⟩

lemma stands_blocks {bs : List Block} (h : ∀ b ∈ bs, Block.Stands cs b) :
    ∀ q ∈ bs.flatMap Block.elements, q.Stands cs := by
  intro q hq
  obtain ⟨b, hb, hq⟩ := List.mem_flatMap.mp hq
  exact stands_block (h b hb) q hq

lemma stands_node {n : Node} (exprs : ∀ x ∈ n.kind.subexprs, x.Stands cs)
    (blocks : ∀ b ∈ n.kind.subblocks, Block.Stands cs b) : ∀ q ∈ (node n).children, q.Stands cs := by
  obtain ⟨kind, p⟩ := n
  cases kind with
  | reference r => exact List.forall_mem_singleton.mpr exprs
  | conditional branches otherwise =>
    refine List.forall_mem_append.mpr ⟨fun q hq => ?_, stands_blocks fun b hb => blocks b (List.mem_append_right _ hb)⟩
    obtain ⟨b, hb, hq⟩ := List.mem_flatMap.mp hq
    rcases List.mem_cons.mp hq with rfl | hq
    · exact exprs _ (List.mem_map_of_mem hb)
    · exact stands_block (blocks _ (List.mem_append_left _ (List.mem_map_of_mem hb))) q hq
  | loop var iterable body otherwise =>
    refine List.forall_mem_cons.mpr ⟨exprs _ (List.mem_cons_self ..), List.forall_mem_append.mpr ⟨?_, ?_⟩⟩
    · exact stands_block (blocks _ (List.mem_cons_self ..))
    · exact stands_blocks fun b hb => blocks b (List.mem_cons_of_mem _ hb)
  | assign target value =>
    refine List.forall_mem_cons.mpr ⟨fun x hx => exprs x (List.mem_cons_of_mem _ hx), ?_⟩
    exact List.forall_mem_singleton.mpr (exprs _ (List.mem_cons_self ..))
  | macroDef d =>
    refine List.forall_mem_singleton.mpr ⟨fun q hq x hx => exprs x ?_, blocks _ (List.mem_singleton_self _)⟩
    exact List.mem_flatMap.mpr ⟨q, hq, Option.mem_toList.mpr hx⟩
  | macroCall c =>
    refine List.forall_mem_append.mpr ⟨List.forall_mem_map.mpr fun a ha => ?_, stands_blocks blocks⟩
    exact exprs _ (List.mem_map_of_mem ha)
  | parse name => exact List.forall_mem_singleton.mpr (exprs _ (List.mem_singleton_self _))
  | inclusion names => exact List.forall_mem_map.mpr exprs
  | evaluate text => exact List.forall_mem_singleton.mpr (exprs _ (List.mem_singleton_self _))
  | _ => exact nofun

lemma stands_expr {x : Expr} (exprs : ∀ y ∈ x.kind.exprs, y.Stands cs)
    (blocks : ∀ b ∈ x.kind.blocks, Block.Stands cs b) : ∀ q ∈ (expr x).children, q.Stands cs := by
  obtain ⟨kind, p⟩ := x
  cases kind with
  | literal l => exact nofun
  | interpolated body => exact stands_block (blocks body (List.mem_singleton_self body))
  | reference r => exact List.forall_mem_singleton.mpr exprs
  | list items => exact List.forall_mem_map.mpr exprs
  | map entries =>
    intro q hq
    obtain ⟨y, hy, hq⟩ := List.mem_flatMap.mp hq
    obtain ⟨z, hz, rfl⟩ := List.mem_map.mp (show q ∈ [y.key, y.value].map Element.expr from hq)
    exact exprs z (List.mem_flatMap.mpr ⟨y, hy, hz⟩)
  | range lower upper =>
    show ∀ q ∈ [lower, upper].map Element.expr, q.Stands cs
    exact List.forall_mem_map.mpr exprs
  | unary op operand => exact List.forall_mem_singleton.mpr (exprs _ (List.mem_singleton_self _))
  | binary op left right =>
    show ∀ q ∈ [left, right].map Element.expr, q.Stands cs
    exact List.forall_mem_map.mpr exprs
  | bareWord word => exact nofun

/-- What is in an element that stands for its text does so too. -/
lemma Stands.child {p q : Element} (h : p.Stands cs) (hq : q ∈ p.children) : q.Stands cs := by
  cases p with
  | node n =>
    obtain ⟨-, quoted, faithful⟩ := h
    cases faithful with
    | intro _ _ exprs blocks =>
      exact stands_node (fun x hx => ⟨quoted, _, exprs x hx⟩) (fun b hb => ⟨quoted, _, blocks b hb⟩) q hq
  | expr x =>
    obtain ⟨quoted, outer, faithful⟩ := h
    cases faithful with
    | intro _ _ exprs blocks =>
      exact stands_expr (fun y hy => ⟨quoted, _, exprs y hy⟩) (fun b hb => ⟨true, _, blocks b hb⟩) q hq
  | reference r =>
    obtain ⟨s, hs, rfl⟩ := List.mem_map.mp hq
    exact fun x hx => h x (List.mem_flatMap.mpr ⟨s, hs, hx⟩)
  | segment s =>
    obtain ⟨x, hx, rfl⟩ := List.mem_map.mp hq
    exact h x hx
  | param r =>
    obtain ⟨x, hx, rfl⟩ := List.mem_map.mp hq
    exact h x (Option.mem_toList.mp hx)
  | macroDef d =>
    rcases List.mem_append.mp hq with hq | hq
    · obtain ⟨r, hr, rfl⟩ := List.mem_map.mp hq
      exact h.1 r hr
    · exact stands_block h.2 q hq

lemma In.stands {p r : Element} (h : In r p) (hp : p.Stands cs) : r.Stands cs := by
  induction h with
  | self p => exact hp
  | child hq _ ih => exact ih (hp.child hq)

/-- What is in what gobbling leaves of an element is in that element, or is left of what is in it. -/
lemma In.of_stripElement {spans : List Span} {x p r : Element} (h : In r x)
    (hx : x = p ∨ x ∈ Gobbling.stripElement spans p) :
    ∃ q, In q p ∧ (r = q ∨ r ∈ Gobbling.stripElement spans q) := by
  induction h generalizing p with
  | self x => exact ⟨p, .self p, hx⟩
  | @child x y r hy _ ih =>
    have left : ∃ z ∈ p.children, y = z ∨ y ∈ Gobbling.stripElement spans z := by
      rcases hx with rfl | hx
      · exact ⟨y, hy, .inl rfl⟩
      · cases p with
        | node n =>
          obtain ⟨kind, q⟩ := n
          obtain ⟨m, hm, rfl⟩ := Option.map_eq_some_iff.mp hx
          obtain ⟨k', hk, rfl⟩ := Option.map_eq_some_iff.mp
            (show (Gobbling.stripKind spans q.span.start kind).map (⟨·, q⟩) = some m from hm)
          have hy : y ∈ k'.elements := hy
          rw [Gobbling.elements_stripKind spans hk] at hy
          obtain ⟨z, hz, hy⟩ := List.mem_filterMap.mp hy
          exact ⟨z, hz, .inr hy⟩
        | macroDef d =>
          obtain rfl := Option.some.inj hx
          obtain ⟨name, params, body, source, q⟩ := d
          have hy : y ∈ params.map param ++ Block.elements (Gobbling.stripBlock spans body) := hy
          rw [Gobbling.elements_stripBlock, ← Gobbling.filterMap_params spans params, ← List.filterMap_append] at hy
          obtain ⟨z, hz, hy⟩ := List.mem_filterMap.mp hy
          exact ⟨z, hz, .inr hy⟩
        | _ =>
          obtain rfl := Option.some.inj hx
          exact ⟨y, hy, .inl rfl⟩
    obtain ⟨z, hz, hy⟩ := left
    obtain ⟨q, hq, hr⟩ := ih hy
    exact ⟨q, .child hz hq, hr⟩

lemma node_of_stripElement {spans : List Span} {p : Element} {m : Node}
    (h : node m = p ∨ node m ∈ Gobbling.stripElement spans p) : ∃ n, p = node n ∧ n.position = m.position := by
  rcases h with rfl | h
  · exact ⟨m, rfl, rfl⟩
  · cases p with
    | node n =>
      obtain ⟨m', hm, same⟩ := Option.map_eq_some_iff.mp h
      cases same
      obtain ⟨kind, q⟩ := n
      obtain ⟨k', -, rfl⟩ := Option.map_eq_some_iff.mp
        (show (Gobbling.stripKind spans q.span.start kind).map (⟨·, q⟩) = some m from hm)
      exact ⟨⟨kind, q⟩, rfl, rfl⟩
    | _ => cases h

/-- The nodes that gobbling leaves are where they were before. -/
lemma In.of_gobble {b : Block} {policy : GobblingPolicy} {cs : List Char} {spans : MarkerSpans} {x : Element}
    {m : Node} (hx : x ∈ Block.elements (b.gobble policy cs spans)) (h : In (node m) x) :
    ∃ y ∈ Block.elements b, ∃ n, In (node n) y ∧ n.position = m.position := by
  unfold Block.gobble at hx
  split at hx
  · exact ⟨x, hx, m, h, rfl⟩
  · rw [Gobbling.elements_stripBlock] at hx
    obtain ⟨y, hy, hx⟩ := List.mem_filterMap.mp hx
    obtain ⟨q, hq, left⟩ := h.of_stripElement (.inr hx)
    obtain ⟨n, rfl, same⟩ := node_of_stripElement left
    exact ⟨y, hy, n, hq, same⟩

end Element

/-! ### Templates -/

/-- Whether a node of a template, at any depth, is the definition of a macro at a position. -/
def Block.Defines (b : Block) (d : MacroDef) (p : Position) : Prop :=
  ∃ x ∈ b.elements, Element.In (.node ⟨.macroDef d, p⟩) x

/-- Whether a node of a template is of the definitions of a name the one that starts last. -/
def Block.DefinesLast (b : Block) (name : String) (d : MacroDef) (p : Position) : Prop :=
  b.Defines d p ∧ d.name = name ∧ ∀ d' p', b.Defines d' p' → d'.name = name →
    (d', p') = (d, p) ∨ p'.span.start < p.span.start

/-- The definitions in a template that parses are not empty. -/
lemma Block.Defines.lt {s : Source} {policy : GobblingPolicy} {b : Block} (h : parse s policy = .ok b)
    {d : MacroDef} {p : Position} (hd : b.Defines d p) : p.span.start < p.span.stop := by
  obtain ⟨x, hx, within⟩ := hd
  obtain ⟨root, spans, read, rfl⟩ := parse_eq_ok_iff.mp h
  obtain ⟨y, hy, n, before, same⟩ := within.of_gobble hx
  have stands := Element.stands_block ⟨false, _, (fills_of_parseTree read).faithful⟩ y hy
  have lt := (before.stands stands).1
  rwa [same] at lt

lemma Macros.ofDefs_concat (ds : List MacroDef) (d : MacroDef) : ofDefs (ds ++ [d]) = (ofDefs ds).insert d.name d := by
  unfold ofDefs Dict.ofList
  rw [List.map_append, List.foldl_append]
  rfl

/-- A table has of each name the last definition of those that it is made of. -/
lemma Macros.get?_ofDefs (ds : List MacroDef) (name : String) :
    (Macros.ofDefs ds).get? name = (ds.filter (·.name == name)).getLast? := by
  induction ds using List.reverseRecOn with
  | nil => rfl
  | append_singleton ds d ih =>
    rw [ofDefs_concat, Dict.get?_insert, List.filter_append]
    by_cases same : name = d.name
    · simp [same]
    · have other : (d.name == name) = false := beq_eq_false_iff_ne.mpr (Ne.symm same)
      simp [same, other, ih]

lemma Macros.distinct_ofDefs (ds : List MacroDef) : (Macros.ofDefs ds).Distinct := by
  induction ds using List.reverseRecOn with
  | nil => exact Dict.distinct_empty
  | append_singleton ds d ih =>
    rw [ofDefs_concat]
    exact ih.insert _ _

/-- The definitions in a compiled template, in the order of the text. -/
lemma Template.listed_of_compile {unit : CodeUnit} {s : Source} {policy : GobblingPolicy} {t : Template}
    (h : compile unit s policy = .ok t) : ∃ found, Element.Listed ⟨0, s.text.utf8ByteSize⟩ t.root.elements
      (Finding.definitions (blockFindings ⟨false, false⟩ t.root)) found := by
  have row := parse_placed (parse_of_compile h)
  have clean := (macros_of_compile h).1
  rw [← Element.findings_block] at clean ⊢
  refine row.listed fun p hp => (row.placed p hp).listed rfl ?_ ?_
  · rw [Finding.faults, List.filterMap_eq_nil_iff] at clean ⊢
    exact fun f hf => clean f (List.mem_flatMap.mpr ⟨p, hp, hf⟩)
  · rintro d rfl
    obtain ⟨n, -, hn⟩ := List.mem_map.mp hp
    cases hn

/-- Of definitions in the order of the text, the last of a name is the one that starts last. -/
lemma Block.definesLast_iff {b : Block} {found : List (MacroDef × Position)} {name : String} {d : MacroDef}
    {p : Position} (mem : ∀ d p, (d, p) ∈ found ↔ b.Defines d p)
    (ordered : found.Pairwise fun x y => x.2.span.stop ≤ y.2.span.start)
    (filled : ∀ x ∈ found, x.2.span.start < x.2.span.stop) :
    b.DefinesLast name d p ↔ (found.filter (·.1.name == name)).getLast? = some (d, p) := by
  have named {d : MacroDef} {p : Position} :
      (d, p) ∈ found.filter (·.1.name == name) ↔ b.Defines d p ∧ d.name = name := by
    rw [List.mem_filter, mem, beq_iff_eq]
  have last {d : MacroDef} {p : Position} (h : (found.filter (·.1.name == name)).getLast? = some (d, p)) :
      b.DefinesLast name d p := by
    obtain ⟨front, split⟩ := List.getLast?_eq_some_iff.mp h
    have here := named.mp (split ▸ List.mem_append_right front (List.mem_singleton_self (d, p)))
    refine ⟨here.1, here.2, fun d' p' defines same => ?_⟩
    have other : (d', p') ∈ front ++ [(d, p)] := split ▸ named.mpr ⟨defines, same⟩
    have apart := ordered.sublist (List.filter_sublist (p := fun x => x.1.name == name))
    rw [split] at apart
    rcases List.mem_append.mp other with before | itself
    · have stop := (List.pairwise_append.mp apart).2.2 _ before _ (List.mem_singleton_self _)
      exact .inr (Nat.lt_of_lt_of_le (filled _ ((mem d' p').mpr defines)) stop)
    · exact .inl (List.mem_singleton.mp itself)
  refine ⟨fun h => ?_, last⟩
  obtain ⟨defines, same, latest⟩ := h
  cases hl : (found.filter (·.1.name == name)).getLast? with
  | none =>
    rw [List.getLast?_eq_none_iff] at hl
    exact absurd (named.mpr ⟨defines, same⟩) (hl ▸ List.not_mem_nil)
  | some x =>
    obtain ⟨defines', same', latest'⟩ := last hl
    rcases latest _ _ defines' same' with itself | before
    · exact congrArg some itself
    · rcases latest' _ _ defines same with itself | after
      · exact congrArg some itself.symm
      · exact absurd before (Nat.lt_asymm after)

/-- The table of a compiled template has of each name the definition that starts last in the text, wherever in the
tree it is, and no other names. -/
theorem Template.get?_macros {t : Template} (ht : t.Compiled) (name : String) :
    (∀ d, t.macros.get? name = some d ↔ ∃ p, t.root.DefinesLast name d p) ∧
      (t.macros.get? name = none ↔ ∀ d p, t.root.Defines d p → d.name ≠ name) := by
  obtain ⟨unit, s, policy, h⟩ := ht
  obtain ⟨found, listed⟩ := listed_of_compile h
  have mem : ∀ d p, (d, p) ∈ found ↔ t.root.Defines d p := listed.mem
  have filled : ∀ x ∈ found, x.2.span.start < x.2.span.stop :=
    fun x hx => ((mem x.1 x.2).mp hx).lt (parse_of_compile h)
  have table : t.macros.get? name = ((found.filter (·.1.name == name)).getLast?).map Prod.fst := by
    rw [(macros_of_compile h).2, ← listed.definitions, Macros.get?_ofDefs, List.filter_map, List.getLast?_map]
    rfl
  constructor
  · intro d
    rw [table, Option.map_eq_some_iff]
    constructor
    · rintro ⟨⟨d, p⟩, hl, rfl⟩
      exact ⟨p, (Block.definesLast_iff mem listed.ordered filled).mpr hl⟩
    · rintro ⟨p, hl⟩
      exact ⟨(d, p), (Block.definesLast_iff mem listed.ordered filled).mp hl, rfl⟩
  · rw [table, Option.map_eq_none_iff, List.getLast?_eq_none_iff, List.filter_eq_nil_iff]
    constructor
    · intro none d p defines same
      exact none (d, p) ((mem d p).mpr defines) (beq_iff_eq.mpr same)
    · rintro none ⟨d, p⟩ hx same
      exact none d p ((mem d p).mp hx) (beq_iff_eq.mp same)

end Stencil
