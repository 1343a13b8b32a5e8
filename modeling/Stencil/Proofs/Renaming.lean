import Stencil.Proofs.Moving
import Stencil.Parse
import Stencil.Template

/-!
# The same text under another name

A text compiles alike whatever its template is called: what is read, gobbled and found in it moves with the positions
in it. Main statements: `Relocation.nodeList_findings` and `Relocation.nodeList_strip`, what a walk finds and what
gobbling leaves moves with the tree; and `Template.compile_moved`, the compilations of a text under two names.
-/

namespace Stencil

namespace Relocation

variable (g : Relocation)

/-! ### Findings -/

/-- What a walk finds, somewhere else. -/
def finding : Finding → Finding
  | .fault f => .fault (g.failure f)
  | .definition d => .definition (g.macroDef d)

lemma targetFindings_moved (r : Reference) :
    (g.reference r).targetFindings = r.targetFindings.map g.finding := by
  obtain ⟨root, quiet, segments, literal, p⟩ := r
  unfold Reference.targetFindings
  simp only [reference, segmentList_eq, List.getLast?_map]
  cases segments.getLast? with
  | none => rfl
  | some s =>
    obtain ⟨kind, q⟩ := s
    cases kind <;> rfl

mutual

lemma node_findings (e : Enclosure) : ∀ n, Node.findings e (g.node n) = (Node.findings e n).map g.finding
  | ⟨kind, p⟩ => nodeKind_findings e p kind
termination_by structural n => n

lemma nodeKind_findings (e : Enclosure) (p : Position) :
    ∀ k, NodeKind.findings e (g.position p) (g.nodeKind k) = (NodeKind.findings e p k).map g.finding
  | .text _ => rfl
  | .escaped _ => rfl
  | .raw _ => rfl
  | .comment => rfl
  | .reference r => reference_findings e r
  | .conditional branches otherwise => by
    simp only [nodeKind, NodeKind.findings, branchList_findings e branches, blockOption_findings e otherwise,
      List.map_append]
  | .loop _ iterable body otherwise => by
    simp only [nodeKind, NodeKind.findings, expr_findings e iterable, nodeList_findings e body,
      blockOption_findings e otherwise, List.map_append]
  | .assign target value => by
    simp only [nodeKind, NodeKind.findings, targetFindings_moved, reference_findings e target, expr_findings e value,
      List.map_append]
  | .macroDef d => macroDef_findings e p d
  | .macroCall c => macroCall_findings e c
  | .parse name => expr_findings e name
  | .inclusion names => exprList_findings e names
  | .evaluate text => expr_findings e text
  | .stop => by
    simp only [nodeKind, NodeKind.findings]
    split <;> rfl
  | .leave scope => by
    simp only [nodeKind, NodeKind.findings]
    split
    · rfl
    · cases scope <;> rfl
termination_by structural k => k

lemma nodeList_findings (e : Enclosure) :
    ∀ ns, blockFindings e (g.nodeList ns) = (blockFindings e ns).map g.finding
  | [] => rfl
  | n :: ns => by
    simp only [nodeList, blockFindings, node_findings e n, nodeList_findings e ns, List.map_append]
termination_by structural ns => ns

lemma blockOption_findings (e : Enclosure) :
    ∀ o, optionFindings e (g.blockOption o) = (optionFindings e o).map g.finding
  | none => rfl
  | some b => nodeList_findings e b
termination_by structural o => o

lemma branch_findings (e : Enclosure) (bs : List Branch) : ∀ b, branchFindings e (g.branch b :: bs) =
    (branchFindings e [b]).map g.finding ++ branchFindings e bs
  | ⟨condition, body⟩ => by
    simp only [branch, branchFindings, expr_findings e condition, nodeList_findings e body, List.map_append,
      List.append_nil]
termination_by structural b => b

lemma branchList_findings (e : Enclosure) :
    ∀ bs, branchFindings e (g.branchList bs) = (branchFindings e bs).map g.finding
  | [] => rfl
  | b :: bs => by
    have split : branchFindings e (b :: bs) = branchFindings e [b] ++ branchFindings e bs := by
      cases b
      simp only [branchFindings, List.append_nil]
    rw [branchList, branch_findings e _ b, branchList_findings e bs, split, List.map_append]
termination_by structural bs => bs

lemma macroDef_findings (e : Enclosure) (p : Position) :
    ∀ d, MacroDef.findings e (g.position p) (g.macroDef d) = (MacroDef.findings e p d).map g.finding
  | ⟨name, params, body, source, q⟩ => by
    simp only [macroDef, MacroDef.findings]
    split
    · rfl
    · simp only [paramList_findings _ name [] params, nodeList_findings _ body, List.map_append]
      rfl
termination_by structural d => d

lemma param_findings (e : Enclosure) (name : String) (seen : List String) (qs : List Param) :
    ∀ q, paramFindings e name seen (g.param q :: qs) =
      (paramFindings e name seen [q]).map g.finding ++ paramFindings e name (q.name :: seen) qs
  | ⟨param, fallback, p⟩ => by
    simp only [Relocation.param, paramFindings, exprOption_findings e fallback, List.map_append, List.append_nil]
    split <;> rfl
termination_by structural q => q

lemma paramList_findings (e : Enclosure) (name : String) (seen : List String) :
    ∀ qs, paramFindings e name seen (g.paramList qs) = (paramFindings e name seen qs).map g.finding
  | [] => rfl
  | q :: qs => by
    have split : paramFindings e name seen (q :: qs) =
        paramFindings e name seen [q] ++ paramFindings e name (q.name :: seen) qs := by
      cases q
      simp only [paramFindings, List.append_nil]
    rw [paramList, param_findings e name seen _ q, paramList_findings e name _ qs, split, List.map_append]
termination_by structural qs => qs

lemma exprOption_findings (e : Enclosure) :
    ∀ o, fallbackFindings e (g.exprOption o) = (fallbackFindings e o).map g.finding
  | none => rfl
  | some x => expr_findings e x
termination_by structural o => o

lemma macroCall_findings (e : Enclosure) :
    ∀ c, MacroCall.findings e (g.macroCall c) = (MacroCall.findings e c).map g.finding
  | ⟨name, args, body, _⟩ => by
    simp only [macroCall, MacroCall.findings, argumentList_findings e name [] args, blockOption_findings e body,
      List.map_append]
termination_by structural c => c

lemma argument_findings (e : Enclosure) (name : String) (seen : List String) (as : List Argument) :
    ∀ a, argFindings e name seen (g.argument a :: as) =
      (argFindings e name seen [a]).map g.finding ++ argFindings e name (a.name.toList ++ seen) as
  | ⟨none, value⟩ => by
    simp only [argument, argFindings, argValue_findings e name value, List.append_nil]
    rfl
  | ⟨some arg, value⟩ => by
    have place : (g.expr value).position = g.position value.position := by
      cases value
      rfl
    simp only [argument, argFindings, argValue_findings e name value, place, List.map_append, List.append_nil]
    split <;> rfl
termination_by structural a => a

lemma argumentList_findings (e : Enclosure) (name : String) (seen : List String) :
    ∀ as, argFindings e name seen (g.argumentList as) = (argFindings e name seen as).map g.finding
  | [] => rfl
  | a :: as => by
    have split : argFindings e name seen (a :: as) =
        argFindings e name seen [a] ++ argFindings e name (a.name.toList ++ seen) as := by
      obtain ⟨_ | arg, value⟩ := a
      · simp only [argFindings, List.append_nil]
        rfl
      · simp only [argFindings, List.append_nil]
        rfl
    rw [argumentList, argument_findings e name seen _ a, argumentList_findings e name _ as, split, List.map_append]
termination_by structural as => as

lemma argValue_findings (e : Enclosure) (name : String) :
    ∀ x, argValueFindings e name (g.expr x) = (argValueFindings e name x).map g.finding
  | ⟨kind, p⟩ => by
    have inside := exprKind_findings e kind
    cases kind with
    | bareWord word => rfl
    | _ => exact inside
termination_by structural x => x

lemma reference_findings (e : Enclosure) :
    ∀ r, Reference.findings e (g.reference r) = (Reference.findings e r).map g.finding
  | ⟨_, _, segments, _, _⟩ => segmentList_findings e segments
termination_by structural r => r

lemma segment_findings (e : Enclosure) (ss : List Segment) : ∀ s, segmentFindings e (g.segment s :: ss) =
    (segmentFindings e [s]).map g.finding ++ segmentFindings e ss
  | ⟨kind, _⟩ => by
    simp only [segment, segmentFindings, segmentKind_findings e kind, List.append_nil]
termination_by structural s => s

lemma segmentList_findings (e : Enclosure) :
    ∀ ss, segmentFindings e (g.segmentList ss) = (segmentFindings e ss).map g.finding
  | [] => rfl
  | s :: ss => by
    have split : segmentFindings e (s :: ss) = segmentFindings e [s] ++ segmentFindings e ss := by
      cases s
      simp only [segmentFindings, List.append_nil]
    rw [segmentList, segment_findings e _ s, segmentList_findings e ss, split, List.map_append]
termination_by structural ss => ss

lemma segmentKind_findings (e : Enclosure) :
    ∀ k, SegmentKind.findings e (g.segmentKind k) = (SegmentKind.findings e k).map g.finding
  | .property _ => rfl
  | .method _ args => exprList_findings e args
  | .index i => expr_findings e i
termination_by structural k => k

lemma expr_findings (e : Enclosure) : ∀ x, Expr.findings e (g.expr x) = (Expr.findings e x).map g.finding
  | ⟨kind, _⟩ => exprKind_findings e kind
termination_by structural x => x

lemma exprKind_findings (e : Enclosure) :
    ∀ k, ExprKind.findings e (g.exprKind k) = (ExprKind.findings e k).map g.finding
  | .literal _ => rfl
  | .bareWord _ => rfl
  | .interpolated body => nodeList_findings _ body
  | .reference r => reference_findings e r
  | .list items => exprList_findings e items
  | .map entries => entryList_findings e entries
  | .range lower upper => by
    simp only [exprKind, ExprKind.findings, expr_findings e lower, expr_findings e upper, List.map_append]
  | .unary _ operand => expr_findings e operand
  | .binary _ left right => by
    simp only [exprKind, ExprKind.findings, expr_findings e left, expr_findings e right, List.map_append]
termination_by structural k => k

lemma exprList_findings (e : Enclosure) :
    ∀ xs, exprFindings e (g.exprList xs) = (exprFindings e xs).map g.finding
  | [] => rfl
  | x :: xs => by
    simp only [exprList, exprFindings, expr_findings e x, exprList_findings e xs, List.map_append]
termination_by structural xs => xs

lemma entry_findings (e : Enclosure) (es : List Entry) : ∀ y, entryFindings e (g.entry y :: es) =
    (entryFindings e [y]).map g.finding ++ entryFindings e es
  | ⟨key, value⟩ => by
    simp only [entry, entryFindings, expr_findings e key, expr_findings e value, List.map_append, List.append_nil]
termination_by structural y => y

lemma entryList_findings (e : Enclosure) :
    ∀ es, entryFindings e (g.entryList es) = (entryFindings e es).map g.finding
  | [] => rfl
  | y :: es => by
    have split : entryFindings e (y :: es) = entryFindings e [y] ++ entryFindings e es := by
      cases y
      simp only [entryFindings, List.append_nil]
    rw [entryList, entry_findings e _ y, entryList_findings e es, split, List.map_append]
termination_by structural es => es

end

lemma faults_map (fs : List Finding) : Finding.faults (fs.map g.finding) = (Finding.faults fs).map g.failure := by
  unfold Finding.faults
  rw [List.filterMap_map, List.map_filterMap]
  congr 1
  funext f
  cases f <;> rfl

lemma definitions_map (fs : List Finding) :
    Finding.definitions (fs.map g.finding) = (Finding.definitions fs).map g.macroDef := by
  unfold Finding.definitions
  rw [List.filterMap_map, List.map_filterMap]
  congr 1
  funext f
  cases f <;> rfl

/-! ### Gobbling -/

/-- Every span stays where it is. -/
def KeepsSpans : Prop := ∀ p, (g.position p).span = p.span

section

variable {g} (spans : List Span)

open Gobbling

mutual

lemma node_strip (hs : g.KeepsSpans) : ∀ n, stripNode spans (g.node n) = (stripNode spans n).map g.node
  | ⟨kind, p⟩ => by
    simp only [node, stripNode, hs p, nodeKind_strip hs p.span.start kind, Option.map_map]
    rfl
termination_by structural n => n

lemma nodeKind_strip (hs : g.KeepsSpans) (offset : Nat) :
    ∀ k, stripKind spans offset (g.nodeKind k) = (stripKind spans offset k).map g.nodeKind
  | .text s => by
    simp only [nodeKind, stripKind]
    split <;> rfl
  | .escaped _ => rfl
  | .raw _ => rfl
  | .comment => rfl
  | .reference _ => rfl
  | .conditional branches otherwise => by
    simp only [nodeKind, stripKind, branchList_strip hs branches, blockOption_strip hs otherwise, Option.map_some]
  | .loop _ _ body otherwise => by
    simp only [nodeKind, stripKind, nodeList_strip hs body, blockOption_strip hs otherwise, Option.map_some]
  | .assign _ _ => rfl
  | .macroDef d => by
    simp only [nodeKind, stripKind, macroDef_strip hs d, Option.map_some]
  | .macroCall c => by
    simp only [nodeKind, stripKind, macroCall_strip hs c, Option.map_some]
  | .parse _ => rfl
  | .inclusion _ => rfl
  | .evaluate _ => rfl
  | .stop => rfl
  | .leave _ => rfl
termination_by structural k => k

lemma macroDef_strip (hs : g.KeepsSpans) : ∀ d, stripDef spans (g.macroDef d) = g.macroDef (stripDef spans d)
  | ⟨_, _, body, _, _⟩ => by
    simp only [macroDef, stripDef, nodeList_strip hs body]
termination_by structural d => d

lemma macroCall_strip (hs : g.KeepsSpans) : ∀ c, stripCall spans (g.macroCall c) = g.macroCall (stripCall spans c)
  | ⟨_, _, body, _⟩ => by
    simp only [macroCall, stripCall, blockOption_strip hs body]
termination_by structural c => c

lemma blockOption_strip (hs : g.KeepsSpans) :
    ∀ o, stripOption spans (g.blockOption o) = g.blockOption (stripOption spans o)
  | none => rfl
  | some b => congrArg some (nodeList_strip hs b)
termination_by structural o => o

lemma branch_strip (hs : g.KeepsSpans) (bs : List Branch) : ∀ b, stripBranches spans (g.branch b :: bs) =
    g.branchList (stripBranches spans [b]) ++ stripBranches spans bs
  | ⟨_, body⟩ => by
    simp only [branch, stripBranches, branchList, nodeList_strip hs body]
    rfl
termination_by structural b => b

lemma branchList_strip (hs : g.KeepsSpans) :
    ∀ bs, stripBranches spans (g.branchList bs) = g.branchList (stripBranches spans bs)
  | [] => rfl
  | b :: bs => by
    have split : stripBranches spans (b :: bs) = stripBranches spans [b] ++ stripBranches spans bs := by
      cases b
      rfl
    rw [branchList, branch_strip hs _ b, branchList_strip hs bs, split, branchList_eq, branchList_eq, branchList_eq,
      List.map_append]
termination_by structural bs => bs

lemma nodeList_strip (hs : g.KeepsSpans) : ∀ ns, stripBlock spans (g.nodeList ns) = g.nodeList (stripBlock spans ns)
  | [] => rfl
  | n :: ns => by
    simp only [nodeList, stripBlock, node_strip hs n, nodeList_strip hs ns]
    cases stripNode spans n <;> rfl
termination_by structural ns => ns

end

end

lemma block_gobble {g : Relocation} (hs : g.KeepsSpans) (policy : GobblingPolicy)
    (cs : List Char) (m : MarkerSpans) (b : Block) :
    Block.gobble policy cs m (g.block b) = g.block (Block.gobble policy cs m b) := by
  unfold Block.gobble
  split
  · rfl
  · exact nodeList_strip _ hs b

end Relocation

/-! ### Failures without their places -/

/-- A failure without the places that it tells of and without the source that it is attached to. -/
def Failure.unplaced (f : Failure) : Failure := ⟨f.cause, none, none, f.trail.map fun x => (x.1, default)⟩

/-- The name of a template. A text that is evaluated is named by the place of its directive, which is left out. -/
def unplacedName (name : String) : String :=
  if "#evaluate at ".toList.isPrefixOf name.toList then "#evaluate" else name

namespace TemplateError

/-- An error without places and sources. -/
def unplaced : TemplateError → TemplateError
  | single f => .single f.unplaced
  | compile name fs => .compile (unplacedName name) (fs.map Failure.unplaced)

@[simp] lemma unplaced_inSource (e : TemplateError) (s : Source) : (e.inSource s).unplaced = e.unplaced := by
  cases e <;> rfl

lemma unplaced_leaving (e : TemplateError) (a : Activation) (p : Position) :
    (e.leaving a p).unplaced = e.unplaced.leaving a default := by
  cases e with
  | single f => exact congrArg single (congrArg (Failure.mk f.cause none none) List.map_append)
  | compile name fs => rfl

lemma unplaced_leaving_congr {e e' : TemplateError} (h : e.unplaced = e'.unplaced) (a : Activation) (p q : Position) :
    (e.leaving a p).unplaced = (e'.leaving a q).unplaced := by
  rw [unplaced_leaving, unplaced_leaving, h]

lemma unplaced_at_ (c : Cause) (p q : Position) : (at_ c p).unplaced = (at_ c q).unplaced := rfl

end TemplateError

lemma Relocation.unplaced_failure (g : Relocation) (f : Failure) : (g.failure f).unplaced = f.unplaced :=
  congrArg (Failure.mk f.cause none none) (List.map_map ..)

/-! ### Compilations -/

section

variable {g : Relocation} {s s' : Source}

/-- A relocation from one source to another one of the same text, in which every span stays where it is. -/
structure Relocation.Renames (g : Relocation) (s s' : Source) : Prop where
  text : s'.text = s.text
  rigid : g.Rigid
  spans : g.KeepsSpans
  carries : g.Carries (.ofSource s) (.ofSource s')

/-- A template is another one somewhere else. -/
structure Relocation.Copies (g : Relocation) (t t' : Template) : Prop where
  root : t'.root = g.block t.root
  source : t'.source = g.source t.source
  macros : ∀ name, t'.macros.get? name = (t.macros.get? name).map g.macroDef

lemma parseTree_moved (h : g.Renames s s') :
    parseTree s' = g.answer (fun x => (g.block x.1, x.2)) (parseTree s) := by
  have chars : (Site.ofSource s').chars = (Site.ofSource s).chars := congrArg String.toList h.text
  unfold parseTree
  dsimp only
  rw [chars]
  cases ht : readTree (Site.ofSource s).chars with
  | error refusal => exact congrArg Except.error (h.carries.refused _ refusal)
  | ok t =>
    dsimp only
    rw [Tree.eval_moved h.rigid h.carries (readsFaithfully_readBlock _ _) (readBlock_moved h.rigid _ _)
      (Site.regular_ofSource s) ht]
    cases t.eval (Rule.meaning (.ofSource s) (readBlock (stringDepth (Site.ofSource s).chars))) with
    | error f => rfl
    | ok p => cases p <;> rfl

lemma parse_moved (h : g.Renames s s') (policy : GobblingPolicy) :
    (∃ b, parse s policy = .ok b ∧ parse s' policy = .ok (g.block b)) ∨
      ∃ e e', parse s policy = .error e ∧ parse s' policy = .error e' ∧ e.unplaced = e'.unplaced := by
  unfold parse
  rw [parseTree_moved h]
  cases parseTree s with
  | error f =>
    refine .inr ⟨_, _, rfl, rfl, ?_⟩
    exact congrArg TemplateError.single (g.unplaced_failure f).symm
  | ok read =>
    refine .inl ⟨_, rfl, ?_⟩
    show Except.ok (Block.gobble policy s'.text.toList read.2 (g.block read.1)) = _
    rw [h.text, Relocation.block_gobble h.spans]

/-- Definitions that stand somewhere else are found under the same names. -/
lemma Macros.get?_ofDefs_map (g : Relocation) (ds : List MacroDef) (name : String) :
    (Macros.ofDefs (ds.map g.macroDef)).get? name = ((Macros.ofDefs ds).get? name).map g.macroDef := by
  -- Both tables are filled from the same names in the same order; the induction is on these.
  have filled (ds : List MacroDef) {m m' : Macros} (hm : ∀ name, m'.get? name = (m.get? name).map g.macroDef)
      (name : String) :
      (((ds.map g.macroDef).map fun d => (d.name, d)).foldl (fun d e => d.insert e.1 e.2) m').get? name =
        ((((ds.map fun d => (d.name, d)).foldl (fun d e => d.insert e.1 e.2) m).get? name).map g.macroDef) := by
    induction ds generalizing m m' with
    | nil => exact hm name
    | cons d ds ih =>
      refine ih fun other => ?_
      have same : (g.macroDef d).name = d.name := by cases d; rfl
      rw [Dict.get?_insert, Dict.get?_insert]
      simp only [same]
      split
      · rfl
      · exact hm other
  exact filled ds (fun _ => rfl) name

/-- The same text compiles under another name to what it compiles to here, put there; or it is refused under both
names for the same reason. -/
theorem Template.compile_moved (h : g.Renames s s') (hn : unplacedName s.name = unplacedName s'.name)
    (u u' : CodeUnit) (policy : GobblingPolicy) :
    (∃ t t', compile u s policy = .ok t ∧ compile u' s' policy = .ok t' ∧ g.Copies t t') ∨
      ∃ e e', compile u s policy = .error e ∧ compile u' s' policy = .error e' ∧ e.unplaced = e'.unplaced := by
  unfold compile
  obtain ⟨b, hb, hb'⟩ | ⟨e, e', he, he', same⟩ := parse_moved h policy
  · rw [hb, hb']
    have faults : (Finding.faults (blockFindings ⟨false, false⟩ (g.block b))) =
        (Finding.faults (blockFindings ⟨false, false⟩ b)).map g.failure := by
      rw [Relocation.block, Relocation.nodeList_findings, Relocation.faults_map]
    have definitions : Finding.definitions (blockFindings ⟨false, false⟩ (g.block b)) =
        (Finding.definitions (blockFindings ⟨false, false⟩ b)).map g.macroDef := by
      rw [Relocation.block, Relocation.nodeList_findings, Relocation.definitions_map]
    have unplaced (fs : List Failure) : (fs.map (·.inSource s)).map Failure.unplaced =
        ((fs.map g.failure).map (·.inSource s')).map Failure.unplaced := by
      simp only [List.map_map]
      exact List.map_congr_left fun f _ => (g.unplaced_failure f).symm
    dsimp only
    rw [faults, definitions]
    rcases Finding.faults (blockFindings ⟨false, false⟩ b) with _ | ⟨f, _ | ⟨f', fs⟩⟩
    · exact .inl ⟨_, _, rfl, rfl, rfl, h.carries.source.symm, Macros.get?_ofDefs_map g _⟩
    · exact .inr ⟨_, _, rfl, rfl, congrArg TemplateError.single (g.unplaced_failure f).symm⟩
    · refine .inr ⟨_, _, rfl, rfl, ?_⟩
      show TemplateError.compile (unplacedName s.name) _ = TemplateError.compile (unplacedName s'.name) _
      rw [hn]
      exact congrArg _ (unplaced (f :: f' :: fs))
  · rw [he, he']
    exact .inr ⟨e, e', rfl, rfl, same⟩

end

end Stencil
