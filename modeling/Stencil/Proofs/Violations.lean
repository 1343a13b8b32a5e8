import Mathlib.Algebra.BigOperators.Group.Multiset.Basic
import Mathlib.Data.List.Infix
import Mathlib.Tactic.Abel
import Stencil.Proofs.Reading.Making
import Stencil.Template

/-!
# Well-formed trees

The places of a tree, at any depth, and what is wrong with each of them. Main statements:
`Block.perm_findings`, a walk over a tree finds what is wrong at its places and what is defined there, each of it
once; `Template.compile_of_parse`, a text that parses compiles exactly when nothing is wrong at any place of its tree.
-/

namespace Stencil

/-! ### Places -/

/-- A node or an expression. -/
inductive Piece where
  | node (n : Node)
  | expr (x : Expr)

/-- A node or an expression in a tree, with what encloses it there. -/
structure Spot where
  enclosure : Enclosure
  piece : Piece

/-- The expressions written directly in a node. -/
def NodeKind.operands : NodeKind → List Expr
  | loop _ iterable _ _ => [iterable]
  | kind => kind.subexprs

def NodeKind.isDefinition : NodeKind → Bool
  | macroDef _ => true
  | _ => false

/-- What encloses the parts of a node. -/
def Enclosure.inside (e : Enclosure) (k : NodeKind) : Enclosure := ⟨e.inMacro || k.isDefinition, e.inString⟩

def Enclosure.quoted (e : Enclosure) : Enclosure := ⟨e.inMacro, true⟩

/-- What stands directly in a node or an expression. -/
inductive Piece.In : Piece → Piece → Prop
  | operand {n : Node} {x : Expr} : x ∈ n.kind.operands → In (.expr x) (.node n)
  | subblock {n m : Node} {b : Block} : b ∈ n.kind.subblocks → m ∈ b → In (.node m) (.node n)
  | expr {x y : Expr} : y ∈ x.kind.exprs → In (.expr y) (.expr x)
  | block {x : Expr} {m : Node} {b : Block} : b ∈ x.kind.blocks → m ∈ b → In (.node m) (.expr x)

namespace Spot

/-- The nodes and expressions directly at a place. A macro inside another is not looked into. -/
def parts : Spot → List Spot
  | ⟨e, .node n⟩ =>
    if e.inMacro && n.kind.isDefinition then []
    else
      (n.kind.operands.map fun x => ⟨e.inside n.kind, .expr x⟩) ++
        n.kind.subblocks.flatMap fun b => b.map fun m => ⟨e.inside n.kind, .node m⟩
  | ⟨e, .expr x⟩ =>
    (x.kind.exprs.map fun y => ⟨e, .expr y⟩) ++
      x.kind.blocks.flatMap fun b => b.map fun m => ⟨e.quoted, .node m⟩

/-- A part of a place stands directly in the node or the expression there. -/
lemma piece_of_part {s t : Spot} (h : t ∈ s.parts) : t.piece.In s.piece := by
  obtain ⟨e, n | x⟩ := s
  · simp only [parts, List.mem_ite_nil_left, List.mem_append, List.mem_map, List.mem_flatMap] at h
    obtain ⟨-, ⟨x, hx, rfl⟩ | ⟨b, hb, m, hm, rfl⟩⟩ := h
    · exact .operand hx
    · exact .subblock hb hm
  · simp only [parts, List.mem_append, List.mem_map, List.mem_flatMap] at h
    obtain ⟨y, hy, rfl⟩ | ⟨b, hb, m, hm, rfl⟩ := h
    · exact .expr hy
    · exact .block hb hm

/-- How large the piece at a place is. -/
noncomputable def size : Spot → Nat
  | ⟨_, .node n⟩ => sizeOf n
  | ⟨_, .expr x⟩ => sizeOf x

end Spot

lemma Node.sizeOf_operands {n : Node} {x : Expr} (h : x ∈ n.kind.operands) : sizeOf x < sizeOf n := by
  obtain ⟨kind, p⟩ := n
  cases kind with
  | loop var iterable body otherwise =>
    have first : x ∈ (NodeKind.loop var iterable body otherwise).exprs := by
      obtain rfl := List.mem_singleton.mp (show x ∈ [iterable] from h)
      exact List.mem_cons_self ..
    exact Node.sizeOf_exprs first
  | macroDef d =>
    obtain ⟨name, params, body, source, q⟩ := d
    obtain ⟨⟨param, fallback, r⟩, hparam, hx⟩ :=
      List.mem_flatMap.mp (show x ∈ params.flatMap (·.fallback.toList) from h)
    obtain rfl := Option.mem_toList.mp hx
    have := List.sizeOf_lt_of_mem hparam
    simp only [Node.mk.sizeOf_spec, NodeKind.macroDef.sizeOf_spec, MacroDef.mk.sizeOf_spec, Param.mk.sizeOf_spec,
      Option.some.sizeOf_spec] at *
    omega
  | _ => exact Node.sizeOf_exprs h

lemma Node.sizeOf_subblocks {n : Node} {b : Block} (h : b ∈ n.kind.subblocks) : sizeOf b < sizeOf n := by
  obtain ⟨kind, p⟩ := n
  cases kind with
  | macroDef d =>
    obtain ⟨name, params, body, source, q⟩ := d
    obtain rfl := List.mem_singleton.mp (show b ∈ [body] from h)
    simp only [Node.mk.sizeOf_spec, NodeKind.macroDef.sizeOf_spec, MacroDef.mk.sizeOf_spec]
    omega
  | _ => exact Node.sizeOf_blocks h

namespace Spot

lemma size_parts {s t : Spot} (h : t ∈ s.parts) : t.size < s.size := by
  -- A node in a block is smaller than the block, and that is smaller than what it is a block of.
  have inBlock {b : Block} {m : Node} {k : Nat} (hm : m ∈ b) (hb : sizeOf b < k) : sizeOf m < k :=
    Nat.lt_trans (List.sizeOf_lt_of_mem hm) hb
  have within := piece_of_part h
  obtain ⟨_, piece⟩ := s
  obtain ⟨_, part⟩ := t
  cases within with
  | operand hx => exact Node.sizeOf_operands hx
  | subblock hb hm => exact inBlock hm (Node.sizeOf_subblocks hb)
  | expr hy => exact Expr.sizeOf_exprs hy
  | block hb hm => exact inBlock hm (Expr.sizeOf_blocks hb)

/-- A place and all places in it. -/
def all (s : Spot) : List Spot := s :: s.parts.attach.flatMap fun t => t.1.all
termination_by s.size
decreasing_by exact size_parts t.2

lemma all_eq (s : Spot) : s.all = s :: s.parts.flatMap Spot.all := by
  rw [all, List.flatMap_subtype (fun _ _ => rfl), List.unattach_attach]

end Spot

/-! ### What is wrong at a place -/

/-- The call that a reference ends with, by its name and its position. -/
def Reference.lastCall? (r : Reference) : Option (String × Position) :=
  match r.segments.getLast? with
  | some ⟨.method name _, p⟩ => some (name, p)
  | _ => none

/-- The fault of an argument of the call of a name that is a word without quotes. -/
def Argument.wordFault? (name : String) (a : Argument) : Option Failure :=
  match a.value.kind with
  | .bareWord word => some (.at_ (.init (.bareWord word name)) a.value.position)
  | _ => none

section

variable {α : Type} (key : α → Option String)

/-- The key of a member, if a member before it has the same. -/
def keyAgain? (before : List α) (x : α) : Option (String × α) :=
  (key x).bind fun k => if k ∈ before.filterMap key then some (k, x) else none

/-- The members of a list whose key a member before them has, with that key. -/
def repeated (xs : List α) : List (String × α) := (xs.inits.zip xs).filterMap fun (before, x) => keyAgain? key before x

/-- The members of a list whose key a member before them has, given also what stands before the list. -/
def repeatedAfter (before : List α) (xs : List α) : List (String × α) :=
  ((xs.inits.map (before ++ ·)).zip xs).filterMap fun (before, x) => keyAgain? key before x

lemma repeated_eq (xs : List α) : repeated key xs = repeatedAfter key [] xs := by
  unfold repeated repeatedAfter
  simp only [List.nil_append, List.map_id']

lemma repeatedAfter_cons (before : List α) (x : α) (xs : List α) :
    repeatedAfter key before (x :: xs) = (keyAgain? key before x).toList ++ repeatedAfter key (before ++ [x]) xs := by
  unfold repeatedAfter
  simp only [List.inits_cons, List.map_cons, List.append_nil, List.zip_cons_cons, List.filterMap_cons, List.map_map]
  cases keyAgain? key before x with
  | none => simp [Function.comp_def]
  | some found => simp [Function.comp_def]

end

namespace Spot

/-- What is wrong at a place itself. -/
def violations : Spot → List Failure
  | ⟨e, .node ⟨kind, p⟩⟩ =>
    match kind with
    | .macroCall c =>
      c.args.filterMap (·.wordFault? c.name) ++
        (repeated (·.name) c.args).map fun (name, a) => .at_ (.init (.repeatedArgument name c.name)) a.value.position
    | .macroDef d =>
      if e.inMacro then [.at_ (.init (.nestedMacro d.name)) p]
      else
        (repeated (some ·.name) d.params).map fun (name, q) => .at_ (.init (.repeatedParameter d.name name)) q.position
    | .assign target _ =>
      target.lastCall?.toList.map fun (name, q) => .at_ (.init (.assignToCall name target.literal)) q
    | .stop => if e.inString then [.at_ (.init .flowInString) p] else []
    | .leave scope =>
      if e.inString then [.at_ (.init .flowInString) p]
      else
        match scope with
        | .unknown label => [.at_ (.init (.unknownScope label)) p]
        | _ => []
    | _ => []
  | ⟨_, .expr _⟩ => []

/-- The macro that is defined at a place. -/
def definition? : Spot → Option MacroDef
  | ⟨e, .node ⟨.macroDef d, _⟩⟩ => if e.inMacro then none else some d
  | _ => none

/-- What a walk is to find at a place itself. -/
def findings (s : Spot) : List Finding := s.violations.map .fault ++ s.definition?.toList.map .definition

/-- All that is to be found at a place and in it, in any order. -/
def tally (s : Spot) : Multiset Finding := s.all.flatMap findings

lemma tally_eq (s : Spot) : s.tally = s.findings + (s.parts.map tally).sum := by
  have inner (ts : List Spot) :
      (((ts.flatMap all).flatMap findings : List Finding) : Multiset Finding) = (ts.map tally).sum := by
    induction ts with
    | nil => rfl
    | cons t ts ih =>
      simp only [List.flatMap_cons, List.flatMap_append, List.map_cons, List.sum_cons, ← Multiset.coe_add, ih]
      rfl
  rw [tally, all_eq, List.flatMap_cons, ← Multiset.coe_add, inner]

end Spot

def Expr.tally (e : Enclosure) (x : Expr) : Multiset Finding := Spot.tally ⟨e, .expr x⟩

def Node.tally (e : Enclosure) (n : Node) : Multiset Finding := Spot.tally ⟨e, .node n⟩

def Block.tally (e : Enclosure) (b : Block) : Multiset Finding := (b.map (Node.tally e)).sum

section

variable {e : Enclosure}

lemma sum_tally_nodes (bs : List Block) :
    ((bs.flatMap fun b => b.map fun m => (⟨e, .node m⟩ : Spot)).map Spot.tally).sum = (bs.map (Block.tally e)).sum := by
  induction bs with
  | nil => rfl
  | cons b bs ih =>
    simp only [List.flatMap_cons, List.map_append, List.sum_append, List.map_cons, List.sum_cons, ih, List.map_map]
    rfl

lemma Expr.tally_eq (x : Expr) :
    x.tally e = (x.kind.exprs.map (tally e)).sum + (x.kind.blocks.map (Block.tally e.quoted)).sum := by
  rw [tally, Spot.tally_eq]
  simp only [Spot.parts, List.map_append, List.sum_append, sum_tally_nodes, List.map_map]
  show (([] : List Finding) : Multiset Finding) + _ = _
  rw [Multiset.coe_nil, zero_add]
  rfl

lemma Node.tally_eq {n : Node} (h : (e.inMacro && n.kind.isDefinition) = false) :
    n.tally e = Spot.findings ⟨e, .node n⟩ + ((n.kind.operands.map (Expr.tally (e.inside n.kind))).sum +
      (n.kind.subblocks.map (Block.tally (e.inside n.kind))).sum) := by
  rw [tally, Spot.tally_eq]
  simp only [Spot.parts, h, Bool.false_eq_true, if_false, List.map_append, List.sum_append, sum_tally_nodes,
    List.map_map]
  rfl

/-! ### The walk -/

/-- A walk over an expression finds what is to be found in it. -/
def Expr.Tallied (e : Enclosure) (x : Expr) : Prop := (Expr.findings e x : Multiset Finding) = x.tally e

def Node.Tallied (e : Enclosure) (n : Node) : Prop := (Node.findings e n : Multiset Finding) = n.tally e

def Block.Tallied (e : Enclosure) (b : Block) : Prop := (blockFindings e b : Multiset Finding) = Block.tally e b

lemma tallied_block {b : Block} (h : ∀ n ∈ b, n.Tallied e) : Block.Tallied e b := by
  induction b with
  | nil => rfl
  | cons n b ih =>
    have first : (Node.findings e n : Multiset Finding) = n.tally e := h n (List.mem_cons_self ..)
    have later : (blockFindings e b : Multiset Finding) = Block.tally e b :=
      ih fun m hm => h m (List.mem_cons_of_mem _ hm)
    rw [Block.Tallied, blockFindings, ← Multiset.coe_add, first, later]
    rfl

lemma coe_optionFindings {o : Option Block} (h : ∀ b ∈ o, Block.Tallied e b) :
    (optionFindings e o : Multiset Finding) = (o.toList.map (Block.tally e)).sum := by
  cases o with
  | none => rfl
  | some b =>
    rw [optionFindings, Option.toList_some, List.map_singleton, List.sum_singleton]
    exact h b rfl

lemma coe_exprFindings {xs : List Expr} (h : ∀ x ∈ xs, x.Tallied e) :
    (exprFindings e xs : Multiset Finding) = (xs.map (Expr.tally e)).sum := by
  induction xs with
  | nil => rfl
  | cons x xs ih =>
    have first : (Expr.findings e x : Multiset Finding) = x.tally e := h x (List.mem_cons_self ..)
    rw [exprFindings, ← Multiset.coe_add, first, ih fun y hy => h y (List.mem_cons_of_mem _ hy), List.map_cons,
      List.sum_cons]

lemma coe_segmentFindings {ss : List Segment} (h : ∀ s ∈ ss, ∀ x ∈ s.kind.exprs, x.Tallied e) :
    (segmentFindings e ss : Multiset Finding) = ((ss.flatMap (·.kind.exprs)).map (Expr.tally e)).sum := by
  induction ss with
  | nil => rfl
  | cons s ss ih =>
    obtain ⟨kind, p⟩ := s
    have here := h _ (List.mem_cons_self ..)
    have first : (SegmentKind.findings e kind : Multiset Finding) = (kind.exprs.map (Expr.tally e)).sum := by
      cases kind with
      | property name => rfl
      | method name args => exact coe_exprFindings here
      | index i =>
        rw [SegmentKind.findings, SegmentKind.exprs, List.map_singleton, List.sum_singleton]
        exact here i (List.mem_singleton_self i)
    rw [segmentFindings, ← Multiset.coe_add, first, ih fun t ht => h t (List.mem_cons_of_mem _ ht), List.flatMap_cons,
      List.map_append, List.sum_append]

lemma coe_referenceFindings {r : Reference} (h : ∀ x ∈ r.exprs, x.Tallied e) :
    (Reference.findings e r : Multiset Finding) = (r.exprs.map (Expr.tally e)).sum := by
  obtain ⟨root, quiet, segments, literal, p⟩ := r
  exact coe_segmentFindings fun s hs x hx => h x (List.mem_flatMap.mpr ⟨s, hs, hx⟩)

lemma coe_entryFindings {es : List Entry} (h : ∀ x ∈ es.flatMap fun y => [y.key, y.value], x.Tallied e) :
    (entryFindings e es : Multiset Finding) = ((es.flatMap fun y => [y.key, y.value]).map (Expr.tally e)).sum := by
  induction es with
  | nil => rfl
  | cons y es ih =>
    obtain ⟨key, value⟩ := y
    have hkey : (Expr.findings e key : Multiset Finding) = key.tally e := h key (by simp)
    have hvalue : (Expr.findings e value : Multiset Finding) = value.tally e := h value (by simp)
    rw [entryFindings, ← Multiset.coe_add, ← Multiset.coe_add, hkey, hvalue,
      ih fun x hx => h x (List.mem_append_right _ hx), List.flatMap_cons, List.map_append, List.sum_append]
    simp only [List.map_cons, List.map_nil, List.sum_cons, List.sum_nil, add_zero]

lemma coe_branchFindings {bs : List Branch} (hx : ∀ b ∈ bs, b.condition.Tallied e)
    (hb : ∀ b ∈ bs, Block.Tallied e b.body) :
    (branchFindings e bs : Multiset Finding) =
      ((bs.map (·.condition)).map (Expr.tally e)).sum + ((bs.map (·.body)).map (Block.tally e)).sum := by
  induction bs with
  | nil => rfl
  | cons b bs ih =>
    obtain ⟨condition, body⟩ := b
    have first : (Expr.findings e condition : Multiset Finding) = condition.tally e := hx _ (List.mem_cons_self ..)
    have second : (blockFindings e body : Multiset Finding) = Block.tally e body := hb _ (List.mem_cons_self ..)
    have later := ih (fun x h => hx x (List.mem_cons_of_mem _ h)) fun x h => hb x (List.mem_cons_of_mem _ h)
    rw [branchFindings, ← Multiset.coe_add, ← Multiset.coe_add, first, second, later]
    simp only [List.map_cons, List.sum_cons]
    abel

/-- The faults of a list of failures. -/
def Failure.tally (fs : List Failure) : Multiset Finding := fs.map Finding.fault

lemma Failure.tally_append (fs gs : List Failure) : tally (fs ++ gs) = tally fs + tally gs := by
  rw [tally, List.map_append, ← Multiset.coe_add]
  rfl

lemma Failure.tally_filterMap_cons {α : Type} (f : α → Option Failure) (x : α) (xs : List α) :
    tally ((x :: xs).filterMap f) = tally (f x).toList + tally (xs.filterMap f) := by
  rw [← tally_append]
  cases hx : f x with
  | none => rw [List.filterMap_cons_none hx]; rfl
  | some g => rw [List.filterMap_cons_some hx]; rfl

lemma Failure.tally_repeated_cons {α : Type} (key : α → Option String) (f : String × α → Failure) (before : List α)
    (x : α) (xs : List α) : tally ((repeatedAfter key before (x :: xs)).map f) =
      tally ((keyAgain? key before x).toList.map f) + tally ((repeatedAfter key (before ++ [x]) xs).map f) := by
  rw [repeatedAfter_cons, List.map_append, tally_append]

/-- A name is repeated where the names seen before contain it. -/
lemma Failure.tally_again {α : Type} (key : α → Option String) (f : String × α → Failure) {before : List α}
    {seen : List String} (hs : ∀ k, k ∈ seen ↔ k ∈ before.filterMap key) {x : α} {k : String} (hk : key x = some k) :
    tally ((keyAgain? key before x).toList.map f) = tally (if seen.contains k then [f (k, x)] else []) := by
  have same : seen.contains k = true ↔ k ∈ before.filterMap key := by
    rw [List.contains_iff_mem]
    exact hs k
  unfold keyAgain?
  rw [hk, Option.bind_some]
  by_cases hc : k ∈ before.filterMap key
  · rw [if_pos hc, if_pos (same.mpr hc)]
    rfl
  · rw [if_neg hc, if_neg (mt same.mp hc)]
    rfl

lemma seen_cons {α : Type} {key : α → Option String} {before : List α} {seen : List String}
    (hs : ∀ k, k ∈ seen ↔ k ∈ before.filterMap key) {x : α} {k : String} (hk : key x = some k) (j : String) :
    j ∈ k :: seen ↔ j ∈ (before ++ [x]).filterMap key := by
  rw [List.filterMap_append, List.mem_append, List.mem_cons, ← hs j, List.filterMap_cons_some hk]
  simp only [List.filterMap_nil, List.mem_singleton, or_comm]

/-! ### Arguments and parameters -/

lemma coe_argValueFindings (name : String) {a : Argument} (h : a.value.Tallied e) :
    (argValueFindings e name a.value : Multiset Finding) =
      Failure.tally (a.wordFault? name).toList + a.value.tally e := by
  obtain ⟨label, kind, p⟩ := a
  cases kind with
  | bareWord word =>
    -- A word without quotes has no parts, so that nothing but the fault is found.
    rw [Expr.tally_eq]
    rfl
  | _ =>
    show _ = (([] : List Finding) : Multiset Finding) + _
    rw [Multiset.coe_nil, zero_add, ← h]
    rfl

lemma coe_argFindings {name : String} {args before : List Argument} {seen : List String}
    (hs : ∀ k, k ∈ seen ↔ k ∈ before.filterMap (·.name)) (h : ∀ a ∈ args, a.value.Tallied e) :
    (argFindings e name seen args : Multiset Finding) =
      Failure.tally (args.filterMap (·.wordFault? name)) +
        Failure.tally ((repeatedAfter (·.name) before args).map fun (arg, a) =>
          .at_ (.init (.repeatedArgument arg name)) a.value.position) +
        ((args.map (·.value)).map (Expr.tally e)).sum := by
  induction args generalizing before seen with
  | nil => rfl
  | cons a args ih =>
    have value := coe_argValueFindings name (h a (List.mem_cons_self ..))
    have later {seen : List String} (hs : ∀ k, k ∈ seen ↔ k ∈ (before ++ [a]).filterMap (·.name)) :=
      ih hs fun x hx => h x (List.mem_cons_of_mem _ hx)
    rw [Failure.tally_filterMap_cons, Failure.tally_repeated_cons, List.map_cons, List.map_cons, List.sum_cons]
    obtain ⟨_ | arg, v⟩ := a
    · have unnamed : ∀ k, k ∈ seen ↔ k ∈ (before ++ [(⟨none, v⟩ : Argument)]).filterMap (·.name) := by
        simpa only [List.filterMap_append, List.filterMap_cons, List.filterMap_nil, List.append_nil] using hs
      have again : Failure.tally ((keyAgain? (·.name) before (⟨none, v⟩ : Argument)).toList.map fun (arg, a) =>
          .at_ (.init (.repeatedArgument arg name)) a.value.position) = 0 := rfl
      rw [argFindings, ← Multiset.coe_add, value, later unnamed, again]
      abel
    · have again := Failure.tally_again (·.name) (fun (arg, a) =>
        .at_ (.init (.repeatedArgument arg name)) a.value.position) hs (x := (⟨some arg, v⟩ : Argument)) rfl
      have found : ((if seen.contains arg then [Finding.at_ (.repeatedArgument arg name) v.position] else [] :
          List Finding) : Multiset Finding) =
          Failure.tally (if seen.contains arg then [.at_ (.init (.repeatedArgument arg name)) v.position] else []) := by
        split <;> rfl
      rw [argFindings, ← Multiset.coe_add, ← Multiset.coe_add, value, later (seen_cons hs rfl), again, found]
      abel

lemma coe_paramFindings {name : String} {params before : List Param} {seen : List String}
    (hs : ∀ k, k ∈ seen ↔ k ∈ before.filterMap (some ·.name))
    (h : ∀ x ∈ params.flatMap (·.fallback.toList), x.Tallied e) :
    (paramFindings e name seen params : Multiset Finding) =
      Failure.tally ((repeatedAfter (some ·.name) before params).map fun (param, q) =>
        .at_ (.init (.repeatedParameter name param)) q.position) +
        ((params.flatMap (·.fallback.toList)).map (Expr.tally e)).sum := by
  induction params generalizing before seen with
  | nil => rfl
  | cons q params ih =>
    obtain ⟨param, fallback, p⟩ := q
    have first : (fallbackFindings e fallback : Multiset Finding) = (fallback.toList.map (Expr.tally e)).sum := by
      cases fallback with
      | none => rfl
      | some x =>
        rw [fallbackFindings, Option.toList_some, List.map_singleton, List.sum_singleton]
        exact h x (List.mem_append_left _ (List.mem_singleton_self x))
    have again := Failure.tally_again (some ·.name) (fun (param, q) =>
      .at_ (.init (.repeatedParameter name param)) q.position) hs (x := (⟨param, fallback, p⟩ : Param)) rfl
    have found : ((if seen.contains param then [Finding.at_ (.repeatedParameter name param) p] else [] :
        List Finding) : Multiset Finding) =
        Failure.tally (if seen.contains param then [.at_ (.init (.repeatedParameter name param)) p] else []) := by
      split <;> rfl
    have later := ih (seen_cons hs (x := (⟨param, fallback, p⟩ : Param)) rfl) fun x hx => h x (List.mem_append_right _ hx)
    rw [paramFindings, ← Multiset.coe_add, ← Multiset.coe_add, found, first, later, Failure.tally_repeated_cons, again,
      List.flatMap_cons, List.map_append, List.sum_append]
    abel

/-! ### Expressions and nodes -/

lemma Expr.tallied_of_parts {x : Expr} (hx : ∀ y ∈ x.kind.exprs, y.Tallied e)
    (hb : ∀ b ∈ x.kind.blocks, Block.Tallied e.quoted b) : x.Tallied e := by
  obtain ⟨kind, p⟩ := x
  have two {x y : Expr} (h : ∀ z ∈ [x, y], z.Tallied e) :
      (Expr.findings e x ++ Expr.findings e y : List Finding) = (([x, y].map (Expr.tally e)).sum : Multiset Finding) := by
    rw [← Multiset.coe_add, h x (by simp), h y (by simp)]
    simp only [List.map_cons, List.map_nil, List.sum_cons, List.sum_nil, add_zero]
  rw [Expr.Tallied, Expr.tally_eq, Expr.findings]
  cases kind with
  | literal l => rfl
  | bareWord word => rfl
  | interpolated body =>
    have inner : (blockFindings e.quoted body : Multiset Finding) = Block.tally e.quoted body :=
      hb body (List.mem_singleton_self body)
    show (blockFindings e.quoted body : Multiset Finding) = 0 + ([Block.tally e.quoted body]).sum
    rw [inner, List.sum_singleton, zero_add]
  | reference r => exact (coe_referenceFindings hx).trans (add_zero _).symm
  | list items => exact (coe_exprFindings hx).trans (add_zero _).symm
  | map entries => exact (coe_entryFindings hx).trans (add_zero _).symm
  | range lower upper => exact (two hx).trans (add_zero _).symm
  | binary op left right => exact (two hx).trans (add_zero _).symm
  | unary op operand =>
    have inner : (Expr.findings e operand : Multiset Finding) = operand.tally e :=
      hx operand (List.mem_singleton_self operand)
    show (Expr.findings e operand : Multiset Finding) = ([operand.tally e]).sum + 0
    rw [inner, List.sum_singleton, add_zero]

/-- What encloses the parts of a node that defines no macro. -/
lemma Enclosure.inside_of_not {k : NodeKind} (h : k.isDefinition = false) : e.inside k = e := by
  rw [inside, h, Bool.or_false]

lemma Reference.coe_targetFindings (r : Reference) : (r.targetFindings : Multiset Finding) =
    Failure.tally (r.lastCall?.toList.map fun (name, q) => .at_ (.init (.assignToCall name r.literal)) q) := by
  unfold targetFindings lastCall?
  cases hl : r.segments.getLast? with
  | none => rfl
  | some s =>
    obtain ⟨kind, p⟩ := s
    cases kind <;> rfl

lemma Node.tally_eq_of_not {k : NodeKind} {p : Position} (h : k.isDefinition = false) :
    Node.tally e ⟨k, p⟩ = Failure.tally (Spot.violations ⟨e, .node ⟨k, p⟩⟩) +
      ((k.operands.map (Expr.tally e)).sum + (k.subblocks.map (Block.tally e)).sum) := by
  have none : Spot.definition? ⟨e, .node ⟨k, p⟩⟩ = none := by
    cases k with
    | macroDef d => cases h
    | _ => rfl
  rw [Node.tally_eq (by rw [h, Bool.and_false]), Enclosure.inside_of_not h, Spot.findings, none, Option.toList_none,
    List.map_nil, List.append_nil]
  rfl

lemma Node.tallied_of_not {k : NodeKind} {p : Position} (hd : k.isDefinition = false)
    (hx : ∀ y ∈ k.operands, y.Tallied e) (hb : ∀ b ∈ k.subblocks, Block.Tallied e b) : Node.Tallied e ⟨k, p⟩ := by
  have alone (m : Multiset Finding) : m = Failure.tally [] + (m + 0) := by
    rw [add_zero]
    exact (zero_add m).symm
  rw [Node.Tallied, Node.tally_eq_of_not hd, Node.findings]
  cases k with
  | text s => rfl
  | escaped s => rfl
  | raw s => rfl
  | comment => rfl
  | macroDef d => cases hd
  | reference r => exact (coe_referenceFindings hx).trans (alone _)
  | conditional branches otherwise =>
    have first := @coe_branchFindings e branches (fun b h => hx _ (List.mem_map_of_mem h)) fun b h =>
      hb _ (List.mem_append_left _ (List.mem_map_of_mem h))
    have second := coe_optionFindings (o := otherwise) fun b h => hb b (List.mem_append_right _ (Option.mem_toList.mpr h))
    have blocks : (NodeKind.conditional branches otherwise).subblocks = branches.map (·.body) ++ otherwise.toList := rfl
    rw [NodeKind.findings, ← Multiset.coe_add, first, second, blocks, List.map_append, List.sum_append]
    show _ = 0 + (((branches.map (·.condition)).map (Expr.tally e)).sum + _)
    abel
  | loop var iterable body otherwise =>
    have items : (Expr.findings e iterable : Multiset Finding) = iterable.tally e := hx _ (List.mem_singleton_self _)
    have rounds : (blockFindings e body : Multiset Finding) = Block.tally e body := hb _ (List.mem_cons_self ..)
    have empty := coe_optionFindings (o := otherwise) fun b h => hb b (List.mem_cons_of_mem _ (Option.mem_toList.mpr h))
    rw [NodeKind.findings, ← Multiset.coe_add, ← Multiset.coe_add, items, rounds, empty]
    show _ = 0 + (([iterable.tally e]).sum + ((Block.tally e body) :: otherwise.toList.map (Block.tally e)).sum)
    rw [List.sum_singleton, List.sum_cons]
    abel
  | assign target value =>
    have source : (Expr.findings e value : Multiset Finding) = value.tally e := hx _ (List.mem_cons_self ..)
    have path := coe_referenceFindings (r := target) fun x h => hx x (List.mem_cons_of_mem _ h)
    rw [NodeKind.findings, ← Multiset.coe_add, ← Multiset.coe_add, target.coe_targetFindings, source, path]
    show _ = Failure.tally (target.lastCall?.toList.map _) + ((value.tally e :: target.exprs.map (Expr.tally e)).sum + 0)
    rw [List.sum_cons]
    abel
  | macroCall c =>
    obtain ⟨name, args, body, literal⟩ := c
    have given := @coe_argFindings e name args [] []
      (fun k => by simp) fun a h => hx _ (List.mem_map_of_mem h)
    have content := coe_optionFindings (o := body) fun b h => hb b (Option.mem_toList.mpr h)
    rw [NodeKind.findings, MacroCall.findings, ← Multiset.coe_add, given, content, ← Failure.tally_append, add_assoc]
    show _ = Failure.tally (args.filterMap _ ++ (repeated (·.name) args).map _) + _
    rw [repeated_eq]
    rfl
  | parse name =>
    have inner : (Expr.findings e name : Multiset Finding) = ([name.tally e]).sum := by
      rw [List.sum_singleton]
      exact hx _ (List.mem_singleton_self _)
    exact inner.trans (alone _)
  | inclusion names => exact (coe_exprFindings hx).trans (alone _)
  | evaluate text =>
    have inner : (Expr.findings e text : Multiset Finding) = ([text.tally e]).sum := by
      rw [List.sum_singleton]
      exact hx _ (List.mem_singleton_self _)
    exact inner.trans (alone _)
  | stop =>
    show ((if e.inString then _ else _ : List Finding) : Multiset Finding) = Failure.tally (if e.inString then _ else _) + 0
    split <;> rfl
  | leave scope =>
    unfold NodeKind.findings Spot.violations
    dsimp only
    split
    · rfl
    · cases scope <;> rfl

/-- A definition is found after what is found in it; one inside another is a fault and not looked into. -/
lemma Node.tallied_definition {d : MacroDef} {p : Position}
    (hx : ∀ y ∈ (NodeKind.macroDef d).operands, y.Tallied ⟨true, e.inString⟩)
    (hb : Block.Tallied ⟨true, e.inString⟩ d.body) : Node.Tallied e ⟨.macroDef d, p⟩ := by
  obtain ⟨name, params, body, source, q⟩ := d
  rw [Node.Tallied, Node.findings, NodeKind.findings, MacroDef.findings]
  cases hm : e.inMacro with
  | true =>
    have closed : (⟨e, .node ⟨.macroDef ⟨name, params, body, source, q⟩, p⟩⟩ : Spot).parts = [] := by
      show (if e.inMacro && true then [] else _) = []
      rw [hm]
      rfl
    rw [Node.tally, Spot.tally_eq, closed, Spot.findings, Spot.violations, Spot.definition?, hm]
    rfl
  | false =>
    have inside : e.inside (.macroDef ⟨name, params, body, source, q⟩) = ⟨true, e.inString⟩ := by
      rw [Enclosure.inside, hm]
      rfl
    have given := @coe_paramFindings ⟨true, e.inString⟩ name params [] [] (fun k => by simp) hx
    have content : (blockFindings ⟨true, e.inString⟩ body : Multiset Finding) = Block.tally ⟨true, e.inString⟩ body := hb
    rw [Node.tally_eq (by rw [hm, Bool.false_and]), inside, Spot.findings, Spot.violations, Spot.definition?, hm,
      repeated_eq]
    simp only [Bool.false_eq_true, if_false, ← Multiset.coe_add, given, content]
    show _ = Failure.tally _ + _ + (_ + ([Block.tally ⟨true, e.inString⟩ body]).sum)
    rw [List.sum_singleton]
    show _ + ((params.flatMap (·.fallback.toList)).map _).sum + _ + _ = _ + _ + (((params.flatMap (·.fallback.toList)).map _).sum + _)
    abel

/-- A walk over a tree finds what is to be found at its places: by induction on the size of its parts. -/
lemma tallied_of_size (size : Nat) :
    (∀ (e : Enclosure) (x : Expr), sizeOf x < size → x.Tallied e) ∧
      ∀ (e : Enclosure) (n : Node), sizeOf n < size → n.Tallied e := by
  induction size with
  | zero => exact ⟨nofun, nofun⟩
  | succ size ih =>
    have block {e : Enclosure} {b : Block} (h : sizeOf b < size) : Block.Tallied e b :=
      tallied_block fun n hn => ih.2 e n (Nat.lt_trans (List.sizeOf_lt_of_mem hn) h)
    constructor
    · intro e x hs
      refine Expr.tallied_of_parts (fun y hy => ih.1 e y ?_) fun b hb => block ?_
      · have := Expr.sizeOf_exprs hy
        omega
      · have := Expr.sizeOf_blocks hb
        omega
    · intro e n hs
      have exprs {e : Enclosure} : ∀ y ∈ n.kind.operands, y.Tallied e := by
        intro y hy
        have := Node.sizeOf_operands hy
        exact ih.1 e y (by omega)
      have blocks {e : Enclosure} : ∀ b ∈ n.kind.subblocks, Block.Tallied e b := by
        intro b hb
        have := Node.sizeOf_subblocks hb
        exact block (by omega)
      obtain ⟨kind, p⟩ := n
      cases kind with
      | macroDef d => exact Node.tallied_definition exprs (blocks _ (List.mem_singleton_self _))
      | _ => exact Node.tallied_of_not rfl exprs blocks

end

/-! ### Well-formed trees -/

/-- Whether a template may have what stands at a place. -/
def Spot.Allowed : Spot → Prop
  | ⟨e, .node ⟨kind, _⟩⟩ =>
    match kind with
    | .macroCall c => (∀ a ∈ c.args, a.value.isWord = false) ∧ (c.args.filterMap (·.name)).Nodup
    | .macroDef d => e.inMacro = false ∧ (d.params.map (·.name)).Nodup
    | .assign target _ => target.lastCall? = none
    | .stop => e.inString = false
    | .leave scope => e.inString = false ∧ ∀ label, scope ≠ .unknown label
    | _ => True
  | ⟨_, .expr _⟩ => True

/-- The places of a template. -/
def Block.spots (b : Block) : List Spot := b.flatMap fun n => Spot.all ⟨⟨false, false⟩, .node n⟩

def Block.WellFormed (b : Block) : Prop := ∀ s ∈ b.spots, s.Allowed

/-- All that is wrong with a template. -/
def Block.violations (b : Block) : List Failure := b.spots.flatMap Spot.violations

section

variable {α : Type} {key : α → Option String}

lemma repeatedAfter_eq_nil_iff {before xs : List α} : repeatedAfter key before xs = [] ↔
    (xs.filterMap key).Nodup ∧ ∀ k ∈ xs.filterMap key, k ∉ before.filterMap key := by
  induction xs generalizing before with
  | nil => simp [repeatedAfter]
  | cons x xs ih =>
    rw [repeatedAfter_cons, List.append_eq_nil_iff, Option.toList_eq_nil_iff, ih, List.filterMap_append]
    unfold keyAgain?
    cases hk : key x with
    | none => simp [hk]
    | some k =>
      simp only [hk, Option.bind_some, ite_eq_right_iff, reduceCtorEq, imp_false, List.filterMap_cons, List.filterMap_nil,
        List.nodup_cons, List.mem_cons, List.mem_append, List.not_mem_nil, or_false, forall_eq_or_imp, not_or]
      constructor
      · rintro ⟨fresh, distinct, apart⟩
        exact ⟨⟨fun hmem => (apart k hmem).2 rfl, distinct⟩, fresh, fun j hj => (apart j hj).1⟩
      · rintro ⟨⟨alone, distinct⟩, fresh, apart⟩
        exact ⟨fresh, distinct, fun j hj => ⟨apart j hj, fun same => alone (same ▸ hj)⟩⟩

/-- Nothing is repeated exactly when the keys are distinct. -/
lemma repeated_eq_nil_iff {xs : List α} : repeated key xs = [] ↔ (xs.filterMap key).Nodup := by
  rw [repeated_eq, repeatedAfter_eq_nil_iff]
  exact ⟨fun h => h.1, fun h => ⟨h, fun _ _ => List.not_mem_nil⟩⟩

end

lemma Argument.wordFault?_eq_none_iff {name : String} {a : Argument} :
    a.wordFault? name = none ↔ a.value.isWord = false := by
  obtain ⟨label, kind, p⟩ := a
  cases kind with
  | bareWord word => exact ⟨nofun, nofun⟩
  | _ => exact ⟨fun _ => rfl, fun _ => rfl⟩

/-- A place is as a template may have it exactly when nothing is wrong there. -/
theorem Spot.violations_eq_nil_iff {s : Spot} : s.violations = [] ↔ s.Allowed := by
  obtain ⟨e, ⟨kind, p⟩ | x⟩ := s
  · cases kind with
    | macroCall c =>
      show _ ++ List.map _ _ = [] ↔ _ ∧ _
      rw [List.append_eq_nil_iff, List.filterMap_eq_nil_iff, List.map_eq_nil_iff, repeated_eq_nil_iff]
      simp only [Argument.wordFault?_eq_none_iff]
    | macroDef d =>
      show (if e.inMacro then _ else _) = [] ↔ _ ∧ _
      cases e.inMacro with
      | true => exact ⟨nofun, nofun⟩
      | false =>
        have keys : d.params.filterMap (some ·.name) = d.params.map (·.name) :=
          congrFun List.filterMap_eq_map d.params
        rw [if_neg Bool.false_ne_true, List.map_eq_nil_iff, repeated_eq_nil_iff, keys]
        exact ⟨fun h => ⟨rfl, h⟩, fun h => h.2⟩
    | assign target value =>
      show List.map _ target.lastCall?.toList = [] ↔ target.lastCall? = none
      rw [List.map_eq_nil_iff, Option.toList_eq_nil_iff]
    | stop =>
      show (if e.inString then _ else _) = [] ↔ e.inString = false
      cases e.inString with
      | true => exact ⟨nofun, nofun⟩
      | false => exact ⟨fun _ => rfl, fun _ => rfl⟩
    | leave scope =>
      show (if e.inString then _ else _) = [] ↔ e.inString = false ∧ _
      cases e.inString with
      | true => exact ⟨nofun, nofun⟩
      | false =>
        cases scope with
        | unknown label => exact ⟨nofun, fun h => absurd rfl (h.2 label)⟩
        | _ => exact ⟨fun _ => ⟨rfl, nofun⟩, fun _ => rfl⟩
    | _ => exact ⟨fun _ => trivial, fun _ => rfl⟩
  · exact ⟨fun _ => trivial, fun _ => rfl⟩

theorem Block.violations_eq_nil_iff {b : Block} : b.violations = [] ↔ b.WellFormed := by
  unfold violations WellFormed
  simp only [List.flatMap_eq_nil_iff, Spot.violations_eq_nil_iff]

/-- A walk over a template finds what is wrong at its places and what is defined there, each of it once. -/
theorem Block.perm_findings (b : Block) : (blockFindings ⟨false, false⟩ b).Perm (b.spots.flatMap Spot.findings) := by
  have walk : Block.Tallied ⟨false, false⟩ b :=
    tallied_block fun n _ => (tallied_of_size (sizeOf n + 1)).2 _ n (Nat.lt_succ_self _)
  have places (b : Block) : Block.tally ⟨false, false⟩ b = (b.spots.flatMap Spot.findings : List Finding) := by
    induction b with
    | nil => rfl
    | cons n b ih =>
      have rest : Block.spots (n :: b) = Spot.all ⟨⟨false, false⟩, .node n⟩ ++ Block.spots b := rfl
      rw [rest, List.flatMap_append, ← Multiset.coe_add, ← ih]
      rfl
  exact Multiset.coe_eq_coe.mp (walk.trans (places b))

lemma Finding.faults_findings (ss : List Spot) : faults (ss.flatMap Spot.findings) = ss.flatMap Spot.violations := by
  have one (s : Spot) : faults s.findings = s.violations := by
    unfold faults Spot.findings
    rw [List.filterMap_append, List.filterMap_map, List.filterMap_map]
    simp
  unfold faults at *
  rw [List.filterMap_flatMap]
  simp only [one]

/-- What a walk reports is what is wrong with the template. -/
theorem Block.perm_faults (b : Block) : (Finding.faults (blockFindings ⟨false, false⟩ b)).Perm b.violations := by
  rw [violations, ← Finding.faults_findings]
  exact b.perm_findings.filterMap _

/-- The definitions that a walk finds stand at places of the template. -/
theorem Block.mem_spots_of_definition {b : Block} {d : MacroDef}
    (h : d ∈ Finding.definitions (blockFindings ⟨false, false⟩ b)) : ∃ s ∈ b.spots, s.definition? = some d := by
  obtain ⟨f, hf, hd⟩ := List.mem_filterMap.mp h
  cases f with
  | fault f => cases hd
  | definition d' =>
    obtain rfl := Option.some.inj hd
    obtain ⟨s, hs, hfound⟩ := List.mem_flatMap.mp (b.perm_findings.mem_iff.mp hf)
    refine ⟨s, hs, ?_⟩
    simpa [Spot.findings] using hfound

/-- A definition that is found at a place is the node there. -/
lemma Spot.piece_of_definition {s : Spot} {d : MacroDef} (h : s.definition? = some d) :
    ∃ p, s.piece = .node ⟨.macroDef d, p⟩ := by
  obtain ⟨e, ⟨kind, p⟩ | x⟩ := s
  · cases kind with
    | macroDef d' =>
      obtain ⟨-, rfl⟩ : e.inMacro = false ∧ d' = d := by simpa [definition?] using h
      exact ⟨p, rfl⟩
    | _ => cases h
  · cases h

/-- What holds of some definitions holds of all that is in their table. -/
lemma Macros.forall_ofDefs {P : MacroDef → Prop} {ds : List MacroDef} (h : ∀ d ∈ ds, P d) :
    ∀ e ∈ (ofDefs ds).entries, P e.2 := by
  refine Dict.forall_entries_foldl_insert Prod.fst Prod.snd nofun fun e he => ?_
  obtain ⟨d, hd, rfl⟩ := List.mem_map.mp he
  exact h d hd

/-- What holds of the definitions at the places of a template that compiles holds of its macros. -/
lemma Template.forall_macros_of_compile {unit : CodeUnit} {s : Source} {policy : GobblingPolicy} {t : Template}
    (ht : compile unit s policy = .ok t) {P : MacroDef → Prop}
    (h : ∀ spot ∈ t.root.spots, ∀ d p, spot.piece = .node ⟨.macroDef d, p⟩ → P d) :
    ∀ e ∈ t.macros.entries, P e.2 := by
  rw [(macros_of_compile ht).2]
  refine Macros.forall_ofDefs fun d hd => ?_
  obtain ⟨spot, hs, found⟩ := Block.mem_spots_of_definition hd
  obtain ⟨p, here⟩ := Spot.piece_of_definition found
  exact h spot hs d p here

/-- The error that reports failures of a template: the failure itself where there is one, or all of them. -/
def TemplateError.reporting (s : Source) (fs : List Failure) : TemplateError :=
  match fs.map (·.inSource s) with
  | [f] => .single f
  | fs => .compile s.name fs

/-- A text that parses compiles when its tree is well-formed, and otherwise all that is wrong with it is reported. -/
theorem Template.compile_of_parse (unit : CodeUnit) {s : Source} {policy : GobblingPolicy} {root : Block}
    (h : parse s policy = .ok root) :
    (root.WellFormed ∧ compile unit s policy =
      .ok ⟨s, root, Macros.ofDefs (Finding.definitions (blockFindings ⟨false, false⟩ root)), unit⟩) ∨
    (¬root.WellFormed ∧ ∃ fs, fs.Perm root.violations ∧ compile unit s policy = .error (.reporting s fs)) := by
  unfold compile
  rw [h]
  dsimp only
  have found := root.perm_faults
  generalize Finding.faults (blockFindings ⟨false, false⟩ root) = fs at found
  cases fs with
  | nil => exact .inl ⟨Block.violations_eq_nil_iff.mp found.nil_eq.symm, rfl⟩
  | cons f fs =>
    refine .inr ⟨fun clean => ?_, f :: fs, found, ?_⟩
    · rw [Block.violations_eq_nil_iff.mpr clean] at found
      cases found.eq_nil
    · cases fs <;> rfl

/-- The tree of a template that compiles is well-formed. -/
lemma Template.wellFormed_of_compile {unit : CodeUnit} {s : Source} {policy : GobblingPolicy} {t : Template}
    (h : compile unit s policy = .ok t) : t.root.WellFormed := by
  obtain ⟨formed, -⟩ | ⟨-, fs, -, refused⟩ := compile_of_parse unit (parse_of_compile h)
  · exact formed
  · rw [h] at refused
    cases refused

end Stencil
