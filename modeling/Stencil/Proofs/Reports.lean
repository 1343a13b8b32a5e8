import Stencil.Proofs.Places
import Stencil.Proofs.Searching

/-!
# What a template is refused for

All parts of a template that parses have exact positions, and what is wrong with it is reported at such positions.
Main statements: `Template.raised_of_compile`, for a text that does not compile, and `Template.Compiled.placed_root`
and `Template.Compiled.placed_macros`, for one that does.
-/

namespace Stencil

/-! ### Parts of what is placed -/

namespace Element.Placed

variable {s : Source}

lemma child {p q : Element} (h : p.Placed s) (hq : q ∈ p.children) : q.Placed s := h.children.placed q hq

lemma exact_segments {r : Reference} (h : (reference r).Placed s) : ∀ t ∈ r.segments, t.position.Exact s :=
  fun _ ht => (h.child (List.mem_map_of_mem ht)).exact

lemma exprs_reference {r : Reference} (h : (reference r).Placed s) : ∀ x ∈ r.exprs, (expr x).Placed s := by
  intro x hx
  obtain ⟨t, ht, hx⟩ := List.mem_flatMap.mp hx
  have segment : (segment t).Placed s := h.child (List.mem_map_of_mem ht)
  exact segment.child (List.mem_map_of_mem hx)

/-- The expressions in an expression are placed. -/
lemma exprs {e : Expr} (h : (expr e).Placed s) : ∀ x ∈ e.kind.exprs, (expr x).Placed s := by
  obtain ⟨kind, p⟩ := e
  intro x hx
  cases kind with
  | literal l => cases hx
  | interpolated body => cases hx
  | bareWord word => cases hx
  | reference r => exact (h.child (List.mem_singleton_self (reference r))).exprs_reference x hx
  | list items => exact h.child (List.mem_map_of_mem (show x ∈ items from hx))
  | map entries =>
    obtain ⟨entry, he, hx⟩ := List.mem_flatMap.mp (show x ∈ entries.flatMap _ from hx)
    refine h.child (List.mem_flatMap.mpr ⟨entry, he, ?_⟩)
    simpa [Entry.elements] using hx
  | range lower upper =>
    exact h.child (List.mem_map_of_mem (f := expr) (show x ∈ [lower, upper] from hx))
  | unary op operand =>
    obtain rfl := List.mem_singleton.mp (show x ∈ [operand] from hx)
    exact h.child (List.mem_singleton_self _)
  | binary op left right =>
    exact h.child (List.mem_map_of_mem (f := expr) (show x ∈ [left, right] from hx))

/-- The blocks in an expression are placed. -/
lemma blocks {e : Expr} (h : (expr e).Placed s) : ∀ b ∈ e.kind.blocks, ∀ n ∈ b, (node n).Placed s := by
  obtain ⟨kind, p⟩ := e
  intro b hb n hn
  cases kind with
  | interpolated body =>
    obtain rfl := List.mem_singleton.mp (show b ∈ [body] from hb)
    exact h.child (List.mem_map_of_mem hn)
  | _ => cases hb

/-- The defaults of a macro's parameters are placed. -/
lemma fallbacks {d : MacroDef} (h : (macroDef d).Placed s) :
    ∀ q ∈ d.params, ∀ x ∈ q.fallback, (expr x).Placed s := by
  intro q hq x hx
  have param : (param q).Placed s := h.child (List.mem_append_left _ (List.mem_map_of_mem hq))
  exact param.child (List.mem_map_of_mem (Option.mem_toList.mpr hx))

/-- The body of a macro is placed. -/
lemma body {d : MacroDef} (h : (macroDef d).Placed s) : ∀ n ∈ d.body, (node n).Placed s :=
  fun _ hn => h.child (List.mem_append_right _ (List.mem_map_of_mem hn))

lemma definition {d : MacroDef} {p : Position} (h : (node ⟨.macroDef d, p⟩).Placed s) : (macroDef d).Placed s :=
  h.child (List.mem_singleton_self _)

/-- The expressions in a node are placed. -/
lemma operands {n : Node} (h : (node n).Placed s) : ∀ x ∈ n.kind.operands, (expr x).Placed s := by
  obtain ⟨kind, p⟩ := n
  intro x hx
  cases kind with
  | reference r => exact (h.child (List.mem_singleton_self (reference r))).exprs_reference x hx
  | conditional branches otherwise =>
    obtain ⟨b, hb, rfl⟩ := List.mem_map.mp (show x ∈ branches.map (·.condition) from hx)
    exact h.child (List.mem_append_left _ (List.mem_flatMap.mpr ⟨b, hb, List.mem_cons_self ..⟩))
  | loop var iterable body otherwise =>
    obtain rfl := List.mem_singleton.mp (show x ∈ [iterable] from hx)
    exact h.child (List.mem_cons_self ..)
  | assign target value =>
    rcases List.mem_cons.mp (show x ∈ value :: target.exprs from hx) with rfl | hx
    · exact h.child (List.mem_cons_of_mem _ (List.mem_singleton_self _))
    · exact (h.child (List.mem_cons_self ..)).exprs_reference x hx
  | macroDef d =>
    obtain ⟨q, hq, hx⟩ := List.mem_flatMap.mp (show x ∈ d.params.flatMap (·.fallback.toList) from hx)
    exact h.definition.fallbacks q hq x (Option.mem_toList.mp hx)
  | macroCall c =>
    obtain ⟨a, ha, rfl⟩ := List.mem_map.mp (show x ∈ c.args.map (·.value) from hx)
    exact h.child (List.mem_append_left _ (List.mem_map.mpr ⟨a, ha, rfl⟩))
  | parse name =>
    obtain rfl := List.mem_singleton.mp (show x ∈ [name] from hx)
    exact h.child (List.mem_singleton_self _)
  | inclusion names => exact h.child (List.mem_map_of_mem (show x ∈ names from hx))
  | evaluate text =>
    obtain rfl := List.mem_singleton.mp (show x ∈ [text] from hx)
    exact h.child (List.mem_singleton_self _)
  | _ => cases hx

/-- The blocks in a node are placed. -/
lemma subblocks {n : Node} (h : (node n).Placed s) : ∀ b ∈ n.kind.subblocks, ∀ m ∈ b, (node m).Placed s := by
  obtain ⟨kind, p⟩ := n
  intro b hb m hm
  -- The nodes of an `#else` or of the body of a call, where there is one.
  have optional {o : Option Block} (hb : b ∈ o.toList) : node m ∈ o.toList.flatMap Block.elements :=
    List.mem_flatMap.mpr ⟨b, hb, List.mem_map_of_mem hm⟩
  cases kind with
  | conditional branches otherwise =>
    rcases List.mem_append.mp (show b ∈ branches.map (·.body) ++ otherwise.toList from hb) with hb | hb
    · obtain ⟨branch, hbranch, rfl⟩ := List.mem_map.mp hb
      refine h.child (List.mem_append_left _ (List.mem_flatMap.mpr ⟨branch, hbranch, ?_⟩))
      exact List.mem_cons_of_mem _ (List.mem_map_of_mem hm)
    · exact h.child (List.mem_append_right _ (optional hb))
  | loop var iterable body otherwise =>
    rcases List.mem_cons.mp (show b ∈ body :: otherwise.toList from hb) with rfl | hb
    · exact h.child (List.mem_cons_of_mem _ (List.mem_append_left _ (List.mem_map_of_mem hm)))
    · exact h.child (List.mem_cons_of_mem _ (List.mem_append_right _ (optional hb)))
  | macroDef d =>
    obtain rfl := List.mem_singleton.mp (show b ∈ [d.body] from hb)
    exact h.definition.body m hm
  | macroCall c => exact h.child (List.mem_append_right _ (optional hb))
  | _ => cases hb

/-- The expressions that rendering a node asks for are placed. -/
lemma exprs_node {n : Node} (h : (node n).Placed s) : ∀ x ∈ n.kind.exprs, (expr x).Placed s := by
  intro x hx
  have sub : x ∈ n.kind.subexprs := by
    obtain ⟨kind, p⟩ := n
    cases kind with
    | macroDef d => cases hx
    | _ => exact hx
  rcases NodeKind.mem_subexprs sub with ho | ⟨y, hy, hxy⟩
  · exact h.operands x ho
  · exact (h.operands y hy).exprs x hxy

lemma blocks_node {n : Node} (h : (node n).Placed s) : ∀ b ∈ n.kind.blocks, ∀ m ∈ b, (node m).Placed s := by
  intro b hb
  obtain ⟨kind, p⟩ := n
  cases kind with
  | macroDef d => cases hb
  | _ => exact h.subblocks b hb

/-! ### Positions at which something may fail -/

lemma exact_places_reference {r : Reference} (h : (reference r).Placed s) : ∀ p ∈ r.places, p.Exact s := by
  refine List.forall_mem_cons.mpr ⟨h.exact, fun p hp => ?_⟩
  obtain ⟨t, ht, rfl⟩ := List.mem_map.mp hp
  exact h.exact_segments t ht

/-- Where evaluating an expression may fail is an exact position. -/
lemma exact_places_expr {e : Expr} (h : (expr e).Placed s) : ∀ p ∈ e.places, p.Exact s := by
  refine List.forall_mem_cons.mpr ⟨h.exact, fun p hp => ?_⟩
  obtain ⟨kind, q⟩ := e
  have exprs := h.exprs
  cases kind with
  | reference r => exact (h.child (List.mem_singleton_self (reference r))).exact_places_reference p hp
  | unary op operand =>
    obtain rfl := List.mem_singleton.mp (show p ∈ [operand.position] from hp)
    exact (exprs operand (List.mem_singleton_self _)).exact
  | binary op left right =>
    rcases List.mem_cons.mp (show p ∈ [left.position, right.position] from hp) with rfl | hp
    · exact (exprs left (List.mem_cons_self ..)).exact
    · obtain rfl := List.mem_singleton.mp hp
      exact (exprs right (List.mem_cons_of_mem _ (List.mem_singleton_self _))).exact
  | _ => cases hp

/-- Where rendering a node may fail, apart from what it calls, is an exact position. -/
lemma exact_places {n : Node} (h : (node n).Placed s) : ∀ p ∈ n.places, p.Exact s := by
  refine List.forall_mem_cons.mpr ⟨h.exact, fun p hp => ?_⟩
  obtain ⟨kind, q⟩ := n
  have operands := h.operands
  cases kind with
  | reference r => exact (h.child (List.mem_singleton_self (reference r))).exact_places_reference p hp
  | loop var iterable body otherwise =>
    obtain rfl := List.mem_singleton.mp (show p ∈ [iterable.position] from hp)
    exact (operands iterable (List.mem_singleton_self _)).exact
  | assign target value => exact (h.child (List.mem_cons_self ..)).exact_places_reference p hp
  | macroCall c =>
    obtain ⟨a, ha, rfl⟩ := List.mem_map.mp (show p ∈ c.args.map (·.value.position) from hp)
    exact (operands a.value (List.mem_map_of_mem ha)).exact
  | parse name =>
    obtain rfl := List.mem_singleton.mp (show p ∈ [name.position] from hp)
    exact (operands name (List.mem_singleton_self _)).exact
  | inclusion names =>
    obtain ⟨x, hx, rfl⟩ := List.mem_map.mp (show p ∈ names.map (·.position) from hp)
    exact (operands x hx).exact
  | _ => cases hp

end Element.Placed

/-! ### What is wrong with a template -/

def Piece.element : Piece → Element
  | .node n => .node n
  | .expr x => .expr x

namespace Spot

/-- Whether what stands at a place has its position in a source, with everything in it. -/
def Placed (source : Source) (s : Spot) : Prop := s.piece.element.Placed source

variable {source : Source}

lemma Placed.part {s t : Spot} (hs : s.Placed source) (ht : t ∈ s.parts) : t.Placed source := by
  have within := piece_of_part ht
  obtain ⟨_, piece⟩ := s
  obtain ⟨_, part⟩ := t
  cases within with
  | operand hx => exact Element.Placed.operands hs _ hx
  | subblock hb hm => exact Element.Placed.subblocks hs _ hb _ hm
  | expr hy => exact Element.Placed.exprs hs _ hy
  | block hb hm => exact Element.Placed.blocks hs _ hb _ hm

end Spot

lemma mem_of_repeated {α : Type} {key : α → Option String} {xs : List α} {r : String × α}
    (h : r ∈ repeated key xs) : r.2 ∈ xs := by
  obtain ⟨⟨before, x⟩, hx, hr⟩ := List.mem_filterMap.mp h
  obtain ⟨k, -, hk⟩ := Option.bind_eq_some_iff.mp hr
  split at hk
  · cases hk
    exact (List.of_mem_zip hx).2
  · cases hk

lemma Reference.exact_lastCall {source : Source} {r : Reference} (h : (Element.reference r).Placed source) :
    ∀ call ∈ r.lastCall?, call.2.Exact source := by
  intro call hcall
  unfold lastCall? at hcall
  split at hcall
  · next name args p hl =>
    cases hcall
    exact h.exact_segments _ (List.mem_of_getLast? hl)
  · cases hcall

/-- What is wrong at a place is reported at an exact position. -/
lemma Spot.Placed.raised {source : Source} {s : Spot} (h : s.Placed source) :
    ∀ f ∈ s.violations, f.Raised source := by
  obtain ⟨e, ⟨kind, p⟩ | x⟩ := s
  · have here : (Element.node ⟨kind, p⟩).Placed source := h
    have nothing : ∀ f ∈ ([] : List Failure), f.Raised source := fun _ hf => absurd hf List.not_mem_nil
    have only {c : Cause} : ∀ f ∈ [Failure.at_ c p], f.Raised source :=
      List.forall_mem_singleton.mpr (Failure.raised_at here.exact c)
    have guarded {b : Bool} {c : Cause} {fs : List Failure} (hf : ∀ f ∈ fs, f.Raised source) :
        ∀ f ∈ if b then [Failure.at_ c p] else fs, f.Raised source := by
      cases b with
      | true => exact only
      | false => exact hf
    cases kind with
    | macroCall c =>
      have value {a : Argument} (ha : a ∈ c.args) : a.value.position.Exact source :=
        (here.operands a.value (List.mem_map_of_mem ha)).exact
      intro f hf
      rcases List.mem_append.mp hf with hf | hf
      · obtain ⟨a, ha, hw⟩ := List.mem_filterMap.mp hf
        unfold Argument.wordFault? at hw
        split at hw
        · cases hw
          exact Failure.raised_at (value ha) _
        · cases hw
      · obtain ⟨⟨name, a⟩, hr, rfl⟩ := List.mem_map.mp hf
        exact Failure.raised_at (value (mem_of_repeated hr)) _
    | macroDef d =>
      refine guarded fun f hf => ?_
      obtain ⟨⟨name, q⟩, hr, rfl⟩ := List.mem_map.mp hf
      have param : (Element.param q).Placed source :=
        here.definition.child (List.mem_append_left _ (List.mem_map_of_mem (mem_of_repeated hr)))
      exact Failure.raised_at param.exact _
    | assign target value =>
      intro f hf
      obtain ⟨call, hc, rfl⟩ := List.mem_map.mp hf
      exact Failure.raised_at (Reference.exact_lastCall (here.child (List.mem_cons_self ..)) call
        (Option.mem_toList.mp hc)) _
    | stop => exact guarded nothing
    | leave scope =>
      refine guarded ?_
      cases scope with
      | unknown label => exact only
      | _ => exact nothing
    | _ => exact nothing
  · exact fun _ hf => absurd hf List.not_mem_nil

/-- All places of a template are placed. -/
lemma Block.placed_spots {s : Source} {b : Block} (h : ∀ n ∈ b, (Element.node n).Placed s) :
    ∀ t ∈ b.spots, t.Placed s := by
  intro t ht
  obtain ⟨n, hn, ht⟩ := List.mem_flatMap.mp ht
  have here : Spot.Placed s ⟨⟨false, false⟩, .node n⟩ := h n hn
  exact Spot.forall_all Spot.Placed.part here t ht

/-! ### Templates -/

lemma nodes_of_parse {s : Source} {policy : GobblingPolicy} {b : Block} (h : parse s policy = .ok b) :
    ∀ n ∈ b, (Element.node n).Placed s :=
  fun _ hn => (parse_placed h).placed _ (List.mem_map_of_mem hn)

namespace Template

/-- A text that does not compile is refused for failures that point into it, and they tell its source. -/
theorem raised_of_compile {unit : CodeUnit} {s : Source} {policy : GobblingPolicy} {e : TemplateError}
    (h : compile unit s policy = .error e) : ∃ fs, fs ≠ [] ∧ (∀ f ∈ fs, f.Raised s) ∧ e = .reporting s fs := by
  cases parsed : parse s policy with
  | error e' =>
    obtain rfl := Except.error.inj (h.symm.trans (compile_eq_error parsed unit))
    obtain ⟨f, rfl, raised⟩ := raised_of_parse parsed
    exact ⟨[f], List.cons_ne_nil _ _, List.forall_mem_singleton.mpr raised, rfl⟩
  | ok root =>
    obtain ⟨-, ht⟩ | ⟨unformed, fs, found, hf⟩ := compile_of_parse unit parsed
    · rw [h] at ht
      cases ht
    · refine ⟨fs, ?_, fun f hf => ?_, Except.error.inj (h.symm.trans hf)⟩
      · rintro rfl
        exact unformed (Block.violations_eq_nil_iff.mp found.symm.eq_nil)
      · obtain ⟨t, ht, hf⟩ := List.mem_flatMap.mp (found.mem_iff.mp hf)
        exact Spot.Placed.raised (Block.placed_spots (nodes_of_parse parsed) t ht) f hf

variable {t : Template}

/-- The root of a compiled template is placed in its source. -/
theorem Compiled.placed_root (h : t.Compiled) : ∀ n ∈ t.root, (Element.node n).Placed t.source := by
  obtain ⟨unit, s, policy, h⟩ := h
  rw [(eq_of_compile h).1]
  exact nodes_of_parse (parse_of_compile h)

end Template

/-- Macros that are placed in the source that they know. -/
def MacroDef.Placed (d : MacroDef) : Prop := (Element.macroDef d).Placed d.source

/-- The macros of a compiled template are placed in its source. -/
theorem Template.Compiled.placed_macros {t : Template} (h : t.Compiled) : ∀ e ∈ t.macros.entries, e.2.Placed := by
  have root := Block.placed_spots h.placed_root
  obtain ⟨unit, s, policy, h⟩ := h
  refine forall_macros_of_compile h fun spot hs d p here => ?_
  have placed := root spot hs
  unfold Spot.Placed at placed
  rw [here] at placed
  have definition : (Element.macroDef d).Placed t.source := Element.Placed.definition placed
  have homed : d.source = t.source := definition.homed
  show (Element.macroDef d).Placed d.source
  rwa [homed]

/-! ### Where a name is refused -/

/-- The errors for a name: no loader has it, a loader fails, or a text does not compile. -/
inductive Loader.Refuses (loaders : List Loader) (name : String) : TemplateError → Prop
  | missing : Refuses loaders name (.of (.noLoader name))
  | loading {l : Loader} {e : TemplateError} : l ∈ loaders → l.load name = .error e → Refuses loaders name e
  | compiling {unit : CodeUnit} {s : Source} {policy : GobblingPolicy} {e : TemplateError} :
    Template.compile unit s policy = .error e → Refuses loaders name e

namespace TemplateCache

open Loader (Refuses)

variable {c d : TemplateCache} {loaders : List Loader} {now place : Nat} {name : String} {l : Loader}
  {e : TemplateError}

lemma CompilesBy.refuses (h : CompilesBy c now name place l (.error e) d) (hl : l ∈ loaders) :
    Refuses loaders name e := by
  cases h with
  | failing load => exact .loading hl load
  | faulty _ compiled => exact .compiling compiled

lemma Searches.refuses (h : Searches c loaders now name (.error e) d) : Refuses loaders name e := by
  cases h with
  | nowhere _ => exact .missing
  | refused split _ step =>
    rw [split]
    exact step.refuses (List.mem_append_right _ (List.mem_cons_self ..))

/-- What a cache answers for a name that it does not have is why the loaders do not. -/
theorem refuses_get : ∀ e, (c.get loaders now name).answer = .error e → Refuses loaders name e := by
  intro e he
  have way := c.gets loaders now name
  generalize (c.get loaders now name).cache = d at way
  rw [he] at way
  cases way with
  | missing _ search => exact search.refuses
  | refused _ _ hl _ _ step => exact step.refuses (List.mem_of_getElem? hl)
  | gone _ _ _ search => exact search.refuses

lemma refuses_readText (place : Nat) {ls : List Loader} (hl : ls ⊆ loaders) :
    ∀ e, (c.readText name place ls).answer = .error e → Refuses loaders name e := by
  induction ls generalizing place with
  | nil =>
    intro e he
    cases he
    exact .missing
  | cons l ls ih =>
    unfold readText
    split
    · next e' hload =>
      intro e he
      cases he
      exact .loading (hl (List.mem_cons_self ..)) hload
    · exact fun e he => by cases he
    · exact ih (place + 1) fun x hx => hl (List.mem_cons_of_mem _ hx)

end TemplateCache

end Stencil
