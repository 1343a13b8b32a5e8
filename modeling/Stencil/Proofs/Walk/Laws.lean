import Stencil.Proofs.Walk

/-!
# What holds of walks through templates

A law of walks says something of the walks through all blocks as soon as it goes through the ways in which these are put
together. Main statement: `Walk.Law.holds_render`.
-/

namespace Stencil

/-- Whether a node of the given kind opens it. -/
def Opened.By : Opened → NodeKind → Prop
  | rounds var _ _, .loop var' _ _ _ => var = var'
  | macroBody, .macroCall _ => True
  | parsed, .parse _ => True
  | _, _ => False

def noScope (_ : Opened) : Prop := False

/-- What holds of walks by the scopes of their own that they may have opened. -/
structure Walk.Law where
  Holds : (Opened → Prop) → Walk Flow → Prop
  holds_act : ∀ {own} (m : Render Flow), Holds own (.act m)
  holds_act_bind : ∀ {α own} (m : Render α) {f : α → Walk Flow}, (∀ x, Holds own (f x)) → Holds own (.act m >>= f)
  loosen : ∀ {own w}, Holds noScope w → Holds own w
  holds_follow : ∀ {w rest}, Holds noScope w → Holds noScope rest → Holds noScope (.follow w rest)
  holds_within : ∀ {own o w}, own o → Holds noScope w → Holds own (.within o w)
  holds_under : ∀ {own w} {g : RenderEnv → RenderEnv}, (∀ env, env.templates <:+ (g env).templates) → Holds own w →
    Holds own (.under g w)
  holds_telling : ∀ {own w} f, Holds own w → Holds own (.telling f w)
  /-- A call with a body, given what runs after the body. -/
  holds_call : ∀ {own depth body} {rest : String → Walk Flow},
    Holds noScope ((Walker.ofDepth depth).render body) → (∀ text, Holds own (rest text)) → Holds own (do
      let (flow, text) ← (Walker.ofDepth depth).content body
      if flow == .stop then return .stop
      else rest text)
  holds_node : ∀ {depth n}, Holds (·.By n.kind) ((Walker.ofDepth depth).construct n) →
    Holds noScope ((Walker.ofDepth depth).node n)

namespace Walk.Law

variable (L : Walk.Law) {own : Opened → Prop}

lemma holds_pure (flow : Flow) : L.Holds own (pure flow) := L.holds_act _

lemma holds_framed {o : Opened} {w : Walk Flow} (ho : own o) (hw : L.Holds noScope w) :
    L.Holds own (Walker.framed o w) :=
  L.holds_act_bind _ fun _ => L.holds_within ho hw

section

variable {depth : Nat} (hr : ∀ b, L.Holds noScope ((Walker.ofDepth depth).render b))

include hr

lemma holds_conditional (otherwise : Option Block) (branches : List Branch) :
    L.Holds own ((Walker.ofDepth depth).conditional otherwise branches) := by
  induction branches with
  | nil =>
    cases otherwise with
    | some b => exact L.loosen (hr b)
    | none => exact L.holds_pure _
  | cons b branches ih =>
    refine L.holds_act_bind _ fun v => L.holds_act_bind _ fun truth => ?_
    cases truth with
    | true => exact L.loosen (hr b.body)
    | false => exact ih

lemma holds_rounds (var : String) (body : Block) (parent : Value) (count k : Nat)
    (items : List (Option String × Value)) :
    L.Holds noScope ((Walker.ofDepth depth).rounds var body parent count k items) := by
  induction items generalizing k with
  | nil => exact L.holds_pure _
  | cons entry items ih => exact L.holds_act_bind _ fun _ => L.holds_follow (hr body) (ih (k + 1))

lemma holds_loop (var : String) (iterable : Expr) (body : Block) (otherwise : Option Block) :
    L.Holds (·.By (.loop var iterable body otherwise))
      ((Walker.ofDepth depth).loop var iterable body otherwise) := by
  refine L.holds_act_bind _ fun items? => ?_
  match items? with
  | none => exact L.holds_pure _
  | some [] =>
    cases otherwise with
    | some b => exact L.loosen (hr b)
    | none => exact L.holds_pure _
  | some (item :: items) =>
    exact L.holds_act_bind _ fun s => L.holds_within rfl (L.holds_rounds hr var body _ _ _ _)

lemma holds_nested {t : Template} {around : Walk Flow → Walk Flow}
    (ha : ∀ w, L.Holds noScope w → L.Holds own (around w)) (a : Activation) (p : Position) :
    L.Holds own ((Walker.ofDepth depth).nested t a p around) :=
  L.holds_telling _ (L.holds_under (fun _ => List.suffix_cons ..) (ha _ (hr t.root)))

lemma holds_parse (arg : Expr) (p : Position) :
    L.Holds (·.By (.parse arg)) ((Walker.ofDepth depth).parse arg p) := by
  refine L.holds_act_bind _ fun name => L.holds_act_bind _ fun env => ?_
  dsimp only
  split
  · exact L.holds_act _
  · exact L.holds_act_bind _ fun t => L.holds_nested hr (fun w hw => L.holds_framed trivial hw) _ _

lemma holds_evaluateText (arg : Expr) (p : Position) : L.Holds own ((Walker.ofDepth depth).evaluateText arg p) := by
  refine L.holds_act_bind _ fun v => ?_
  split
  · exact L.holds_pure _
  · exact L.holds_act_bind _ fun t => L.holds_nested hr (fun w hw => L.loosen hw) _ _

lemma holds_invoke {c : MacroCall} (unit : CodeUnit) (d : MacroDef) (p : Position) (args : Arguments)
    (content : Option String) :
    L.Holds (·.By (.macroCall c)) ((Walker.ofDepth depth).invoke unit d p args content) := by
  refine L.holds_telling _ (L.holds_act_bind _ fun env => ?_)
  dsimp only
  split
  · exact L.holds_act _
  · exact L.holds_under (fun _ => List.suffix_rfl)
      (L.holds_framed trivial (L.holds_act_bind _ fun _ => hr d.body))

lemma holds_macroCall (c : MacroCall) (p : Position) :
    L.Holds (·.By (.macroCall c)) ((Walker.ofDepth depth).macroCall c p) := by
  refine L.holds_act_bind _ fun env => ?_
  split
  · exact L.holds_act _
  · next unit d found =>
    refine L.holds_act_bind _ fun args => ?_
    split
    · exact L.holds_invoke hr unit d p args none
    · exact L.holds_call (hr _) fun text => L.holds_invoke hr unit d p args (some text)

lemma holds_construct (n : Node) : L.Holds (·.By n.kind) ((Walker.ofDepth depth).construct n) := by
  obtain ⟨kind, p⟩ := n
  cases kind with
  | conditional branches otherwise => exact L.holds_conditional hr otherwise branches
  | loop var iterable body otherwise => exact L.holds_loop hr var iterable body otherwise
  | macroCall c => exact L.holds_macroCall hr c p
  | parse arg => exact L.holds_parse hr arg p
  | evaluate arg => exact L.holds_evaluateText hr arg p
  | _ => exact L.holds_act _

lemma holds_block (b : Block) : L.Holds noScope ((Walker.ofDepth depth).block b) := by
  induction b with
  | nil => exact L.holds_pure _
  | cons n b ih => exact L.holds_follow (L.holds_node (L.holds_construct hr n)) ih

end

/-- What holds of walks by a law holds of the walks through all blocks. -/
theorem holds_render (depth : Nat) (b : Block) : L.Holds noScope ((Walker.ofDepth depth).render b) := by
  induction depth generalizing b with
  | zero => exact L.holds_act _
  | succ depth ih => exact L.holds_block ih b

end Walk.Law

end Stencil
