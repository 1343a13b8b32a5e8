import Stencil.Proofs.Lockstep.Expression

/-!
# Nodes in lockstep

Rendering a node keeps pace as soon as its parts do and what it calls: macros and templates within their limits, and
every text that is evaluated. Main statements: `Pace.holds_node`, what a node does that calls nothing;
`Tempo.holds_macroCallBy` and its like, what a call does before it enters the code that it calls; and
`Lockstep.holds_node`, `Lockstep.holds_block` and `Lockstep.holds_outermost`.
-/

namespace Stencil

/-! ### Calls -/

/-- Whether rendering a node of this kind runs code that is not in the node. -/
def NodeKind.callsOut : NodeKind → Bool
  | macroCall _ | parse _ | inclusion _ | evaluate _ => true
  | _ => false

/-- Whether rendering a node of this kind binds variables in the frame where it is rendered. -/
def NodeKind.binds : NodeKind → Bool
  | loop .. | assign .. => true
  | _ => false

namespace Interpreter

variable (self : Interpreter)

/-- A loop through the items that there are. -/
def looping (var : String) (body : Block) (items : List (Option String × Value)) : Render Flow := do
  let s ← get
  let item := s.local? var
  let status := s.local? "foreach"
  let parent := (s.get? "foreach").getD .null
  (self.rounds var body parent items.length 0 items).andThen fun s => s.restoreLoop var item status

/-- `#parse`, given how to open the template of a name. -/
def parseBy (arg : Expr) (p : Position) (enter : String → Render Flow) : Render Flow := do
  let name ← self.resourceName arg "#parse"
  let env ← read
  let limit := env.settings.parseMaxDepth
  if limit ≤ env.templates.length then Render.fail (.parseDepth name limit) p
  else enter name

/-- `#include` of one resource, given how to read the one of a name. -/
def includeBy (arg : Expr) (enter : String → Render String) : Render Unit := do
  let name ← self.resourceName arg "#include"
  Render.emit (← enter name)

/-- `#evaluate`, given how to render a text. -/
def evaluateBy (arg : Expr) (enter : String → Render Flow) : Render Flow := do
  let v ← self.value arg
  if v.isNull then return .next
  else enter (← Render.display v)

/-- A macro call, given how to run a macro. -/
def macroCallBy (c : MacroCall) (p : Position)
    (enter : CodeUnit → MacroDef → Arguments → Option String → Render Flow) : Render Flow := do
  match (← read).macro? c.name with
  | none =>
    if ← Render.strict then Render.fail (.render (.undefinedMacro c.name)) p
    Render.emit c.literal
    return .next
  | some (unit, d) =>
    let args ← self.arguments d c.args
    checkArguments d args p
    match c.body with
    | none => enter unit d args none
    | some body =>
      let (flow, text) ← (self.render body).captured
      if flow == .stop then return .stop
      enter unit d args (some text)

lemma parse_eq (arg : Expr) (p : Position) :
    self.parse arg p = self.parseBy arg p fun name => do
      let t ← Render.orRaise (·.leaving (.parse name) p) (← Render.template name)
      let flow ← self.nested t (.parse name) p Render.inFrame
      return if flow.endsTemplate then .next else flow := rfl

lemma inclusion_eq (arg : Expr) (p : Position) :
    self.inclusion p arg = self.includeBy arg fun name =>
      Render.resource name >>= Render.orRaise (·.leaving (.inclusion name) p) := by
  unfold inclusion includeBy
  simp only [bind_assoc]

lemma evaluateText_eq (arg : Expr) (p : Position) :
    self.evaluateText arg p = self.evaluateBy arg fun text => (do
      let unit ← Render.nextUnit
      let policy := (← read).settings.gobbling
      let t ← Render.orRaise (·.leaving .evaluation p)
        (Template.compile unit ⟨"#evaluate at " ++ p.display, text⟩ policy)
      self.nested t .evaluation p id) := rfl

lemma macroCall_eq (c : MacroCall) (p : Position) :
    self.macroCall c p = self.macroCallBy c p fun unit d args content => self.invoke unit d p args content := rfl

/-- The arguments of a call are the same wherever the macro stands. -/
lemma arguments_macroDef (g : Relocation) (d : MacroDef) (args : List Argument) :
    self.arguments (g.macroDef d) args = self.arguments d args := by
  have param (name : String) : ((g.macroDef d).param? name).isNone = (d.param? name).isNone := by
    obtain ⟨_, params, _, _, _⟩ := d
    unfold MacroDef.param?
    simp only [Relocation.macroDef, Relocation.paramList_eq, List.find?_map, Option.isNone_map]
    congr 2
    funext q
    cases q
    rfl
  have name : (g.macroDef d).name = d.name := by cases d; rfl
  unfold arguments
  simp only [param, name]

lemma checkArguments_macroDef (g : Relocation) (d : MacroDef) (args : Arguments) (p : Position) :
    checkArguments (g.macroDef d) args p = checkArguments d args p := by
  obtain ⟨name, params, body, source, q⟩ := d
  have free : ((g.paramList params).filter fun q => !args.named.contains q.name).length =
      (params.filter fun q => !args.named.contains q.name).length := by
    rw [Relocation.paramList_eq, List.filter_map, List.length_map]
    congr 2
    funext q
    cases q
    rfl
  have count : (g.paramList params).length = params.length := by
    rw [Relocation.paramList_eq, List.length_map]
  unfold checkArguments
  simp only [Relocation.macroDef, free, count]

end Interpreter

namespace Tempo

variable {ι α β : Type} (P : Tempo ι) {env : ι → RenderEnv} {self : ι → Interpreter} {g : ι → Relocation}

/-! ### Loops -/

lemma holds_loopItems (ha : P.Around env) {iterable : Expr} (hp : P.Place fun i => (g i).position iterable.position)
    (hi : P.Evaluates self g env iterable) (hx : ∀ x ∈ iterable.kind.exprs, P.Evaluates self g env x) :
    P.Holds env fun i => (self i).loopItems ((g i).expr iterable) := by
  obtain ⟨c, b, -, hc⟩ := P.settings ha
  unfold Interpreter.loopItems
  refine P.holds_read ?_
  simp only [hc]
  obtain ⟨kind, p⟩ := iterable
  cases kind with
  | range lower upper =>
    have hl := hx lower (List.mem_cons_self ..)
    have hu := hx upper (List.mem_cons_of_mem _ (List.mem_singleton_self _))
    refine P.holds_bind (P.holds_bounds hl hu hp) fun r => ?_
    split
    · exact P.holds_bind (P.holds_checkRange ha _ _ hp) fun _ => P.holds_pure _
    · exact P.holds_pure _
  | _ =>
    refine P.holds_bind hi.value fun v => ?_
    refine P.holds_bind (P.holds_ask _) fun items? => ?_
    cases items? with
    | some items => exact P.holds_pure _
    | none =>
      refine P.holds_strict_bind ha fun strict hs => ?_
      exact P.holds_refuse hs hp (P.holds_pure _) _ (fun type => .render (.notIterable type))

lemma holds_startRound {var : String} (hf : ∀ v, P.Holds env fun _ => (modify (·.put "foreach" v) : Render PUnit))
    (hv : ∀ v, P.Holds env fun _ => (modify (·.put var v) : Render PUnit)) (item : Value) (k count : Nat)
    (parent : Value) (key : Option String) :
    P.Holds env fun _ => Interpreter.startRound var item (loopStatus k count parent key) := by
  unfold Interpreter.startRound
  refine P.holds_bind (P.holds_change (.newMap (Dict.distinct_ofList _))) fun v => ?_
  have puts : P.Holds env fun _ =>
      (modify (·.put "foreach" v) : Render PUnit) >>= fun _ => modify (·.put var item) :=
    P.holds_bind (hf v) fun _ => hv item
  exact P.holds_congr puts fun _ => rfl

/-- The rounds of a loop, given how to start one. -/
lemma holds_rounds {var : String} {body : Block}
    (hs : ∀ item k count parent key,
      P.Holds env fun _ => Interpreter.startRound var item (loopStatus k count parent key))
    (hb : P.Renders self g env body) (parent : Value) (count k : Nat) (items : List (Option String × Value)) :
    P.Holds env fun i => (self i).rounds var ((g i).block body) parent count k items := by
  induction items generalizing k with
  | nil => exact P.holds_pure _
  | cons entry items ih =>
    obtain ⟨key, item⟩ := entry
    unfold Interpreter.rounds
    refine P.holds_bind (hs _ _ _ _ _) fun _ => ?_
    refine P.holds_bind hb fun flow => ?_
    cases flow with
    | next => exact ih (k + 1)
    | _ => exact P.holds_pure _

/-- A loop, given how it goes through items. -/
lemma holds_loopBy (ha : P.Around env) (var : String) {iterable : Expr} {body : Block} {otherwise : Option Block}
    (hp : P.Place fun i => (g i).position iterable.position) (hi : P.Evaluates self g env iterable)
    (hx : ∀ x ∈ iterable.kind.exprs, P.Evaluates self g env x)
    (hl : ∀ items, P.Holds env fun i => (self i).looping var ((g i).block body) items)
    (ho : ∀ b ∈ otherwise, P.Renders self g env b) :
    P.Holds env fun i =>
      (self i).loop var ((g i).expr iterable) ((g i).block body) ((g i).blockOption otherwise) := by
  unfold Interpreter.loop
  refine P.holds_bind (P.holds_loopItems ha hp hi hx) fun items? => ?_
  match items? with
  | none => exact P.holds_pure _
  | some [] =>
    cases otherwise with
    | some b => exact ho b rfl
    | none => exact P.holds_pure _
  | some (item :: items) => exact hl (item :: items)

/-! ### Nodes without calls -/

lemma holds_doing {m : ι → Render Unit} (h : P.Holds env m) :
    P.Holds env fun i => Interpreter.doing (m i) :=
  P.holds_bind h fun _ => P.holds_pure _

lemma holds_writeReference (ha : P.Around env) {r : Reference} (hp : P.Sited g r.places)
    (h : ∀ e ∈ r.exprs, P.Evaluates self g env e) :
    P.Holds env fun i => (self i).writeReference ((g i).reference r) := by
  have literal (i : ι) : ((g i).reference r).literal = r.literal := by cases r; rfl
  have quiet (i : ι) : ((g i).reference r).quiet = r.quiet := by cases r; rfl
  unfold Interpreter.writeReference
  simp only [literal, quiet]
  refine P.holds_bind (P.holds_reference ha hp (fun e he => (h e he).value) false) fun v => ?_
  split
  · exact P.holds_bind (P.holds_display v) fun text => P.holds_emit text
  · split
    · exact P.holds_emit _
    · exact P.holds_pure _

lemma holds_conditional {branches : List Branch} {otherwise : Option Block}
    (hx : ∀ b ∈ branches, P.Evaluates self g env b.condition)
    (hb : ∀ b ∈ branches, P.Renders self g env b.body)
    (ho : ∀ b ∈ otherwise, P.Renders self g env b) :
    P.Holds env fun i =>
      (self i).conditional ((g i).blockOption otherwise) ((g i).branchList branches) := by
  induction branches with
  | nil =>
    cases otherwise with
    | some b => exact ho b rfl
    | none => exact P.holds_pure _
  | cons b branches ih =>
    have later := ih (fun x h => hx x (List.mem_cons_of_mem _ h))
      fun x h => hb x (List.mem_cons_of_mem _ h)
    have here := hb b (List.mem_cons_self ..)
    have condition := hx b (List.mem_cons_self ..) true
    obtain ⟨_, body⟩ := b
    simp only [Relocation.branchList, Relocation.branch, Interpreter.conditional]
    refine P.holds_bind condition fun v => ?_
    refine P.holds_bind (P.holds_ask _) fun truth => ?_
    cases truth with
    | true => exact here
    | false => exact later

/-- The rendering of a node, given what holds of its parts, of what it calls and of what it binds. -/
lemma holds_nodeBy (ha : P.Around env) {n : Node} (hp : P.Sited g n.places)
    (hx : ∀ e ∈ n.kind.exprs, P.Evaluates self g env e) (hb : ∀ b ∈ n.kind.blocks, P.Renders self g env b)
    (hc : n.kind.callsOut = true → P.Holds env fun i => (self i).node ((g i).node n))
    (hv : n.kind.binds = true → P.Holds env fun i => (self i).node ((g i).node n)) :
    P.Holds env fun i => (self i).node ((g i).node n) := by
  obtain ⟨kind, p⟩ := n
  cases kind with
  | macroCall c => exact hc rfl
  | parse arg => exact hc rfl
  | inclusion args => exact hc rfl
  | evaluate arg => exact hc rfl
  | text s => exact P.holds_doing (P.holds_emit s)
  | escaped s => exact P.holds_doing (P.holds_emit s)
  | raw s => exact P.holds_doing (P.holds_emit s)
  | comment => exact P.holds_pure _
  | macroDef d => exact P.holds_pure _
  | reference r => exact P.holds_doing (P.holds_writeReference ha hp.tail hx)
  | conditional branches otherwise =>
    refine P.holds_conditional (fun b h => hx _ (List.mem_map_of_mem h)) (fun b h => ?_) fun b h => ?_
    · exact hb _ (List.mem_append_left _ (List.mem_map_of_mem h))
    · exact hb _ (List.mem_append_right _ (Option.mem_toList.mpr h))
  | loop var iterable body otherwise => exact hv rfl
  | assign target value => exact hv rfl
  | stop => exact P.holds_pure _
  | leave scope => exact P.holds_pure _

/-- The rendering of a block, given what holds of its nodes. -/
theorem holds_block {b : Block} (h : ∀ n ∈ b, P.Holds env fun i => (self i).node ((g i).node n)) :
    P.Holds env fun i => (self i).block ((g i).block b) := by
  induction b with
  | nil => exact P.holds_pure _
  | cons n b ih =>
    have rest := P.holds_before (ih fun x hx => h x (List.mem_cons_of_mem _ hx))
    exact P.holds_congr (P.holds_bind (h n (List.mem_cons_self ..)) rest) fun i => (self i).block_cons _ _

/-! ### Calls -/

lemma holds_resourceName (ha : P.Around env) {arg : Expr} (hp : P.Place fun i => (g i).position arg.position)
    (h : P.Evaluates self g env arg) (directive : String) :
    P.Holds env fun i => (self i).resourceName ((g i).expr arg) directive := by
  obtain ⟨resolve, hr⟩ := P.resolve ha
  unfold Interpreter.resourceName
  simp only [position_expr]
  refine P.holds_bind h.value fun v => ?_
  split
  · exact P.holds_fail_bind _ hp _
  · refine P.holds_bind (P.holds_display v) fun name => ?_
    refine P.holds_read ?_
    refine P.holds_congr (P.holds_pure (resolve name)) fun i => ?_
    rw [← hr i]
    unfold RenderEnv.resolve
    cases (env i).templates <;> rfl

lemma holds_parseBy (ha : P.Around env) {arg : Expr} (hq : P.Place fun i => (g i).position arg.position)
    (h : P.Evaluates self g env arg) {p : ι → Position} (hp : P.Place p) {f : ι → String → Render Flow}
    (he : (∀ i, (env i).templates.length < (env i).settings.parseMaxDepth) →
      ∀ name, P.Holds env fun i => f i name) :
    P.Holds env fun i => (self i).parseBy ((g i).expr arg) (p i) (f i) := by
  obtain ⟨c, b, -, hs⟩ := P.settings ha
  obtain ⟨opened, ho⟩ := P.opened ha
  unfold Interpreter.parseBy
  refine P.holds_bind (P.holds_resourceName ha hq h _) fun name => ?_
  refine P.holds_read ?_
  simp only [hs, ho]
  by_cases hd : c.parseMaxDepth ≤ opened
  · simp only [if_pos hd]
    exact P.holds_fail _ hp
  · simp only [if_neg hd]
    refine he (fun i => ?_) name
    rw [hs, ho]
    exact Nat.lt_of_not_le hd

lemma holds_includeBy (ha : P.Around env) {arg : Expr} (hq : P.Place fun i => (g i).position arg.position)
    (h : P.Evaluates self g env arg) {f : ι → String → Render String}
    (he : ∀ name, P.Holds env fun i => f i name) :
    P.Holds env fun i => (self i).includeBy ((g i).expr arg) (f i) := by
  unfold Interpreter.includeBy
  refine P.holds_bind (P.holds_resourceName ha hq h _) fun name => ?_
  exact P.holds_bind (he name) fun text => P.holds_emit text

/-- Steps for one expression after the other. -/
lemma holds_forM {es : List Expr} {f : ι → Expr → Render Unit}
    (h : ∀ e ∈ es, P.Holds env fun i => f i ((g i).expr e)) :
    P.Holds env fun i => ((g i).exprList es).forM (f i) := by
  induction es with
  | nil => exact P.holds_pure _
  | cons e es ih =>
    refine P.holds_bind (h e (List.mem_cons_self ..)) fun _ => ?_
    exact ih fun x hx => h x (List.mem_cons_of_mem _ hx)

lemma holds_evaluateBy {arg : Expr} (h : P.Evaluates self g env arg) {f : ι → String → Render Flow}
    (he : ∀ text, P.Holds env fun i => f i text) :
    P.Holds env fun i => (self i).evaluateBy ((g i).expr arg) (f i) := by
  unfold Interpreter.evaluateBy
  refine P.holds_bind h.value fun v => ?_
  split
  · exact P.holds_pure _
  · exact P.holds_bind (P.holds_display v) he

/-- Steps that pass something on from one argument to the next. -/
lemma holds_foldlM {args : List Argument} {f : ι → β → Argument → Render β}
    (h : ∀ arg ∈ args, ∀ x, P.Holds env fun i => f i x ((g i).argument arg)) (x : β) :
    P.Holds env fun i => ((g i).argumentList args).foldlM (f i) x := by
  induction args generalizing x with
  | nil => exact P.holds_pure x
  | cons arg args ih =>
    simp only [Relocation.argumentList, List.foldlM_cons]
    refine P.holds_bind (h arg (List.mem_cons_self ..) x) fun y => ?_
    exact ih (fun other ho => h other (List.mem_cons_of_mem _ ho)) y

/-- The arguments of a call, given their values. -/
lemma holds_arguments (d : MacroDef) {args : List Argument}
    (hp : P.Sited g (args.map (·.value.position))) (h : ∀ arg ∈ args, P.Evaluates self g env arg.value) :
    P.Holds env fun i => (self i).arguments d ((g i).argumentList args) := by
  cases args with
  | nil => exact P.holds_pure _
  | cons first args =>
    unfold Interpreter.arguments
    refine P.holds_foldlM (fun arg ha found => ?_) _
    have value := (h arg ha).value
    have there : P.Place fun i => (g i).position arg.value.position := hp _ (List.mem_map_of_mem ha)
    obtain ⟨name, e⟩ := arg
    refine P.holds_bind value fun v => ?_
    cases name with
    | none => exact P.holds_pure _
    | some name =>
      dsimp only [Relocation.argument]
      split
      · refine P.holds_congr (P.holds_fail (.render (.unknownArgument d.name name)) there) fun i => ?_
        rw [position_expr]
        rfl
      · exact P.holds_pure _

lemma holds_checkArguments (ha : P.Around env) (d : MacroDef) (args : Arguments) {p : ι → Position}
    (hp : P.Place p) : P.Holds env fun i => Interpreter.checkArguments d args (p i) := by
  unfold Interpreter.checkArguments
  refine P.holds_strict_bind ha fun strict hs => ?_
  exact P.holds_fail_if _ (P.strict_and hs _) hp (P.holds_pure _)

/-- A macro call, given what holds of its parts and of running the macro. -/
lemma holds_macroCallBy (ha : P.Around env) {c : MacroCall} {p : ι → Position} (hp : P.Place p)
    (hq : P.Sited g (c.args.map (·.value.position))) (hx : ∀ arg ∈ c.args, P.Evaluates self g env arg.value)
    (hb : ∀ b ∈ c.body, P.Renders self g env b)
    {f : ι → CodeUnit → MacroDef → Arguments → Option String → Render Flow}
    (hm : (∀ i, (env i).macro? c.name = none) ∨ ∃ (u : ι → CodeUnit) (k : ι → Relocation) (d : MacroDef),
      (∀ i, (env i).macro? c.name = some (u i, (k i).macroDef d)) ∧
      ∀ args content, P.Holds env fun i => f i (u i) ((k i).macroDef d) args content) :
    P.Holds env fun i => (self i).macroCallBy ((g i).macroCall c) (p i) (f i) := by
  obtain ⟨name, args, body, literal⟩ := c
  unfold Interpreter.macroCallBy
  refine P.holds_read ?_
  simp only [Relocation.macroCall]
  rcases hm with hm | ⟨u, k, d, hm, he⟩
  · simp only [hm]
    refine P.holds_strict_bind ha fun strict hs => ?_
    have literal : P.Holds env fun _ => do Render.emit literal; return Flow.next :=
      P.holds_bind (P.holds_emit _) fun _ => P.holds_pure _
    exact P.holds_congr (P.holds_fail_if (.render (.undefinedMacro name)) hs hp literal)
      fun i => by cases strict i <;> rfl
  · simp only [hm, Interpreter.arguments_macroDef, Interpreter.checkArguments_macroDef]
    refine P.holds_bind (P.holds_arguments d hq hx) fun args => ?_
    refine P.holds_bind (P.holds_checkArguments ha d args hp) fun _ => ?_
    cases body with
    | none => exact he args none
    | some body =>
      refine P.holds_bind (P.holds_captured (hb body rfl)) fun r => ?_
      obtain ⟨flow, text⟩ := r
      dsimp only
      split
      · exact P.holds_pure _
      · exact he args (some text)

/-- In the same surroundings, a call of the same code enters the same macro in all renders. -/
lemma holds_macroCallBy_stay {env : RenderEnv} (ha : P.Around fun _ => env) {c : MacroCall} {p : ι → Position}
    (hp : P.Place p) (hq : P.Sited (fun _ => .stay) (c.args.map (·.value.position)))
    (hx : ∀ arg ∈ c.args, P.Evaluates self (fun _ => .stay) (fun _ => env) arg.value)
    (hb : ∀ b ∈ c.body, P.Renders self (fun _ => .stay) (fun _ => env) b)
    {f : ι → CodeUnit → MacroDef → Arguments → Option String → Render Flow}
    (hf : ∀ {unit d}, env.macro? c.name = some (unit, d) → ∀ args content,
      P.Holds (fun _ => env) fun i => f i unit d args content) :
    P.Holds (fun _ => env) fun i => (self i).macroCallBy c (p i) (f i) := by
  have called := P.holds_macroCallBy ha hp hq hx hb (f := f) (by
    cases hm : env.macro? c.name with
    | none => exact .inl fun _ => rfl
    | some found =>
      refine .inr ⟨fun _ => found.1, fun _ => .stay, found.2, fun _ => ?_, fun args content => ?_⟩
      · rw [Relocation.macroDef_stay]
      · simp only [Relocation.macroDef_stay]
        exact hf hm args content)
  simpa only [Relocation.macroCall_stay] using called

end Tempo

namespace Pace

variable {ι α β : Type} (P : Pace ι) {env : ι → RenderEnv} {self : ι → Interpreter} {g : ι → Relocation}

/-! ### Variables -/

/-- A loop sets its variables anew in every round, and has them back when it is left. -/
lemma holds_looping (var : String) {body : Block} (hb : P.Renders self g env body)
    (items : List (Option String × Value)) :
    P.Holds env fun i => (self i).looping var ((g i).block body) items := by
  refine P.holds_get ?_ fun s => ?_
  · intro i s t h
    simp only [RenderState.local?_congr h, RenderState.get?_congr h]
  · refine P.holds_restoreLoop _ _ _ (P.holds_rounds ?_ hb _ _ _ _)
    exact P.holds_startRound (P.holds_put _) (P.holds_put _)

/-- The rendering of a node, given what holds of its parts and of what it calls. -/
theorem holds_node (ha : P.Around env) {n : Node} (hp : P.Sited g n.places)
    (hx : ∀ e ∈ n.kind.exprs, P.Evaluates self g env e) (hb : ∀ b ∈ n.kind.blocks, P.Renders self g env b)
    (hc : n.kind.callsOut = true → P.Holds env fun i => (self i).node ((g i).node n)) :
    P.Holds env fun i => (self i).node ((g i).node n) := by
  refine P.holds_nodeBy ha hp hx hb hc fun hv => ?_
  obtain ⟨kind, p⟩ := n
  cases kind with
  | loop var iterable body otherwise =>
    refine P.holds_loopBy ha var hp.tail.head (hx _ (List.mem_cons_self ..)) (fun x h => ?_)
      (P.holds_looping var (hb _ (List.mem_cons_self ..))) fun b h => ?_
    · exact hx _ (List.mem_cons_of_mem _ h)
    · exact hb _ (List.mem_cons_of_mem _ (Option.mem_toList.mpr h))
  | assign target value =>
    refine P.holds_doing (P.holds_bind (hx _ (List.mem_cons_self ..)).value fun v => ?_)
    exact P.holds_assign ha hp.tail (fun e he => (hx e (List.mem_cons_of_mem _ he)).value) v
  | _ => cases hv

lemma holds_bindParams {params : List Param} (h : ∀ q ∈ params, ∀ e ∈ q.fallback, P.Evaluates self g env e)
    (named : Dict Value) (vs : List Value) :
    P.Holds env fun i => (self i).bindParams named ((g i).paramList params) vs := by
  induction params generalizing vs with
  | nil => exact P.holds_pure _
  | cons q params ih =>
    have later := ih fun x hx => h x (List.mem_cons_of_mem _ hx)
    have fallback := h q (List.mem_cons_self ..)
    obtain ⟨name, e?, p⟩ := q
    simp only [Relocation.paramList, Relocation.param, Interpreter.bindParams]
    cases named.get? name with
    | some v => exact P.holds_bind (P.holds_put _ _) fun _ => later _
    | none =>
      cases vs with
      | cons v vs => exact P.holds_bind (P.holds_put _ _) fun _ => later _
      | nil =>
        cases e? with
        | some e =>
          refine P.holds_bind (fallback e rfl).value fun v => ?_
          exact P.holds_bind (P.holds_put _ _) fun _ => later _
        | none => exact P.holds_bind (P.holds_put _ _) fun _ => later _

/-- What a macro does in the frame that is opened for it. -/
lemma holds_macroBody {d : MacroDef} (hf : ∀ q ∈ d.params, ∀ e ∈ q.fallback, P.Evaluates self g env e)
    (hb : P.Renders self g env d.body) (args : Arguments) (content : Option String) :
    P.Holds env fun i => (do
      (self i).bindParams args.named ((g i).macroDef d).params args.positional
      if let some text := content then
        modify (·.put "bodyContent" (.str text))
      (self i).render ((g i).macroDef d).body : Render Flow) := by
  obtain ⟨name, params, body, source, p⟩ := d
  refine P.holds_bind (P.holds_bindParams hf _ _) fun _ => ?_
  cases content with
  | none => exact hb
  | some text => exact P.holds_bind (P.holds_put _ _) fun _ => hb

lemma holds_runMacro {d : MacroDef} (hf : ∀ q ∈ d.params, ∀ e ∈ q.fallback, P.Evaluates self g env e)
    (hb : P.Renders self g env d.body) (args : Arguments) (content : Option String) :
    P.Holds env fun i => (self i).runMacro ((g i).macroDef d) args content :=
  P.holds_inFrame (P.holds_macroBody hf hb args content)

end Pace

/-! ### Locksteps -/

/-- Renders a template as the outermost one. -/
def Interpreter.outermost (self : Interpreter) (t : Template) : Render Unit :=
  ((self.render t.root).inTemplate t >>= fun _ => pure ()).onError fun e => e.inSource t.source

lemma Interpreter.outermost_ofDepth (depth : Nat) (t : Template) :
    (Interpreter.ofDepth depth).outermost t = Render.outermostWithin depth t := rfl

namespace Lockstep

variable {ι α β : Type} (L : Lockstep ι) {env : ι → RenderEnv} {self : ι → Interpreter}

/-- What holds of evaluating an expression, in conditions and elsewhere. -/
def Evaluates (self : ι → Interpreter) (env : ι → RenderEnv) (e : Expr) : Prop :=
  ∀ lenient, L.Holds env fun i => (self i).eval lenient e

def Renders (self : ι → Interpreter) (env : ι → RenderEnv) (b : Block) : Prop :=
  L.Holds env fun i => (self i).render b

/-- What holds of the defaults of a macro's parameters and of its body. -/
structure Runs (code : ι → Interpreter) (env : ι → RenderEnv) (d : MacroDef) : Prop where
  fallback : ∀ q ∈ d.params, ∀ e ∈ q.fallback, L.Evaluates code env e
  body : L.Renders code env d.body

/-- What holds of the code that can be called from some surroundings. -/
structure Callees (code : ι → Interpreter) (env : ι → RenderEnv) : Prop where
  calling : ∀ {name u d}, L.Units u → (∀ i, (env i).macro? name = some (u i, d)) →
    (∀ i, (env i).calls.length < (env i).settings.macroMaxDepth) →
    L.Runs code (fun i => (env i).calling d.name (u i)) d
  parsing : ∀ {u}, L.Units u → ∀ t : Template, L.Met t →
    (∀ i, (env i).templates.length < (env i).settings.parseMaxDepth) →
    L.Renders code (fun i => (env i).opening (t.inUnit (u i))) t.root
  evaluating : ∀ {u}, L.Units u → (∀ i, ∃ n, u i = .evaluated n) → ∀ t : Template, L.Met t →
    L.Renders code (fun i => (env i).opening (t.inUnit (u i))) t.root

/-! The code of a lockstep is the same in all renders, and may fail everywhere. -/

variable {L}

lemma holds_pace {m : ι → Render α} : L.pace.Holds env m ↔ L.Holds env m := Iff.rfl

lemma evaluates_stay {e : Expr} : L.pace.Evaluates self (fun _ => .stay) env e ↔ L.Evaluates self env e := by
  unfold Tempo.Evaluates
  simp only [Relocation.expr_stay]
  exact Iff.rfl

lemma renders_stay {b : Block} : L.pace.Renders self (fun _ => .stay) env b ↔ L.Renders self env b := by
  unfold Tempo.Renders
  simp only [Relocation.block, Relocation.nodeList_stay]
  exact Iff.rfl

lemma sited_stay (ps : List Position) : L.pace.Sited (fun _ => .stay) ps := fun p _ => ⟨p, rfl⟩

variable (L)

/-- The value of an expression, given what holds of its parts. -/
theorem holds_evaluate (ha : L.Around env) {e : Expr} (hx : ∀ x ∈ e.kind.exprs, L.Evaluates self env x)
    (hb : ∀ b ∈ e.kind.blocks, L.Renders self env b) (lenient : Bool) :
    L.Holds env fun i => (self i).evaluate lenient e := by
  have value := L.pace.holds_evaluate ha (sited_stay _) (fun x h => evaluates_stay.mpr (hx x h))
    (fun b h => renders_stay.mpr (hb b h)) lenient
  simpa only [Relocation.expr_stay] using holds_pace.mp value

lemma holds_nested {t : Template} {u : ι → CodeUnit}
    (h : L.Renders self (fun i => (env i).opening (t.inUnit (u i))) t.root) (a : Activation)
    (p : Position) {around : ι → Render Flow → Render Flow}
    (hr : ∀ {env} {m : ι → Render Flow}, L.Holds env m → L.Holds env fun i => around i (m i)) :
    L.Holds env fun i => (self i).nested (t.inUnit (u i)) a p (around i) := by
  have told : L.Holds env fun i =>
      ((around i ((self i).render t.root)).inTemplate (t.inUnit (u i))).onError
        fun e => (e.inSource t.source).leaving a p :=
    L.holds_onError (fun e => by rw [TemplateError.kind_leaving, TemplateError.kind_inSource])
      (L.holds_inTemplate (hr h))
  exact told

lemma holds_parseBy (ha : L.Around env) {arg : Expr} (h : L.Evaluates self env arg) (p : Position)
    {f : ι → String → Render Flow} (he : (∀ i, (env i).templates.length < (env i).settings.parseMaxDepth) →
      ∀ name, L.Holds env fun i => f i name) :
    L.Holds env fun i => (self i).parseBy arg p (f i) := by
  have parsed := L.pace.holds_parseBy ha (sited_stay _ _ (List.mem_singleton_self arg.position))
    (evaluates_stay.mpr h) ⟨p, rfl⟩ he
  simpa only [Relocation.expr_stay] using holds_pace.mp parsed

lemma holds_parse (ha : L.Around env) (hc : L.Callees self env) {arg : Expr}
    (h : L.Evaluates self env arg) (p : Position) :
    L.Holds env fun i => (self i).parse arg p := by
  simp only [Interpreter.parse_eq]
  refine L.holds_parseBy ha h p fun hd name => ?_
  refine L.holds_template ha (fun e => L.holds_raise_bind _ _) (fun t u ht hu => ?_) name
  have root := hc.parsing hu t ht hd
  have nested : L.Holds env fun i => do
      let flow ← (self i).nested (t.inUnit (u i)) (.parse name) p Render.inFrame
      return if flow.endsTemplate then .next else flow :=
    L.holds_bind (L.holds_nested root _ p L.holds_inFrame) fun flow => L.holds_pure _
  exact nested

lemma holds_inclusions (ha : L.Around env) {args : List Expr}
    (h : ∀ arg ∈ args, L.Evaluates self env arg) (p : Position) :
    L.Holds env fun i => args.forM ((self i).inclusion p) := by
  have included : L.pace.Holds env fun i => (Relocation.stay.exprList args).forM ((self i).inclusion p) := by
    refine L.pace.holds_forM fun arg ha' => ?_
    simp only [Interpreter.inclusion_eq]
    refine L.pace.holds_includeBy ha (sited_stay _ _ (List.mem_singleton_self arg.position))
      (evaluates_stay.mpr (h arg ha')) fun name => ?_
    exact L.holds_bind (L.holds_resource ha name) fun answer => L.holds_orRaise _ answer
  simpa only [Relocation.exprList_stay] using holds_pace.mp included

lemma holds_evaluateText (ha : L.Around env) (hc : L.Callees self env) {arg : Expr}
    (h : L.Evaluates self env arg) (p : Position) :
    L.Holds env fun i => (self i).evaluateText arg p := by
  obtain ⟨c, b, -, hs⟩ := L.settings ha
  have evaluated := L.pace.holds_evaluateBy (evaluates_stay.mpr h) (f := fun i text => do
      let unit ← Render.nextUnit
      let policy := (← read).settings.gobbling
      let t ← Render.orRaise (·.leaving .evaluation p)
        (Template.compile unit ⟨"#evaluate at " ++ p.display, text⟩ policy)
      (self i).nested t .evaluation p id) fun text => by
    refine L.holds_nextUnit fun u hu he => ?_
    refine L.holds_read ?_
    -- The text is compiled into another unit in each render, which leaves one template up to its unit.
    simp only [hs, Template.compile_inUnit (u _)]
    cases ht : Template.compile .inline ⟨"#evaluate at " ++ p.display, text⟩ c.gobbling with
    | error e => exact L.holds_raise_bind _ _
    | ok t => exact L.holds_nested (hc.evaluating hu he t (L.met_compile ht)) .evaluation p id
  simpa only [Relocation.expr_stay, Interpreter.evaluateText_eq] using holds_pace.mp evaluated

/-- What a macro does in the frame that is opened for it. -/
lemma holds_macroBody {d : MacroDef} (h : L.Runs self env d) (args : Arguments)
    (content : Option String) : L.Holds env fun i => (do
      (self i).bindParams args.named d.params args.positional
      if let some text := content then
        modify (·.put "bodyContent" (.str text))
      (self i).render d.body : Render Flow) := by
  have body := L.pace.holds_macroBody (fun q hq e he => evaluates_stay.mpr (h.fallback q hq e he))
    (renders_stay.mpr h.body) args content
  simpa only [Relocation.macroDef_stay] using holds_pace.mp body

lemma holds_runMacro {d : MacroDef} (h : L.Runs self env d) (args : Arguments)
    (content : Option String) : L.Holds env fun i => (self i).runMacro d args content :=
  L.holds_inFrame (L.holds_macroBody h args content)

lemma holds_inMacro (ha : L.Around env) {u : ι → CodeUnit} {d : MacroDef} (p : Position)
    {m : ι → Render α}
    (h : (∀ i, (env i).calls.length < (env i).settings.macroMaxDepth) →
      L.Holds (fun i => (env i).calling d.name (u i)) m) :
    L.Holds env fun i => Interpreter.inMacro (u i) d p (m i) := by
  obtain ⟨c, b, -, hs⟩ := L.settings ha
  obtain ⟨calls, hk⟩ := L.calls ha
  unfold Interpreter.inMacro
  refine L.holds_read ?_
  simp only [hs, hk]
  by_cases hd : c.macroMaxDepth ≤ calls.length
  · simp only [if_pos hd]
    exact L.holds_raise _
  · simp only [if_neg hd]
    refine L.holds_withReader (h fun i => ?_)
    rw [hs, hk]
    exact Nat.lt_of_not_le hd

lemma holds_invoke (ha : L.Around env) (hc : L.Callees self env) {name : String}
    {u : ι → CodeUnit} {d : MacroDef} (hu : L.Units u)
    (hm : ∀ i, (env i).macro? name = some (u i, d)) (p : Position) (args : Arguments)
    (content : Option String) : L.Holds env fun i => (self i).invoke (u i) d p args content := by
  unfold Interpreter.invoke
  have body := L.holds_inMacro ha p fun hd => L.holds_runMacro (hc.calling hu hm hd) args content
  have told : L.Holds env fun i => (Interpreter.inMacro (u i) d p ((self i).runMacro d args content)).onError
      fun e => (e.inSource d.source).leaving (.macroCall d.name) p :=
    L.holds_onError (fun e => by rw [TemplateError.kind_leaving, TemplateError.kind_inSource]) body
  exact L.holds_bind told fun flow => L.holds_pure _

lemma holds_macroCallBy (ha : L.Around env) {c : MacroCall} (hx : ∀ arg ∈ c.args, L.Evaluates self env arg.value)
    (hb : ∀ b ∈ c.body, L.Renders self env b) (p : Position)
    {f : ι → CodeUnit → MacroDef → Arguments → Option String → Render Flow}
    (hf : ∀ {u : ι → CodeUnit} {d}, L.Units u → (∀ i, (env i).macro? c.name = some (u i, d)) → ∀ args content,
      L.Holds env fun i => f i (u i) d args content) :
    L.Holds env fun i => (self i).macroCallBy c p (f i) := by
  have called := L.pace.holds_macroCallBy ha (c := c) ⟨p, rfl⟩ (sited_stay _)
    (fun arg h => evaluates_stay.mpr (hx arg h)) (fun b h => renders_stay.mpr (hb b h)) (f := f) (by
      rcases L.macro? ha c.name with hm | ⟨u, d, hu, hm⟩
      · exact .inl hm
      · refine .inr ⟨u, fun _ => .stay, d, ?_, fun args content => ?_⟩
        · simpa only [Relocation.macroDef_stay] using hm
        · simp only [Relocation.macroDef_stay]
          exact hf hu hm args content)
  simpa only [Relocation.macroCall_stay] using holds_pace.mp called

lemma holds_macroCall (ha : L.Around env) (hc : L.Callees self env) {c : MacroCall}
    (hx : ∀ arg ∈ c.args, L.Evaluates self env arg.value)
    (hb : ∀ b ∈ c.body, L.Renders self env b) (p : Position) :
    L.Holds env fun i => (self i).macroCall c p := by
  simp only [Interpreter.macroCall_eq]
  exact L.holds_macroCallBy ha hx hb p fun hu hm args content => L.holds_invoke ha hc hu hm p args content

/-! ### Nodes -/

/-- The rendering of a node, given what holds of its parts and of the code that it may call. -/
theorem holds_node (ha : L.Around env) (hc : L.Callees self env) {n : Node}
    (hx : ∀ e ∈ n.kind.exprs, L.Evaluates self env e)
    (hb : ∀ b ∈ n.kind.blocks, L.Renders self env b) :
    L.Holds env fun i => (self i).node n := by
  have node := L.pace.holds_node (n := n) ha (sited_stay _) (fun e h => evaluates_stay.mpr (hx e h))
    (fun b h => renders_stay.mpr (hb b h)) fun hcall => by
    simp only [Relocation.node_stay]
    obtain ⟨kind, p⟩ := n
    cases kind with
    | macroCall c =>
      refine L.holds_macroCall ha hc (fun arg h => hx _ (List.mem_map_of_mem h)) (fun b h => ?_) p
      exact hb b (Option.mem_toList.mpr h)
    | parse arg => exact L.holds_parse ha hc (hx _ (List.mem_singleton_self _)) p
    | inclusion args => exact L.pace.holds_doing (L.holds_inclusions ha hx p)
    | evaluate arg => exact L.holds_evaluateText ha hc (hx _ (List.mem_singleton_self _)) p
    | _ => cases hcall
  simpa only [Relocation.node_stay] using holds_pace.mp node

/-- The rendering of a block, given what holds of its nodes. -/
theorem holds_block {b : Block} (h : ∀ n ∈ b, L.Holds env fun i => (self i).node n) :
    L.Holds env fun i => (self i).block b := by
  have block : L.pace.Holds env fun i => (self i).block (Relocation.stay.block b) := by
    refine L.pace.holds_block fun n hn => ?_
    simp only [Relocation.node_stay]
    exact h n hn
  simpa only [Relocation.block, Relocation.nodeList_stay] using holds_pace.mp block

/-! ### Whole renders -/

/-- Every expression and every block runs in lockstep, however deep the code is nested, if giving up does. -/
theorem holds_ofDepth
    (hx : ∀ {α : Type} {env : ι → RenderEnv}, L.Holds env fun _ => (throw .exhausted : Render α))
    (depth : Nat) {env : ι → RenderEnv} (ha : L.Around env) :
    (∀ e, L.Evaluates (fun _ => .ofDepth depth) env e) ∧
      ∀ b, L.Renders (fun _ => .ofDepth depth) env b := by
  induction depth generalizing env with
  | zero => exact ⟨fun e lenient => hx, fun b => hx⟩
  | succ depth ih =>
    -- Called code runs one level deeper in surroundings of the same kind.
    have callees : L.Callees (fun _ => .ofDepth depth) env :=
      { calling := fun hu _ _ =>
          ⟨fun q _ e _ => (ih (L.calling ha hu _)).1 e, (ih (L.calling ha hu _)).2 _⟩
        parsing := fun hu t ht _ => (ih (L.opening ha hu ht)).2 _
        evaluating := fun hu _ t ht => (ih (L.opening ha hu ht)).2 _ }
    refine ⟨fun e lenient => ?_, fun b => ?_⟩
    · exact L.holds_evaluate ha (fun x _ => (ih ha).1 x) (fun b _ => (ih ha).2 b) lenient
    · refine L.holds_block fun n _ => ?_
      exact L.holds_node ha callees (fun e _ => (ih ha).1 e) fun b _ => (ih ha).2 b

/-- A template that is the same up to its unit renders in lockstep as the outermost one, given what holds of
its root. -/
theorem holds_outermost {t : Template} {u : ι → CodeUnit}
    (h : L.Renders self (fun i => (env i).opening (t.inUnit (u i))) t.root) :
    L.Holds env fun i => (self i).outermost (t.inUnit (u i)) := by
  refine L.holds_onError (fun e => TemplateError.kind_inSource e t.source) ?_
  exact L.holds_bind (L.holds_inTemplate h) fun _ => L.holds_pure _

end Lockstep

end Stencil
