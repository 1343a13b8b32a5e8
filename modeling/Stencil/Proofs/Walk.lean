import Mathlib.Tactic.Lemma
import Stencil.Engine

/-!
# Renders that are watched

A walk is a step of a render together with the nodes that it executes, in order: each with what is open
around it, the innermost first, and with the state in which it starts. Evaluating an expression is one step
of a walk; a string in it is a walk of its own. Main statement: `Walker.run_ofDepth`, watching changes
nothing.
-/

namespace Stencil

/-- What a render opens and closes again around the code inside. -/
inductive Opened where
  /-- The rounds of a loop, with the bindings that the loop puts back. -/
  | rounds (var : String) (item status : Option Value)
  /-- The body of a macro, with a frame. -/
  | macroBody
  /-- A parsed template, with a frame. -/
  | parsed
  /-- The body of a macro call, which writes into a text of its own. -/
  | callBody (outer : Sink)

namespace Opened

/-- What closing it changes. -/
def close : Opened → RenderState → RenderState
  | rounds var item status, s => s.restoreLoop var item status
  | macroBody, s => { s with frames := s.frames.tail }
  | parsed, s => { s with frames := s.frames.tail }
  | callBody outer, s => { s with sink := outer }

/-- Whether a flow that ends the code inside goes on outside. -/
def passes : Opened → Flow → Bool
  | rounds .., flow => !flow.endsLoop
  | macroBody, flow => !flow.endsMacro
  | parsed, flow => !flow.endsTemplate
  | callBody _, flow => flow == .stop

def after (o : Opened) (flow : Flow) : Flow := if o.passes flow then flow else .next

/-- Closes everything that is open, the innermost first. -/
def closeAll (opened : List Opened) (s : RenderState) : RenderState :=
  opened.foldl (fun s o => o.close s) s

@[simp] lemma closeAll_nil (s : RenderState) : closeAll [] s = s := rfl

@[simp] lemma closeAll_concat (opened : List Opened) (o : Opened) (s : RenderState) :
    closeAll (opened ++ [o]) s = o.close (closeAll opened s) := by
  rw [closeAll, List.foldl_append]
  rfl

/-- A `#stop` is caught by nothing. -/
lemma passes_stop (o : Opened) : o.passes .stop = true := by cases o <;> rfl

end Opened

/-- The execution of a node. -/
structure Event where
  node : Node
  env : RenderEnv
  /-- What is open around it, the innermost first. -/
  opened : List Opened
  /-- The state in which it starts. -/
  state : RenderState

/-- A step of a render and the nodes that it executes, in order. -/
structure Walk (α : Type) where
  run : Render α
  trace : RenderEnv → List Opened → RenderState → List Event

namespace Walk

variable {α β : Type}

instance : Monad Walk where
  pure x := ⟨pure x, fun _ _ _ => []⟩
  bind w f :=
    { run := w.run >>= fun x => (f x).run
      trace := fun env opened s => w.trace env opened s ++
        match w.run env s with
        | .ok x s => (f x).trace env opened s
        | .error _ _ => [] }

def act (m : Render α) : Walk α := ⟨m, fun _ _ _ => []⟩

/-- The execution of a node starts. -/
def visit (n : Node) : Walk Unit := ⟨pure (), fun env opened s => [⟨n, env, opened, s⟩]⟩

def under (g : RenderEnv → RenderEnv) (w : Walk α) : Walk α :=
  ⟨withReader g w.run, fun env opened s => w.trace (g env) opened s⟩

def telling (f : TemplateError → TemplateError) (w : Walk α) : Walk α := ⟨w.run.onError f, w.trace⟩

def opening (o : Opened) (w : Walk α) : Walk α :=
  ⟨w.run.andThen o.close, fun env opened s => w.trace env (o :: opened) s⟩

/-- A walk that goes on only after what says so. -/
def follow (w rest : Walk Flow) : Walk Flow := do
  match ← w with
  | .next => rest
  | flow => return flow

/-- A walk with something open around it that may catch its flow. -/
def within (o : Opened) (w : Walk Flow) : Walk Flow := do
  return o.after (← opening o w)

@[simp] lemma run_pure (x : α) : (pure x : Walk α).run = pure x := rfl

@[simp] lemma run_bind (w : Walk α) (f : α → Walk β) :
    (w >>= f).run = w.run >>= fun x => (f x).run := rfl

@[simp] lemma run_act (m : Render α) : (act m).run = m := rfl

lemma trace_bind (w : Walk α) (f : α → Walk β) (env : RenderEnv) (opened : List Opened)
    (s : RenderState) :
    (w >>= f).trace env opened s = w.trace env opened s ++
      match w.run env s with
      | .ok x s => (f x).trace env opened s
      | .error _ _ => [] := rfl

lemma trace_act_bind (m : Render α) (f : α → Walk β) (env : RenderEnv) (opened : List Opened)
    (s : RenderState) :
    (act m >>= f).trace env opened s =
      match m env s with
      | .ok x s => (f x).trace env opened s
      | .error _ _ => [] := rfl

lemma trace_follow (w rest : Walk Flow) (env : RenderEnv) (opened : List Opened) (s : RenderState) :
    (follow w rest).trace env opened s = w.trace env opened s ++
      match w.run env s with
      | .ok .next s => rest.trace env opened s
      | _ => [] := by
  unfold follow
  rw [trace_bind]
  cases w.run env s with
  | ok flow s => cases flow <;> rfl
  | error halt s => rfl

lemma trace_within (o : Opened) (w : Walk Flow) (env : RenderEnv) (opened : List Opened)
    (s : RenderState) : (within o w).trace env opened s = w.trace env (o :: opened) s := by
  unfold within
  rw [trace_bind]
  cases (opening o w).run env s <;> exact List.append_nil _

lemma run_follow (w rest : Walk Flow) (env : RenderEnv) (s : RenderState) :
    (follow w rest).run env s =
      match w.run env s with
      | .ok .next s => rest.run env s
      | r => r := by
  show (w.run >>= _) env s = _
  rw [Render.bind_apply]
  cases w.run env s with
  | ok flow s => cases flow <;> rfl
  | error halt s => rfl

lemma run_within (o : Opened) (w : Walk Flow) (env : RenderEnv) (s : RenderState) :
    (within o w).run env s =
      match w.run env s with
      | .ok flow s => .ok (o.after flow) (o.close s)
      | .error halt s => .error halt (o.close s) := by
  show (w.run.andThen o.close >>= _) env s = _
  rw [Render.bind_apply, Render.andThen]
  cases w.run env s with
  | ok flow s => rfl
  | error halt s => rfl

end Walk

/-- An interpreter with a way to watch it rendering blocks. -/
structure Walker where
  self : Interpreter
  render : Block → Walk Flow

namespace Walker

open Walk

variable (w : Walker)

def conditional (otherwise : Option Block) : List Branch → Walk Flow
  | [] =>
    match otherwise with
    | some b => w.render b
    | none => return .next
  | b :: branches => do
    let v ← act (w.self.eval true b.condition)
    if ← act (Render.ask v.isTrue) then w.render b.body
    else conditional otherwise branches

/-- `Interpreter.rounds`, watched; what the loop catches is not caught yet. -/
def rounds (var : String) (body : Block) (parent : Value) (count : Nat) :
    Nat → List (Option String × Value) → Walk Flow
  | _, [] => return .next
  | k, (key, item) :: items => do
    act (Interpreter.startRound var item (loopStatus k count parent key))
    follow (w.render body) (rounds var body parent count (k + 1) items)

def loop (var : String) (iterable : Expr) (body : Block) (otherwise : Option Block) : Walk Flow := do
  match ← act (w.self.loopItems iterable) with
  | none => return .next
  | some [] =>
    match otherwise with
    | some b => w.render b
    | none => return .next
  | some items =>
    let s ← act get
    within (.rounds var (s.local? var) (s.local? "foreach"))
      (w.rounds var body ((s.get? "foreach").getD .null) items.length 0 items)

def framed (o : Opened) (walk : Walk Flow) : Walk Flow := do
  act (modify fun s => { s with frames := ∅ :: s.frames })
  within o walk

def nested (t : Template) (a : Activation) (p : Position) (around : Walk Flow → Walk Flow) :
    Walk Flow :=
  telling (fun e => (e.inSource t.source).leaving a p) (under (·.opening t) (around (w.render t.root)))

def parse (arg : Expr) (p : Position) : Walk Flow := do
  let name ← act (w.self.resourceName arg "#parse")
  let env ← act read
  let limit := env.settings.parseMaxDepth
  if limit ≤ env.templates.length then act (Render.fail (.parseDepth name limit) p)
  else
    let t ← act (do Render.orRaise (·.leaving (.parse name) p) (← Render.template name))
    w.nested t (.parse name) p (framed .parsed)

def evaluateText (arg : Expr) (p : Position) : Walk Flow := do
  let v ← act (w.self.value arg)
  if v.isNull then return .next
  else
    let t ← act do
      let source : Source := ⟨"#evaluate at " ++ p.display, ← Render.display v⟩
      let unit ← Render.nextUnit
      Render.orRaise (·.leaving .evaluation p)
        (Template.compile unit source (← read).settings.gobbling)
    w.nested t .evaluation p id

/-- The body of a macro with its parameters bound, watched. -/
def macroBody (d : MacroDef) (args : Arguments) (content : Option String) : Walk Flow := do
  act do
    w.self.bindParams args.named d.params args.positional
    if let some text := content then
      modify (·.put "bodyContent" (.str text))
  w.render d.body

def invoke (unit : CodeUnit) (d : MacroDef) (p : Position) (args : Arguments)
    (content : Option String) : Walk Flow :=
  telling (fun e => (e.inSource d.source).leaving (.macroCall d.name) p) do
    let env ← act read
    let limit := env.settings.macroMaxDepth
    if limit ≤ env.calls.length then
      act (Render.fail (.macroDepth d.name limit env.calls.reverse) p)
    else under (·.calling d.name unit) (framed .macroBody (w.macroBody d args content))

def content (body : Block) : Walk (Flow × String) := do
  let outer ← act (do return (← get).sink)
  act (modify fun s => { s with sink := .empty })
  opening (.callBody outer) do
    let flow ← w.render body
    return (flow, ← act (do return (← get).sink.written))

def macroCall (c : MacroCall) (p : Position) : Walk Flow := do
  match (← act read).macro? c.name with
  | none => act (w.self.macroCall c p)
  | some (unit, d) =>
    let args ← act do
      let args ← w.self.arguments d c.args
      Interpreter.checkArguments d args p
      return args
    match c.body with
    | none => w.invoke unit d p args none
    | some body =>
      let (flow, text) ← w.content body
      if flow == .stop then return .stop
      else w.invoke unit d p args (some text)

/-- What a node executes. The other nodes render no blocks. -/
def construct (n : Node) : Walk Flow :=
  match n.kind with
  | .conditional branches otherwise => w.conditional otherwise branches
  | .loop var iterable body otherwise => w.loop var iterable body otherwise
  | .macroCall c => w.macroCall c n.position
  | .parse arg => w.parse arg n.position
  | .evaluate arg => w.evaluateText arg n.position
  | _ => act (w.self.node n)

def node (n : Node) : Walk Flow := do
  visit n
  w.construct n

/-- `Interpreter.block`, watched. -/
def block : Block → Walk Flow
  | [] => return .next
  | n :: ns => follow (w.node n) (block ns)

def ofDepth : Nat → Walker
  | 0 => ⟨.ofDepth 0, fun _ => act (throw .exhausted)⟩
  | depth + 1 => ⟨.ofDepth (depth + 1), fun b => (ofDepth depth).block b⟩

/-! ### Watching changes nothing -/

section

variable {w} (h : ∀ b, (w.render b).run = w.self.render b)

include h

lemma run_conditional (otherwise : Option Block) (branches : List Branch) :
    (w.conditional otherwise branches).run = w.self.conditional otherwise branches := by
  induction branches with
  | nil =>
    cases otherwise with
    | some b => exact h b
    | none => rfl
  | cons b branches ih =>
    unfold conditional Interpreter.conditional
    simp only [run_bind, run_act]
    congr 1
    funext v
    congr 1
    funext truth
    cases truth with
    | true => exact h b.body
    | false => exact ih

lemma run_rounds (var : String) (body : Block) (parent : Value) (count k : Nat)
    (items : List (Option String × Value)) (env : RenderEnv) (s : RenderState) :
    w.self.rounds var body parent count k items env s =
      match (w.rounds var body parent count k items).run env s with
      | .ok flow s => .ok (if flow.endsLoop then .next else flow) s
      | r => r := by
  induction items generalizing k s with
  | nil => rfl
  | cons entry items ih =>
    obtain ⟨key, item⟩ := entry
    unfold Interpreter.rounds rounds
    rw [run_bind, run_act, Render.bind_apply, Render.bind_apply]
    cases Interpreter.startRound var item (loopStatus k count parent key) env s with
    | error halt s => rfl
    | ok x s =>
      -- A round that does not end with `next` ends the loop; only the watched loop catches that later.
      dsimp only
      rw [run_follow, Render.bind_apply, h]
      cases w.self.render body env s with
      | error halt s => rfl
      | ok flow s =>
        cases flow with
        | next => exact ih (k + 1) s
        | leave scope => rfl
        | stop => rfl

lemma run_loop (var : String) (iterable : Expr) (body : Block) (otherwise : Option Block) :
    (w.loop var iterable body otherwise).run = w.self.loop var iterable body otherwise := by
  unfold loop Interpreter.loop
  rw [run_bind, run_act]
  congr 1
  funext items?
  match items? with
  | none => rfl
  | some [] =>
    cases otherwise with
    | some b => exact h b
    | none => rfl
  | some (item :: items) =>
    funext env s
    dsimp only
    rw [run_bind, run_act, Render.get_bind_apply, Render.get_bind_apply, run_within, Render.andThen,
      run_rounds h]
    cases Walk.run _ env s with
    | error halt s => rfl
    | ok flow s => cases flow with
      | next => rfl
      | leave scope => cases scope <;> rfl
      | stop => rfl

omit h in
/-- A frame that is opened for a walk is closed after it. -/
lemma run_framed {o : Opened} (ho : ∀ s, o.close s = { s with frames := s.frames.tail })
    (walk : Walk Flow) (env : RenderEnv) (s : RenderState) :
    (framed o walk).run env s =
      match Render.inFrame walk.run env s with
      | .ok flow s => .ok (o.after flow) s
      | r => r := by
  show ((modify _ : Render PUnit) >>= fun _ => (within o walk).run) env s =
    match ((modify _ : Render PUnit) >>= fun _ => walk.run.andThen _) env s with
    | .ok flow s => .ok (o.after flow) s
    | r => r
  rw [Render.bind_apply, Render.bind_apply, Render.modify_apply]
  dsimp only
  rw [run_within, Render.andThen]
  cases walk.run env { s with frames := ∅ :: s.frames } with
  | ok flow s => simp only [ho]
  | error halt s => simp only [ho]

lemma run_nested_parsed (t : Template) (a : Activation) (p : Position) (env : RenderEnv)
    (s : RenderState) :
    (w.nested t a p (framed .parsed)).run env s =
      match w.self.nested t a p Render.inFrame env s with
      | .ok flow s => .ok (if flow.endsTemplate then .next else flow) s
      | r => r := by
  show ((framed .parsed (w.render t.root)).run.onError _) (env.opening t) s =
    match ((Render.inFrame (w.self.render t.root)).onError _) (env.opening t) s with
    | .ok flow s => .ok (if flow.endsTemplate then .next else flow) s
    | r => r
  simp only [Render.onError]
  rw [run_framed fun _ => rfl, h]
  cases Render.inFrame (w.self.render t.root) (env.opening t) s with
  | ok flow s => cases flow with
    | next => rfl
    | leave scope => cases scope <;> rfl
    | stop => rfl
  | error halt s => cases halt <;> rfl

lemma run_parse (arg : Expr) (p : Position) : (w.parse arg p).run = w.self.parse arg p := by
  unfold parse Interpreter.parse
  rw [run_bind, run_act]
  congr 1
  funext name env s
  rw [run_bind, run_act, Render.read_bind_apply, Render.read_bind_apply]
  dsimp only
  split
  · rfl
  · rw [run_bind, run_act, bind_assoc, Render.bind_apply, Render.bind_apply]
    cases Render.template name env s with
    | error halt s => rfl
    | ok answer s =>
      cases answer with
      | error e => rfl
      | ok t =>
        show (w.nested t (.parse name) p (framed .parsed)).run env s =
          (w.self.nested t (.parse name) p Render.inFrame >>= _) env s
        rw [run_nested_parsed h, Render.bind_apply]
        cases w.self.nested t (.parse name) p Render.inFrame env s <;> rfl

lemma run_nested (t : Template) (a : Activation) (p : Position) :
    (w.nested t a p id).run = w.self.nested t a p id := by
  show ((withReader _ (w.render t.root).run).onError _) = _
  rw [h]
  rfl

lemma run_evaluateText (arg : Expr) (p : Position) :
    (w.evaluateText arg p).run = w.self.evaluateText arg p := by
  unfold evaluateText Interpreter.evaluateText
  rw [run_bind, run_act]
  congr 1
  funext v
  dsimp only
  split
  · rfl
  · rw [run_bind, run_act]
    simp only [run_nested h, bind_assoc]

lemma run_macroBody (d : MacroDef) (args : Arguments) (content : Option String) :
    Render.inFrame (w.macroBody d args content).run = w.self.runMacro d args content := by
  unfold macroBody Interpreter.runMacro
  rw [run_bind, run_act, bind_assoc, h]
  cases content <;> rfl

lemma run_invoke (unit : CodeUnit) (d : MacroDef) (p : Position) (args : Arguments)
    (content : Option String) :
    (w.invoke unit d p args content).run = w.self.invoke unit d p args content := by
  funext env s
  unfold invoke Interpreter.invoke
  rw [Render.bind_apply]
  simp only [telling, Render.onError, Interpreter.inMacro, run_bind, run_act, Render.read_bind_apply]
  by_cases hd : env.settings.macroMaxDepth ≤ env.calls.length
  · simp only [if_pos hd]
    rfl
  · simp only [if_neg hd]
    have inside : (under (·.calling d.name unit) (framed .macroBody (w.macroBody d args content))).run env s =
        match withReader (·.calling d.name unit) (w.self.runMacro d args content) env s with
        | .ok flow s => .ok (if flow.endsMacro then .next else flow) s
        | r => r := by
      show (framed .macroBody (w.macroBody d args content)).run (env.calling d.name unit) s =
        match w.self.runMacro d args content (env.calling d.name unit) s with
        | .ok flow s => .ok (if flow.endsMacro then .next else flow) s
        | r => r
      rw [run_framed fun _ => rfl, run_macroBody h]
      cases w.self.runMacro d args content (env.calling d.name unit) s with
      | error halt s => rfl
      | ok flow s => cases flow with
        | next => rfl
        | leave scope => cases scope <;> rfl
        | stop => rfl
    rw [inside]
    cases withReader (·.calling d.name unit) (w.self.runMacro d args content) env s with
    | ok flow s => rfl
    | error halt s => cases halt <;> rfl

lemma run_content (body : Block) : (w.content body).run = (w.self.render body).captured := by
  unfold content Render.captured
  rw [← h]
  rfl

lemma run_macroCall (c : MacroCall) (p : Position) :
    (w.macroCall c p).run = w.self.macroCall c p := by
  funext env s
  unfold macroCall
  rw [run_bind, run_act, Render.read_bind_apply]
  cases hm : env.macro? c.name with
  | none => rfl
  | some found =>
    obtain ⟨unit, d⟩ := found
    unfold Interpreter.macroCall
    rw [Render.read_bind_apply, hm]
    dsimp only
    rw [run_bind, run_act]
    simp only [bind_assoc, pure_bind]
    -- Both sides begin with the arguments and their check.
    refine congrFun (congrFun (congrArg (w.self.arguments d c.args >>= ·) ?_) env) s
    funext args
    congr 1
    funext _
    cases c.body with
    | none => exact run_invoke h unit d p args none
    | some body =>
      dsimp only
      rw [run_bind, run_content h]
      congr 1
      funext r
      split
      · rfl
      · exact run_invoke h unit d p args (some r.2)

lemma run_node (n : Node) : (w.node n).run = w.self.node n := by
  obtain ⟨kind, p⟩ := n
  show (w.construct ⟨kind, p⟩).run = _
  cases kind with
  | conditional branches otherwise => exact run_conditional h otherwise branches
  | loop var iterable body otherwise => exact run_loop h var iterable body otherwise
  | macroCall c => exact run_macroCall h c p
  | parse arg => exact run_parse h arg p
  | evaluate arg => exact run_evaluateText h arg p
  | _ => rfl

lemma run_block (b : Block) : (w.block b).run = w.self.block b := by
  induction b with
  | nil => rfl
  | cons n b ih =>
    funext env s
    unfold block Interpreter.block
    rw [run_follow, Render.bind_apply, run_node h, ih]
    cases w.self.node n env s with
    | error halt s => rfl
    | ok flow s => cases flow <;> rfl

end

lemma self_ofDepth (depth : Nat) : (ofDepth depth).self = .ofDepth depth := by
  cases depth <;> rfl

/-- A watched render is a render: watching changes nothing. -/
theorem run_ofDepth (depth : Nat) (b : Block) :
    ((ofDepth depth).render b).run = (Interpreter.ofDepth depth).render b := by
  induction depth generalizing b with
  | zero => rfl
  | succ depth ih =>
    show ((ofDepth depth).block b).run = (Interpreter.ofDepth depth).block b
    rw [run_block fun b => by rw [ih, self_ofDepth], self_ofDepth]

end Walker

end Stencil
