import Stencil.Engine
import Stencil.Proofs.History
import Stencil.Proofs.Lockstep.Node
import Stencil.Proofs.Lockstep.Uniform
import Stencil.Proofs.Reports

/-!
# The trail of a failure

An interpreter can have the activations in progress at hand, and give them to a failure once and for all where it
arises. A render does not: it adds them one by one while the failure leaves them. Both make the same trail, and nothing
else of a failure is changed on its way but the source that it tells. Main statement: `Engine.trail_of_serve`.
-/

namespace Stencil

/-- Activations in progress, the innermost first, each with the position of its directive or call. -/
abbrev Activations := List (Activation × Position)

namespace TemplateError

/-- Gives an error the activations in progress where it arises. One that has some arose further inside. -/
def arising (e : TemplateError) (active : Activations) : TemplateError :=
  match e with
  | .single f => .single (if f.trail.isEmpty then { f with trail := active } else f)
  | .compile .. => e

/-- Gives an error that was answered the activations in progress where it is, besides its own. -/
def reported (e : TemplateError) (active : Activations) : TemplateError :=
  match e with
  | .single f => .single { f with trail := f.trail ++ active }
  | .compile .. => e

end TemplateError

/-! ### Renders with the activations at hand -/

namespace Noting

variable (self : Activations → Interpreter) (active : Activations)

/-- A template that is opened is in progress until it is rendered. -/
def nested (t : Template) (a : Activation) (p : Position) (around : Render Flow → Render Flow) : Render Flow :=
  ((around ((self ((a, p) :: active)).render t.root)).inTemplate t).onError (·.arising ((a, p) :: active))

/-- `#parse` is in progress from where its depth allows for it. -/
def parse (arg : Expr) (p : Position) : Render Flow :=
  (self active).parseBy arg p fun name => do
    let t ← Render.orRaise (·.reported ((.parse name, p) :: active)) (← Render.template name)
    let flow ← nested self active t (.parse name) p Render.inFrame
    return if flow.endsTemplate then .next else flow

/-- `#include` is in progress while it loads one of its arguments. -/
def inclusion (p : Position) (arg : Expr) : Render Unit :=
  (self active).includeBy arg fun name =>
    Render.resource name >>= Render.orRaise (·.reported ((.inclusion name, p) :: active))

/-- `#evaluate` is in progress from where its text is at hand. -/
def evaluateText (arg : Expr) (p : Position) : Render Flow :=
  (self active).evaluateBy arg fun text => do
    let unit ← Render.nextUnit
    let policy := (← read).settings.gobbling
    let t ← Render.orRaise (·.reported ((.evaluation, p) :: active))
      (Template.compile unit ⟨"#evaluate at " ++ p.display, text⟩ policy)
    nested self active t .evaluation p id

/-- A macro call is in progress from where its arguments and its body are at hand, also where it is refused. -/
def invoke (unit : CodeUnit) (d : MacroDef) (p : Position) (args : Arguments) (content : Option String) :
    Render Flow := do
  let inside : Activations := (.macroCall d.name, p) :: active
  let flow ← (Interpreter.inMacro unit d p ((self inside).runMacro d args content)).onError (·.arising inside)
  return if flow.endsMacro then .next else flow

def node (n : Node) : Render Flow :=
  match n.kind with
  | .macroCall c => (self active).macroCallBy c n.position fun unit d => invoke self active unit d n.position
  | .parse arg => parse self active arg n.position
  | .inclusion args => Interpreter.doing (args.forM (inclusion self active n.position))
  | .evaluate arg => evaluateText self active arg n.position
  | _ => (self active).node n

def block : Block → Render Flow
  | [] => return .next
  | n :: ns => do
    match ← node self active n with
    | .next => block ns
    | flow => return flow

end Noting

/-- The interpreter that follows code nested at most `depth` deep, with the activations in progress at hand. A failure
gets them where it arises, and is not changed any more. -/
def Interpreter.noting : Nat → Activations → Interpreter
  | 0, _ => .ofDepth 0
  | depth + 1, active =>
    { eval := fun lenient e => (noting depth active).evaluate lenient e
      render := fun b => Noting.block (noting depth) active b }

namespace Engine

variable (e : Engine) (h : Host)

/-- Renders a compiled template with the activations in progress at hand. -/
def renderNoting (depth : Nat) (t : Template) (σ : Store) (c : Context) (sink : Sink) : Rendering :=
  match ((Interpreter.noting depth []).render t.root).inTemplate t (e.env h) (e.start σ c sink) with
  | .ok _ s => e.finish none s
  | .error halt s => e.finish (some halt) s

/-- Renders what is asked for with the activations in progress at hand. -/
def serveNoting (σ : Store) (c : Context) (sink : Sink) : Request → Rendering
  | .named name =>
    match e.template h name with
    | (.ok t, e) => e.renderNoting h maxNesting t σ c sink
    | (.error f, e) => e.refused f σ c sink
  | .text text =>
    match e.inline text with
    | .ok t => e.renderNoting h maxNesting t σ c sink
    | .error f => e.refused f σ c sink
  | .compiled t => e.renderNoting h maxNesting t σ c sink

end Engine

/-! ### Failures on their way -/

/-- A failure on its way out, and the same failure where it arose: it is another only in its source, where it had
none, and in what it has of the trail, up to the activations that are still in progress. -/
structure Failure.Noted (active : Activations) (f noted : Failure) : Prop where
  cause : f.cause = noted.cause
  position : f.position = noted.position
  source : ∀ s ∈ noted.source, f.source = some s
  trail : noted.trail = if f.trail.isEmpty then [] else f.trail ++ active

/-- A failure that leaves an activation has got it where it arose. -/
lemma Failure.Noted.left {active : Activations} {a : Activation} {p : Position} {f noted : Failure}
    (h : f.Noted ((a, p) :: active) noted) (source : Source) :
    ((f.inSource source).leaving a p).Noted active
      (if noted.trail.isEmpty then { noted with trail := (a, p) :: active } else noted) := by
  obtain ⟨cause, position, told, trail⟩ := h
  generalize hn : (if noted.trail.isEmpty then { noted with trail := (a, p) :: active } else noted) = noted'
  have kept : noted'.cause = noted.cause ∧ noted'.position = noted.position ∧ noted'.source = noted.source := by
    rw [← hn]
    split <;> exact ⟨rfl, rfl, rfl⟩
  obtain ⟨cause', position', source'⟩ := kept
  refine ⟨cause.trans cause'.symm, position.trans position'.symm, fun s hs => ?_, ?_⟩
  · rw [source'] at hs
    show (f.source <|> some source) = some s
    rw [told s hs]
    rfl
  · -- Where it has left nothing yet, it arose in this activation; else it got all of them further inside.
    show noted'.trail = if (f.trail ++ [(a, p)]).isEmpty then [] else f.trail ++ [(a, p)] ++ active
    rw [← hn]
    cases hf : f.trail with
    | nil =>
      rw [hf] at trail
      rw [trail]
      rfl
    | cons left rest =>
      rw [hf] at trail
      rw [trail]
      simpa using trail

/-- How a step ends in a render, and where failures are noted. -/
inductive Outcome.Noted {α : Type} (active : Activations) : Outcome α → Outcome α → Prop
  | ok (x : α) (s : RenderState) : Noted active (.ok x s) (.ok x s)
  | exhausted (s : RenderState) : Noted active (.error .exhausted s) (.error .exhausted s)
  | compile (name : String) (fs : List Failure) (s : RenderState) :
    Noted active (.error (.failed (.compile name fs)) s) (.error (.failed (.compile name fs)) s)
  | single {f noted : Failure} (s : RenderState) : f.Noted active noted →
    Noted active (.error (.failed (.single f)) s) (.error (.failed (.single noted)) s)

namespace Outcome.Noted

variable {α β : Type} {active : Activations} {r r' : Outcome α}

/-- A failure that has no trail is the same where it arises. -/
lemma raised {f : Failure} (hf : f.trail = []) (s : RenderState) :
    Noted active (.error (.failed (.single f)) s : Outcome α) (.error (.failed (.single f)) s) := by
  refine .single s ⟨rfl, rfl, fun _ h => h, ?_⟩
  rw [hf]
  rfl

lemma next (h : Noted active r r') {f f' : α → RenderState → Outcome β}
    (hf : ∀ x s, Noted active (f x s) (f' x s)) : Noted active (r.next f) (r'.next f') := by
  cases h with
  | ok x s => exact hf x s
  | exhausted s => exact .exhausted s
  | compile name fs s => exact .compile name fs s
  | single s hn => exact .single s hn

lemma leaving (h : Noted active r r') (leave : RenderState → RenderState) :
    Noted active (r.leaving leave) (r'.leaving leave) := by
  cases h with
  | ok x s => exact .ok x _
  | exhausted s => exact .exhausted _
  | compile name fs s => exact .compile name fs _
  | single s hn => exact .single _ hn

/-- A failure that leaves an activation has got it where it arose. -/
lemma left {a : Activation} {p : Position} (h : Noted ((a, p) :: active) r r') (source : Source) :
    Noted active (r.telling fun e => (e.inSource source).leaving a p)
      (r'.telling (·.arising ((a, p) :: active))) := by
  cases h with
  | ok x s => exact .ok x s
  | exhausted s => exact .exhausted s
  | compile name fs s => exact .compile name fs s
  | single s hn => exact .single s (hn.left source)

/-- What is answered with a trail of its own gets the activations around it. -/
lemma reported (a : Activation) (p : Position) (answer : Except TemplateError α) (env : RenderEnv)
    (s : RenderState) :
    Noted active (Render.orRaise (·.leaving a p) answer env s)
      (Render.orRaise (·.reported ((a, p) :: active)) answer env s) := by
  match answer with
  | .ok x => exact .ok x s
  | .error (.compile name fs) => exact .compile name fs s
  | .error (.single f) =>
    refine .single s ⟨rfl, rfl, fun _ h => h, ?_⟩
    show f.trail ++ (a, p) :: active = if (f.trail ++ [(a, p)]).isEmpty then [] else f.trail ++ [(a, p)] ++ active
    cases f.trail <;> simp

end Outcome.Noted

/-! ### Noting in lockstep -/

namespace Noting

variable {α β : Type} {active : Activations} {env : RenderEnv}

/-- Renders from the same state, one of which notes its failures. -/
def pace (active : Activations) : Pace Bool where
  Strict := (Surroundings.same Bool).Strict
  Around := (Surroundings.same Bool).Around
  Place p := ∃ q, p = fun _ => q
  Holds env m := ∀ s, Outcome.Noted active (m false (env false) s) (m true (env true) s)
  strict_and := (Surroundings.same Bool).strict_and
  settings := (Surroundings.same Bool).settings
  types := (Surroundings.same Bool).types
  calls := (Surroundings.same Bool).calls
  opened := by
    rintro _ ⟨e, rfl⟩
    exact ⟨e.templates.length, fun _ => rfl⟩
  resolve := by
    rintro _ ⟨e, rfl⟩
    exact ⟨e.resolve, fun _ => rfl⟩
  holds_pure x s := .ok x s
  holds_bind hm hf s := by
    simp only [Render.bind_apply]
    exact (hm s).next fun x t => hf x t
  holds_fail := by
    rintro α env _ c ⟨p, rfl⟩ s
    exact .raised rfl s
  holds_fail_if := by
    rintro α env _ _ m c ⟨strict, rfl⟩ ⟨p, rfl⟩ h
    cases strict with
    | true => exact fun s => .raised rfl s
    | false => exact h
  holds_read h := h
  holds_get _ h s := h s s
  holds_change _ s := .ok _ _
  holds_put name v s := .ok _ _
  holds_emit t s := by
    simp only [Render.emit_apply]
    rcases s.sink.write t with ⟨_ | f, sink⟩
    · exact .ok () _
    · exact .raised rfl _
  holds_captured hm s := by
    simp only [Outcome.captured_eq]
    exact ((hm _).next fun x t => .ok _ t).leaving _
  holds_inFrame hm s := (hm _).leaving _
  holds_restoreLoop _ _ _ hm s := (hm s).leaving _
  holds_chosen := by
    rintro _ _ ⟨e, rfl⟩ ⟨p, rfl⟩ q s
    obtain ⟨x, s', h, -⟩ := Render.chosen_ok p q e s
    simp only [h]
    exact .ok x s'

/-- A step of a render, and the same step where failures are noted. -/
def together {α : Type} (plain noted : Render α) : Bool → Render α
  | false => plain
  | true => noted

lemma holds_bind {m m' : Render α} {f f' : α → Render β} (h : (pace active).Holds (fun _ => env) (together m m'))
    (hf : ∀ x, (pace active).Holds (fun _ => env) (together (f x) (f' x))) :
    (pace active).Holds (fun _ => env) (together (m >>= f) (m' >>= f')) :=
  (pace active).holds_congr ((pace active).holds_bind h hf) fun i => by cases i <;> rfl

lemma holds_pure (x : α) : (pace active).Holds (fun _ => env) (together (pure x) (pure x)) := fun s => .ok x s

/-- Asking for something answers the same in both. -/
lemma holds_answer {m : Render α} (h : ∀ s, ∃ x s', m env s = .ok x s') :
    (pace active).Holds (fun _ => env) (together m m) := by
  intro s
  obtain ⟨x, s', hm⟩ := h s
  show Outcome.Noted active (m env s) (m env s)
  rw [hm]
  exact .ok x s'

lemma holds_reported (a : Activation) (p : Position) (answer : Except TemplateError α) :
    (pace active).Holds (fun _ => env) (together (Render.orRaise (·.leaving a p) answer)
      (Render.orRaise (·.reported ((a, p) :: active)) answer)) :=
  fun s => .reported a p answer env s

/-- The interpreter of some depth, and the one beside it that notes failures. -/
def beside (depth : Nat) (active : Activations) : Bool → Interpreter
  | false => .ofDepth depth
  | true => .noting depth active

/-- Expressions and blocks end in a render as they do where failures are noted. -/
structure Agrees (depth : Nat) (active : Activations) (env : RenderEnv) : Prop where
  value : ∀ e, (pace active).Evaluates (beside depth active) (fun _ => .stay) (fun _ => env) e
  block : ∀ b, (pace active).Renders (beside depth active) (fun _ => .stay) (fun _ => env) b

section

variable {depth : Nat}

lemma around (env : RenderEnv) : (pace active).Around fun _ => env := ⟨env, rfl⟩

lemma place (p : Position) : (pace active).Place fun _ => p := ⟨p, rfl⟩

lemma sited (ps : List Position) : (pace active).Sited (fun _ => .stay) ps := fun p _ => ⟨p, rfl⟩

/-- A template that is opened, given that its root is rendered alike. -/
lemma holds_nested {t : Template} {a : Activation} {p : Position}
    (h : Agrees depth ((a, p) :: active) (env.opening t)) {around : Render Flow → Render Flow}
    (hr : ∀ {m : Bool → Render Flow}, (pace ((a, p) :: active)).Holds (fun _ => env.opening t) m →
      (pace ((a, p) :: active)).Holds (fun _ => env.opening t) fun i => around (m i)) :
    (pace active).Holds (fun _ => env) (together ((Interpreter.ofDepth depth).nested t a p around)
      (nested (.noting depth) active t a p around)) := by
  intro s
  have root := hr (h.block t.root) s
  simp only [Relocation.block, Relocation.nodeList_stay] at root
  exact root.left t.source

lemma holds_parse (h : ∀ active env, Agrees depth active env) (arg : Expr) (p : Position) :
    (pace active).Holds (fun _ => env) (together ((Interpreter.ofDepth depth).parse arg p)
      (parse (.noting depth) active arg p)) := by
  have entered (name : String) : (pace active).Holds (fun _ => env) (together
      (do
        let t ← Render.orRaise (·.leaving (.parse name) p) (← Render.template name)
        let flow ← (Interpreter.ofDepth depth).nested t (.parse name) p Render.inFrame
        return if flow.endsTemplate then .next else flow)
      (do
        let t ← Render.orRaise (·.reported ((.parse name, p) :: active)) (← Render.template name)
        let flow ← nested (.noting depth) active t (.parse name) p Render.inFrame
        return if flow.endsTemplate then .next else flow)) := by
    refine holds_bind (holds_answer fun s => ⟨_, _, rfl⟩) fun answer => ?_
    refine holds_bind (holds_reported _ _ answer) fun t => ?_
    exact holds_bind (holds_nested (h _ _) (pace _).holds_inFrame) fun flow => holds_pure _
  refine (pace active).holds_congr ((pace active).holds_parseBy (around env)
    (sited _ _ (List.mem_singleton_self arg.position)) ((h active env).value arg) (place p)
    fun _ name => entered name) fun i => ?_
  simp only [Relocation.expr_stay]
  cases i <;> rfl

lemma holds_inclusions (h : Agrees depth active env) (args : List Expr) (p : Position) :
    (pace active).Holds (fun _ => env) (together (args.forM ((Interpreter.ofDepth depth).inclusion p))
      (args.forM (inclusion (.noting depth) active p))) := by
  have included (arg : Expr) : (pace active).Holds (fun _ => env) (together
      ((Interpreter.ofDepth depth).inclusion p arg) (inclusion (.noting depth) active p arg)) := by
    have loaded (name : String) : (pace active).Holds (fun _ => env) (together
        (Render.resource name >>= Render.orRaise (·.leaving (.inclusion name) p))
        (Render.resource name >>= Render.orRaise (·.reported ((.inclusion name, p) :: active)))) :=
      holds_bind (holds_answer fun s => ⟨_, _, rfl⟩) fun answer => holds_reported _ _ answer
    refine (pace active).holds_congr ((pace active).holds_includeBy (around env)
      (sited _ _ (List.mem_singleton_self arg.position)) (h.value arg) loaded) fun i => ?_
    simp only [Relocation.expr_stay]
    cases i
    · exact Interpreter.inclusion_eq _ arg p
    · rfl
  induction args with
  | nil => exact holds_pure _
  | cons arg args ih => exact holds_bind (included arg) fun _ => ih

lemma holds_evaluateText (h : ∀ active env, Agrees depth active env) (arg : Expr) (p : Position) :
    (pace active).Holds (fun _ => env) (together ((Interpreter.ofDepth depth).evaluateText arg p)
      (evaluateText (.noting depth) active arg p)) := by
  have entered (text : String) : (pace active).Holds (fun _ => env) (together
      (do
        let unit ← Render.nextUnit
        let policy := (← read).settings.gobbling
        let t ← Render.orRaise (·.leaving .evaluation p)
          (Template.compile unit ⟨"#evaluate at " ++ p.display, text⟩ policy)
        (Interpreter.ofDepth depth).nested t .evaluation p id)
      (do
        let unit ← Render.nextUnit
        let policy := (← read).settings.gobbling
        let t ← Render.orRaise (·.reported ((.evaluation, p) :: active))
          (Template.compile unit ⟨"#evaluate at " ++ p.display, text⟩ policy)
        nested (.noting depth) active t .evaluation p id)) := by
    refine holds_bind (holds_answer fun s => ⟨_, _, rfl⟩) fun unit => ?_
    refine holds_bind (holds_answer fun s => ⟨_, _, rfl⟩) fun env' => ?_
    exact holds_bind (holds_reported _ _ _) fun t => holds_nested (h _ _) id
  refine (pace active).holds_congr ((pace active).holds_evaluateBy ((h active env).value arg) entered) fun i => ?_
  simp only [Relocation.expr_stay]
  cases i <;> rfl

lemma holds_invoke (h : ∀ active env, Agrees depth active env) (unit : CodeUnit) (d : MacroDef) (p : Position)
    (args : Arguments) (content : Option String) :
    (pace active).Holds (fun _ => env) (together ((Interpreter.ofDepth depth).invoke unit d p args content)
      (invoke (.noting depth) active unit d p args content)) := by
  have body (s : RenderState) : Outcome.Noted ((.macroCall d.name, p) :: active)
      (Interpreter.inMacro unit d p ((Interpreter.ofDepth depth).runMacro d args content) env s)
      (Interpreter.inMacro unit d p
        ((Interpreter.noting depth ((.macroCall d.name, p) :: active)).runMacro d args content) env s) := by
    simp only [Interpreter.inMacro, Render.read_bind_apply]
    split
    · exact .raised rfl s
    · have inside := h ((.macroCall d.name, p) :: active) (env.calling d.name unit)
      have run := (pace _).holds_runMacro (d := d) (fun q _ e _ => inside.value e) (inside.block d.body) args content s
      simp only [Relocation.macroDef_stay] at run
      exact run
  refine holds_bind (fun s => ?_) fun flow => holds_pure _
  exact (body s).left d.source

/-- The rendering of a node, given what is in progress around it. -/
lemma holds_node (h : ∀ active env, Agrees depth active env) (n : Node) :
    (pace active).Holds (fun _ => env) (together ((Interpreter.ofDepth depth).node n) (node (.noting depth) active n)) := by
  have here := h active env
  obtain ⟨kind, p⟩ := n
  have plain (hk : kind.callsOut = false) :
      (pace active).Holds (fun _ => env) fun i => (beside depth active i).node ⟨kind, p⟩ := by
    have same := (pace active).holds_node (n := ⟨kind, p⟩) (around env) (sited _) (fun e _ => here.value e)
      (fun b _ => here.block b) fun hc => by
        rw [hk] at hc
        cases hc
    simpa only [Relocation.node_stay] using same
  cases kind with
  | macroCall c =>
    exact (pace active).holds_congr ((pace active).holds_macroCallBy_stay (around env) (c := c) (place p) (sited _)
      (fun arg _ => here.value arg.value) (fun b _ => here.block b) (f := fun i unit d args content =>
        together ((Interpreter.ofDepth depth).invoke unit d p args content)
          (invoke (.noting depth) active unit d p args content) i)
      fun _ args content => holds_invoke h _ _ p args content) fun i => by cases i <;> rfl
  | parse arg => exact holds_parse h arg p
  | inclusion args => exact holds_bind (holds_inclusions here args p) fun _ => holds_pure _
  | evaluate arg => exact holds_evaluateText h arg p
  | _ => exact (pace active).holds_congr (plain rfl) fun i => by cases i <;> rfl

lemma holds_block (h : ∀ active env, Agrees depth active env) (b : Block) :
    (pace active).Holds (fun _ => env) (together ((Interpreter.ofDepth depth).block b) (block (.noting depth) active b)) := by
  induction b with
  | nil => exact holds_pure _
  | cons n b ih =>
    have rest (flow : Flow) : (pace active).Holds (fun _ => env) (together
        (flow.before ((Interpreter.ofDepth depth).block b)) (flow.before (block (.noting depth) active b))) := by
      cases flow with
      | next => exact ih
      | _ => exact holds_pure _
    have first := holds_bind (holds_node h n) rest
    rw [← Interpreter.block_cons] at first
    exact first

/-- However deep code is nested, and whatever is in progress around it, failures leave a render as they are where
they are noted. -/
theorem agrees (depth : Nat) (active : Activations) (env : RenderEnv) : Agrees depth active env := by
  induction depth generalizing active env with
  | zero => exact ⟨fun e lenient s => .exhausted s, fun b s => .exhausted s⟩
  | succ depth ih =>
    have here := ih active env
    refine ⟨fun e lenient => ?_, fun b => ?_⟩
    · have value := (pace active).holds_evaluate (e := e) (around env) (sited _) (fun x _ => here.value x)
        (fun b _ => here.block b) lenient
      exact (pace active).holds_congr value fun i => by cases i <;> rfl
    · refine (pace active).holds_congr (holds_block ih (Relocation.stay.block b)) fun i => ?_
      cases i <;> rfl

end

end Noting

/-! ### Whole renders -/

/-- A failure that left a render, and the same failure where it arose: they may differ in the source that they tell,
where the one that arose tells none. -/
structure Failure.Left (f arisen : Failure) : Prop where
  same : f = { arisen with source := f.source }
  source : ∀ s ∈ arisen.source, f.source = some s

/-- Why a render did not come to its end, and what arose in it. -/
inductive Halt.Left : Option Halt → Option Halt → Prop
  | finished : Left none none
  | exhausted : Left (some .exhausted) (some .exhausted)
  | compile (name : String) (fs : List Failure) :
    Left (some (.failed (.compile name fs))) (some (.failed (.compile name fs)))
  | single {f arisen : Failure} : f.Left arisen →
    Left (some (.failed (.single f))) (some (.failed (.single arisen)))

/-- The trail of the failure that ended a render. -/
def Rendering.trail (r : Rendering) : Activations :=
  match r.halt with
  | some (.failed e) => e.trail
  | _ => []

/-- What is left of a render, and what is left of the same render where failures are noted. -/
structure Rendering.Noted (r noted : Rendering) : Prop where
  halt : Halt.Left r.halt noted.halt
  context : r.context = noted.context
  store : r.store = noted.store
  sink : r.sink = noted.sink
  engine : r.engine = noted.engine

/-- Outside of all activations, a failure has left all that were in progress. -/
lemma Failure.Noted.outermost {f noted : Failure} (h : f.Noted [] noted) (source : Source) :
    (f.inSource source).Left noted := by
  obtain ⟨cause, position, told, trail⟩ := h
  have whole : noted.trail = f.trail := by
    rw [trail]
    cases f.trail <;> simp
  obtain ⟨c, p, s, t⟩ := noted
  subst cause position whole
  refine ⟨rfl, fun s hs => ?_⟩
  show (f.source <|> some source) = some s
  rw [told s hs]
  rfl

namespace Engine

variable (e : Engine) (h : Host) (σ : Store) (c : Context) (sink : Sink)

/-- What is refused before the first node is the same in both. -/
lemma noted_refused (f : TemplateError) : (e.refused f σ c sink).Noted (e.refused f σ c sink) := by
  refine ⟨?_, rfl, rfl, rfl, rfl⟩
  cases f with
  | single f => exact .single ⟨rfl, fun _ h => h⟩
  | compile name fs => exact .compile name fs

/-- A compiled template renders as it does where failures are noted. -/
lemma noted_renderWithin (depth : Nat) (t : Template) :
    (e.renderWithin depth h t σ c sink).Noted (e.renderNoting h depth t σ c sink) := by
  have root := (Noting.agrees depth [] ((e.env h).opening t)).block t.root (e.start σ c sink)
  simp only [Relocation.block, Relocation.nodeList_stay] at root
  unfold renderWithin renderNoting Render.outermostWithin Render.onError
  rw [Render.bind_apply]
  have left : Outcome.Noted [] (((Interpreter.ofDepth depth).render t.root).inTemplate t (e.env h) (e.start σ c sink))
    (((Interpreter.noting depth []).render t.root).inTemplate t (e.env h) (e.start σ c sink)) := root
  generalize ((Interpreter.ofDepth depth).render t.root).inTemplate t (e.env h) (e.start σ c sink) = r at left
  generalize ((Interpreter.noting depth []).render t.root).inTemplate t (e.env h) (e.start σ c sink) = r' at left
  cases left with
  | ok flow s => exact ⟨.finished, rfl, rfl, rfl, rfl⟩
  | exhausted s => exact ⟨.exhausted, rfl, rfl, rfl, rfl⟩
  | compile name fs s => exact ⟨.compile name fs, rfl, rfl, rfl, rfl⟩
  | single s hn => exact ⟨.single (hn.outermost t.source), rfl, rfl, rfl, rfl⟩

/-- Whatever is asked for is rendered as it is where failures are noted. -/
lemma noted_serve (request : Request) :
    (e.serve h σ c sink request).Noted (e.serveNoting h σ c sink request) := by
  cases request with
  | named name =>
    dsimp only [serve, serveNoting, renderNamed]
    rcases e.template h name with ⟨_ | t, e'⟩
    · exact e'.noted_refused σ c sink _
    · exact e'.noted_renderWithin h σ c sink maxNesting t
  | text text =>
    dsimp only [serve, serveNoting, renderText]
    cases e.inline text with
    | ok t => exact e.noted_renderWithin h σ c sink maxNesting t
    | error f => exact e.noted_refused σ c sink f
  | compiled t => exact e.noted_renderWithin h σ c sink maxNesting t

end Engine

/-! ### Where no activation is in progress -/

/-- What a text does not compile for arises in no activation. -/
lemma Template.trail_of_compile {unit : CodeUnit} {s : Source} {policy : GobblingPolicy} {f : Failure}
    (h : compile unit s policy = .error (.single f)) : f.trail = [] := by
  obtain ⟨fs, -, raised, hf⟩ := raised_of_compile h
  unfold TemplateError.reporting at hf
  split at hf
  · next g hg =>
    obtain rfl := TemplateError.single.inj hf
    obtain ⟨g, hg', rfl⟩ := List.mem_map.mp (hg ▸ List.mem_singleton_self f)
    exact (raised g hg').trail
  · cases hf

/-- An error for a name that no activation was in progress for has the trail that a loader gave it, or none. -/
lemma Loader.Refuses.trail {loaders : List Loader} {name : String} {f : Failure}
    (h : Loader.Refuses loaders name (.single f)) :
    f.trail = [] ∨ ∃ l ∈ loaders, l.load name = .error (.single f) := by
  cases h with
  | missing => exact .inl rfl
  | loading hl hload => exact .inr ⟨_, hl, hload⟩
  | compiling hc => exact .inl (Template.trail_of_compile hc)

namespace Engine

/-- The trail of a failure is what was in progress where it arose. Whatever is asked for, an engine renders it as it
does where a failure gets the activations in progress once, where it arises, and is passed on as it is: the failures
that leave the two renders have one cause, one position and one trail. Errors for texts that do not compile and for
names without a template, to which these activations are added, bring no trail of their own, unless a loader gave
them one. -/
theorem trail_of_serve (e : Engine) (h : Host) :
    (∀ σ c sink request, (e.serve h σ c sink request).Noted (e.serveNoting h σ c sink request)) ∧
    (∀ depth t σ c sink, (e.renderWithin depth h t σ c sink).Noted (e.renderNoting h depth t σ c sink)) ∧
    (∀ unit s policy f, Template.compile unit s policy = .error (.single f) → f.trail = []) ∧
    ∀ name f, (e.template h name).1 = .error (.single f) →
      f.trail = [] ∨ ∃ l ∈ e.settings.allLoaders h, l.load name = .error (.single f) := by
  refine ⟨fun σ c sink request => e.noted_serve h σ c sink request, fun depth t σ c sink =>
    e.noted_renderWithin h σ c sink depth t, fun unit s policy f hf => Template.trail_of_compile hf, fun name f hf => ?_⟩
  exact (TemplateCache.refuses_get _ hf).trail

/-- A string that does not compile where a macro evaluates it, in a template that is parsed. -/
theorem trail_of_serve_nested :
    let h := Host.ofTemplates [("a", "#parse('b')"), ("b", "#macro(m $v)#evaluate($v)#end\n#m('#end')")] id
    let r := (initial .standard).serve h .empty .empty .empty (.named "a")
    let noted := (initial .standard).serveNoting h .empty .empty .empty (.named "a")
    r.Noted noted ∧
      r.trail = noted.trail ∧
      r.trail.map (fun entry => (entry.1, entry.2.template, entry.2.line)) =
        [(.evaluation, "b", 1), (.macroCall "m", "b", 2), (.parse "b", "a", 1)] := by
  refine ⟨(trail_of_serve _ _).1 _ _ _ _, ?_⟩
  decide +kernel

end Engine

end Stencil
