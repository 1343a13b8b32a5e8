import Stencil.Settings
import Stencil.Context
import Stencil.Dispatch.Memory
import Stencil.MacroLibrary
import Stencil.Render.Sink
import Stencil.TemplateCache

/-!
# The state of a render

What a render finds around it, what it changes on its way, and the steps that all of it is made of. A
name is looked up in the frames, the innermost first, and then in the context; a null in a frame hides
what lies outside.
-/

namespace Stencil

/-- What a node tells the block around it. -/
inductive Flow where
  | next
  /-- `#break`, on its way to the scope that answers to it. -/
  | leave (scope : BreakTarget)
  | stop
  deriving Repr, DecidableEq

namespace Flow

def endsLoop : Flow → Bool
  | leave .innermost | leave .foreach => true
  | _ => false

/-- Whether a macro call ends with the flow and goes no further. -/
def endsMacro : Flow → Bool
  | leave .innermost | leave .macroBody => true
  | _ => false

/-- Whether a template ends with the flow and goes no further. -/
def endsTemplate : Flow → Bool
  | leave .innermost | leave .template => true
  | _ => false

end Flow

/-- What a render finds around it. -/
structure RenderEnv where
  settings : Settings
  types : HostTypes
  loaders : List Loader
  library : MacroLibrary
  /-- What the clock shows when it is read for the `n`-th time. -/
  clock : Nat → Nat
  /-- The templates being rendered, the innermost first. -/
  templates : List Template
  /-- The names of the macros being called, the innermost first. -/
  calls : List String
  /-- The compilation that the code being run comes from. -/
  unit : CodeUnit

/-- The macro of a name: of the innermost template that defines it, or else of a library. -/
def RenderEnv.macro? (env : RenderEnv) (name : String) : Option (CodeUnit × MacroDef) :=
  (env.templates.findSome? fun t => (t.macros.get? name).map fun d => (t.unit, d)) <|>
    env.library.get? name

def RenderEnv.opening (env : RenderEnv) (t : Template) : RenderEnv :=
  { env with templates := t :: env.templates, unit := t.unit }

/-- What a render finds around it inside a macro of the given name and compilation. -/
def RenderEnv.calling (env : RenderEnv) (name : String) (unit : CodeUnit) : RenderEnv :=
  { env with calls := name :: env.calls, unit := unit }

/-- A segment of some compilation and a request made there. -/
structure ChoiceSite where
  unit : CodeUnit
  start : Nat
  request : MemberRequest
  deriving DecidableEq

/-- What a render changes. -/
structure RenderState where
  store : Store
  context : Context
  /-- The variables of macro calls and parsed templates, the innermost first. -/
  frames : List (Dict Value)
  sink : Sink
  cache : TemplateCache
  memory : ChoiceMemory
  /-- The members chosen so far, by the segments that ask for them. -/
  choices : List (ChoiceSite × MemberChoice)
  /-- The number of texts evaluated so far. -/
  evaluated : Nat
  /-- How often the clock was read so far. -/
  readings : Nat

namespace RenderState

/-- The value of a variable. -/
def get? (s : RenderState) (name : String) : Option Value :=
  match s.frames.findSome? (·.get? name) with
  | some v => if v.isNull then none else some v
  | none => s.context.get? name

/-- Binds a variable in the innermost frame, or in the context where there is no frame. -/
def put (s : RenderState) (name : String) (v : Value) : RenderState :=
  match s.frames with
  | frame :: frames => { s with frames := frame.insert name v :: frames }
  | [] => { s with context := s.context.put name v }

/-- The binding of a variable in the innermost frame, or the context's own where there is no frame. -/
def local? (s : RenderState) (name : String) : Option Value :=
  match s.frames with
  | frame :: _ => frame.get? name
  | [] => s.context.local? name

/-- Puts back a binding that was read before. -/
def restore (s : RenderState) (name : String) (binding : Option Value) : RenderState :=
  match binding, s.frames with
  | some v, _ => s.put name v
  | none, frame :: frames => { s with frames := frame.erase name :: frames }
  | none, [] => { s with context := s.context.remove name }

/-- Puts back the bindings that the innermost frame has of a variable and of `foreach`. -/
def restoreLoop (s : RenderState) (var : String) (item status : Option Value) : RenderState :=
  (s.restore var item).restore "foreach" status

/-- A variable that was just bound in a frame has the value, unless that is null. -/
theorem get?_put_of_frame {s : RenderState} {frame : Dict Value} {frames : List (Dict Value)}
    (h : s.frames = frame :: frames) (name : String) (v : Value) :
    (s.put name v).get? name = if v.isNull then none else some v := by
  simp [put, h, get?, Dict.get?_insert]

/-- Binding a variable leaves the frames outside as they are. -/
theorem tail_frames_put (s : RenderState) (name : String) (v : Value) :
    (s.put name v).frames.tail = s.frames.tail := by
  unfold put
  split
  · next h => simp [h]
  · next h => simp [h]

theorem put_sink (s : RenderState) (name : String) (v : Value) : (s.put name v).sink = s.sink := by
  unfold put
  split <;> rfl

theorem restore_store (s : RenderState) (name : String) (binding : Option Value) :
    (s.restore name binding).store = s.store := by
  unfold restore put
  split
  · split <;> rfl
  · rfl
  · rfl

theorem restore_sink (s : RenderState) (name : String) (binding : Option Value) :
    (s.restore name binding).sink = s.sink := by
  unfold restore
  split
  · exact s.put_sink name _
  · rfl
  · rfl

end RenderState

/-- Why a render does not come to its end. -/
inductive Halt where
  | failed (e : TemplateError)
  /-- Code is nested deeper than the render follows it. -/
  | exhausted

abbrev Render := ReaderT RenderEnv (EStateM Halt RenderState)

/-- How a step of a render ends, with the state that it leaves. -/
abbrev Outcome (α : Type) := EStateM.Result Halt RenderState α

namespace Render

variable {α : Type}

def raise (e : TemplateError) : Render α := throw (.failed e)

def fail (c : Cause) (p : Position) : Render α := raise (.at_ c p)

def orFail (p : Position) : Except Cause α → Render α
  | .ok x => return x
  | .error c => fail c p

def strict : Render Bool := return (← read).settings.strictReferences

def ask (f : Store → α) : Render α := return f (← get).store

def change (f : Store → α × Store) : Render α :=
  modifyGet fun s =>
    let (x, σ) := f s.store
    (x, { s with store := σ })

def display (v : Value) : Render String := ask v.display

def emit (t : String) : Render Unit := do
  let fault ← modifyGet fun s =>
    let (fault, sink) := s.sink.write t
    (fault, { s with sink := sink })
  match fault with
  | none => return ()
  | some f => raise (.of (.io f))

/-- Runs a step and changes the state afterwards, whether it succeeds or not. -/
def andThen (m : Render α) (leave : RenderState → RenderState) : Render α := fun env s =>
  match m env s with
  | .ok x s => .ok x (leave s)
  | .error h s => .error h (leave s)

def onError (m : Render α) (f : TemplateError → TemplateError) : Render α := fun env s =>
  match m env s with
  | .error (.failed e) s => .error (.failed (f e)) s
  | r => r

/-- Runs a step that writes into a text of its own; answers that text too. -/
def captured (m : Render α) : Render (α × String) := do
  let outer := (← get).sink
  modify fun s => { s with sink := .empty }
  (do return (← m, (← get).sink.written)).andThen fun s => { s with sink := outer }

def inFrame (m : Render α) : Render α := do
  modify fun s => { s with frames := ∅ :: s.frames }
  m.andThen fun s => { s with frames := s.frames.tail }

def inTemplate (t : Template) (m : Render α) : Render α :=
  withReader (·.opening t) m

/-- Reads the clock. -/
def now : Render Nat := do
  let clock := (← read).clock
  modifyGet fun s => (clock s.readings, { s with readings := s.readings + 1 })

def consult (ask : TemplateCache → Consulted α) : Render (Except TemplateError α) :=
  modifyGet fun s =>
    let c := ask s.cache
    (c.answer, { s with cache := c.cache })

def template (name : String) : Render (Except TemplateError Template) := do
  let now ← now
  let loaders := (← read).loaders
  consult fun c => c.get loaders now name

def resource (name : String) : Render (Except TemplateError String) := do
  let loaders := (← read).loaders
  consult fun c => c.readText name 0 loaders

def nextUnit : Render CodeUnit :=
  modifyGet fun s => (.evaluated s.evaluated, { s with evaluated := s.evaluated + 1 })

def orRaise (f : TemplateError → TemplateError) : Except TemplateError α → Render α
  | .ok x => return x
  | .error e => raise (f e)

/-- What runs after a step is what runs after its success. -/
theorem bind_apply {β : Type} (m : Render α) (f : α → Render β) (env : RenderEnv) (s : RenderState) :
    (m >>= f) env s =
      match m env s with
      | .ok x s => f x env s
      | .error h s => .error h s := by
  show EStateM.bind (m env) (fun x => f x env) s = _
  unfold EStateM.bind
  cases m env s <;> rfl

theorem pure_apply (x : α) (env : RenderEnv) (s : RenderState) :
    (pure x : Render α) env s = .ok x s := rfl

theorem read_bind_apply (f : RenderEnv → Render α) (env : RenderEnv) (s : RenderState) :
    (read >>= f) env s = f env env s := rfl

theorem get_bind_apply (f : RenderState → Render α) (env : RenderEnv) (s : RenderState) :
    (get >>= f) env s = f s env s := rfl

theorem modifyGet_apply (f : RenderState → α × RenderState) (env : RenderEnv) (s : RenderState) :
    (modifyGet f : Render α) env s = .ok (f s).1 (f s).2 := rfl

theorem modify_apply (f : RenderState → RenderState) (env : RenderEnv) (s : RenderState) :
    (modify f : Render PUnit) env s = .ok ⟨⟩ (f s) := rfl

/-- Writing changes the sink and fails when the sink does. -/
theorem emit_apply (t : String) (env : RenderEnv) (s : RenderState) :
    emit t env s =
      match s.sink.write t with
      | (none, sink) => .ok () { s with sink := sink }
      | (some f, sink) => .error (.failed (.of (.io f))) { s with sink := sink } := by
  simp only [emit, bind_apply, modifyGet_apply]
  rcases s.sink.write t with ⟨_ | f, sink⟩ <;> rfl

/-- The sink outside a step that writes into a text of its own is the same afterwards. -/
theorem captured_apply (m : Render α) (env : RenderEnv) (s : RenderState) :
    m.captured env s =
      match m env { s with sink := .empty } with
      | .ok x t => .ok (x, t.sink.written) { t with sink := s.sink }
      | .error h t => .error h { t with sink := s.sink } := by
  unfold captured
  rw [get_bind_apply, bind_apply, modify_apply]
  dsimp only
  rw [andThen, bind_apply]
  cases m env { s with sink := .empty } <;> rfl

/-- A frame that is opened for a step is closed after it. -/
theorem inFrame_apply (m : Render α) (env : RenderEnv) (s : RenderState) :
    m.inFrame env s =
      match m env { s with frames := ∅ :: s.frames } with
      | .ok x t => .ok x { t with frames := t.frames.tail }
      | .error h t => .error h { t with frames := t.frames.tail } := rfl

end Render

end Stencil
