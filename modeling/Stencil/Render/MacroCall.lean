import Stencil.Render.Expression

/-!
# Macro calls

The arguments and the body of a call belong to the caller and are evaluated first. The macro's own body
runs in a new frame that binds the parameters: named arguments by name, the others in order, and for a
parameter that is left the expression it declares, which sees the parameters before it.
-/

namespace Stencil

/-- The arguments of a call after their evaluation. -/
structure Arguments where
  positional : List Value
  named : Dict Value

namespace Interpreter

def arguments (self : Interpreter) (d : MacroDef) : List Argument → Render Arguments
  | [] => return ⟨[], ∅⟩
  | args => args.foldlM (fun found arg => do
      let v ← self.value arg.value
      match arg.name with
      | none => return { found with positional := found.positional ++ [v] }
      | some name =>
        if (d.param? name).isNone then
          Render.fail (.render (.unknownArgument d.name name)) arg.value.position
        return { found with named := found.named.insert name v }) ⟨[], ∅⟩

/-- Refuses more arguments than there are parameters for, where references are strict. -/
def checkArguments (d : MacroDef) (args : Arguments) (p : Position) : Render Unit := do
  let free := (d.params.filter fun q => !args.named.contains q.name).length
  if free < args.positional.length && (← Render.strict) then
    let passed := args.positional.length + args.named.size
    Render.fail (.render (.tooManyArguments d.name d.params.length passed)) p

/-- Binds the parameters, given the named arguments and the positional ones that are left. -/
def bindParams (self : Interpreter) (named : Dict Value) : List Param → List Value → Render Unit
  | [], _ => return ()
  | q :: params, vs => do
    match named.get? q.name, vs, q.fallback with
    | some v, vs, _ =>
      modify (·.put q.name v)
      self.bindParams named params vs
    | none, v :: vs, _ =>
      modify (·.put q.name v)
      self.bindParams named params vs
    | none, [], some e =>
      let v ← self.value e
      modify (·.put q.name v)
      self.bindParams named params []
    | none, [], none =>
      modify (·.put q.name .null)
      self.bindParams named params []

/-- Runs a step inside a macro, unless too many macros are being called. -/
def inMacro {α : Type} (unit : CodeUnit) (d : MacroDef) (p : Position) (m : Render α) :
    Render α := do
  let env ← read
  let limit := env.settings.macroMaxDepth
  if limit ≤ env.calls.length then
    Render.fail (.macroDepth d.name limit env.calls.reverse) p
  else withReader (·.calling d.name unit) m

def runMacro (self : Interpreter) (d : MacroDef) (args : Arguments) (content : Option String) :
    Render Flow :=
  Render.inFrame do
    self.bindParams args.named d.params args.positional
    if let some text := content then
      modify (·.put "bodyContent" (.str text))
    self.render d.body

/-- Calls a macro. -/
def invoke (self : Interpreter) (unit : CodeUnit) (d : MacroDef) (p : Position) (args : Arguments)
    (content : Option String) : Render Flow := do
  let flow ← (inMacro unit d p (self.runMacro d args content)).onError fun e =>
    (e.inSource d.source).leaving (.macroCall d.name) p
  return if flow.endsMacro then .next else flow

/-- A macro call. A `#stop` in the body of the call ends the render before the macro runs. -/
def macroCall (self : Interpreter) (c : MacroCall) (p : Position) : Render Flow := do
  match (← read).macro? c.name with
  | none =>
    if ← Render.strict then Render.fail (.render (.undefinedMacro c.name)) p
    Render.emit c.literal
    return .next
  | some (unit, d) =>
    let args ← self.arguments d c.args
    checkArguments d args p
    match c.body with
    | none => self.invoke unit d p args none
    | some body =>
      let (flow, text) ← (self.render body).captured
      if flow == .stop then return .stop
      self.invoke unit d p args (some text)

end Interpreter

end Stencil
