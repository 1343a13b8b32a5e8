import Stencil.Render.Expression
import Stencil.ResourceName

/-!
# Templates inside templates

`#parse` renders another template in a frame of its own, `#include` writes a text as it is, and
`#evaluate` renders a text as a template in the present frame. A name that starts with `./` or `../` is
taken from where the present template is.
-/

namespace Stencil

namespace Interpreter

def resourceName (self : Interpreter) (arg : Expr) (directive : String) : Render String := do
  let v ← self.value arg
  if v.isNull then Render.fail (.render (.nullResource directive)) arg.position
  let name ← Render.display v
  match (← read).templates with
  | current :: _ => return if isRelativeName name then nameWithin current.name name else name
  | [] => return name

/-- Renders a template that is opened at a position, and tells of it in every error. -/
def nested (self : Interpreter) (t : Template) (a : Activation) (p : Position)
    (around : Render Flow → Render Flow) : Render Flow :=
  ((around (self.render t.root)).inTemplate t).onError fun e =>
    (e.inSource t.source).leaving a p

/-- `#parse`. -/
def parse (self : Interpreter) (arg : Expr) (p : Position) : Render Flow := do
  let name ← self.resourceName arg "#parse"
  let env ← read
  let limit := env.settings.parseMaxDepth
  if limit ≤ env.templates.length then Render.fail (.parseDepth name limit) p
  let t ← Render.orRaise (·.leaving (.parse name) p) (← Render.template name)
  let flow ← self.nested t (.parse name) p Render.inFrame
  return if flow.endsTemplate then .next else flow

/-- `#include` of one resource. -/
def inclusion (self : Interpreter) (p : Position) (arg : Expr) : Render Unit := do
  let name ← self.resourceName arg "#include"
  Render.emit (← Render.orRaise (·.leaving (.inclusion name) p) (← Render.resource name))

/-- `#evaluate`. -/
def evaluateText (self : Interpreter) (arg : Expr) (p : Position) : Render Flow := do
  let v ← self.value arg
  if v.isNull then return .next
  let source : Source := ⟨"#evaluate at " ++ p.display, ← Render.display v⟩
  let unit ← Render.nextUnit
  let policy := (← read).settings.gobbling
  let t ← Render.orRaise (·.leaving .evaluation p) (Template.compile unit source policy)
  self.nested t .evaluation p id

end Interpreter

end Stencil
