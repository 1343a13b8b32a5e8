import Stencil.Render.Assignment
import Stencil.Render.Loop
import Stencil.Render.MacroCall
import Stencil.Render.Resource

/-!
# Nodes and blocks

A block renders its nodes in order until one of them asks to leave. Code can come from texts that the
render itself makes, so nothing but a bound on the nesting makes it end.
-/

namespace Stencil

namespace Interpreter

/-- Writes the value of a reference, or the reference itself where it has none. -/
def writeReference (self : Interpreter) (r : Reference) : Render Unit := do
  let v ← Render.reference self.value r false
  if !v.isNull then Render.emit (← Render.display v)
  else if !r.quiet then Render.emit r.literal

/-- Renders the block of the first branch whose condition holds. -/
def conditional (self : Interpreter) (otherwise : Option Block) : List Branch → Render Flow
  | [] =>
    match otherwise with
    | some b => self.render b
    | none => return .next
  | b :: branches => do
    let v ← self.eval true b.condition
    if ← Render.ask v.isTrue then self.render b.body
    else self.conditional otherwise branches

def doing (m : Render Unit) : Render Flow := do
  m
  return .next

/-- Renders a node. -/
def node (self : Interpreter) (n : Node) : Render Flow :=
  match n.kind with
  | .text s | .escaped s | .raw s => doing (Render.emit s)
  | .comment | .macroDef _ => return .next
  | .reference r => doing (self.writeReference r)
  | .conditional branches otherwise => self.conditional otherwise branches
  | .loop var iterable body otherwise => self.loop var iterable body otherwise
  | .assign target e => doing do
    let v ← self.value e
    Render.assign self.value target v
  | .macroCall c => self.macroCall c n.position
  | .parse arg => self.parse arg n.position
  | .inclusion args => doing (args.forM (self.inclusion n.position))
  | .evaluate arg => self.evaluateText arg n.position
  | .stop => return .stop
  | .leave scope => return .leave scope

/-- Renders the nodes of a block. -/
def block (self : Interpreter) : Block → Render Flow
  | [] => return .next
  | n :: ns => do
    match ← self.node n with
    | .next => self.block ns
    | flow => return flow

/-- The interpreter that follows code nested at most `depth` deep. -/
def ofDepth : Nat → Interpreter
  | 0 => ⟨fun _ _ => throw .exhausted, fun _ => throw .exhausted⟩
  | depth + 1 => ⟨fun lenient e => (ofDepth depth).evaluate lenient e, fun b => (ofDepth depth).block b⟩

end Interpreter

/-- How deep code may be nested. -/
def maxNesting : Nat := 10000

/-- Renders a template as the outermost one, and follows code that is nested at most `depth` deep. Every
flow that reaches its end ends the render. -/
def Render.outermostWithin (depth : Nat) (t : Template) : Render Unit :=
  (((Interpreter.ofDepth depth).render t.root).inTemplate t >>= fun _ => pure ()).onError
    fun e => e.inSource t.source

def Render.outermost (t : Template) : Render Unit := Render.outermostWithin maxNesting t

end Stencil
