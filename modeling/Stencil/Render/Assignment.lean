import Stencil.Render.Reference

/-!
# Assignments

`#set` binds a variable, or changes what a reference leads to: an entry of a map, an item of a list, or
whatever a member of a host object makes of it.
-/

namespace Stencil.Render

/-- Gives a map an entry, or takes it away where the value is null. -/
def assignEntry (r : Ref) (name : String) (v : Value) : Render Unit :=
  change fun σ =>
    let entries := if v.isNull then (σ.entries r).erase name else (σ.entries r).insert name v
    ((), σ.set r (.map entries))

def assignItem (r : Ref) (n : Int64) (v : Value) (p : Position) : Render Unit := do
  let items ← ask (·.items r)
  match placeOf? n items.size with
  | some k => change fun σ => ((), σ.set r (.list ((σ.items r).setIfInBounds k v)))
  | none => fail (.render (.listIndexOutOfBounds n.toInt items.size)) p

/-- Assigns to the last segment of a target whose other segments lead to `receiver`. -/
def assignSegment (eval : Expr → Render Value) (receiver : Value) (last : Segment) (v : Value) :
    Render Unit := do
  let strict ← strict
  let p := last.position
  match last.kind with
  | .property name =>
    match receiver with
    | .map r => assignEntry r name v
    | _ => discard <| member receiver p .set name [v] strict
  | .index i =>
    let i ← eval i
    match receiver, i with
    | .list r, .int n => assignItem r n v p
    | .map r, key =>
      let name ← display key
      change fun σ => ((), σ.set r (.map ((σ.entries r).insert name v)))
    | _, _ => discard <| member receiver p .method "put" [i, v] strict
  | .method name _ => fail (.render (.assignToCall name)) p

/-- Assigns a value to a target. Where the target has a null on its way, nothing is assigned, or it is an
error where references are strict. -/
def assign (eval : Expr → Render Value) (target : Reference) (v : Value) : Render Unit := do
  match target.segments.getLast? with
  | none => modify (·.put target.root v)
  | some last =>
    let receiver ← walk eval target target.segments.dropLast false
    if receiver.isNull then
      if ← strict then fail (.undefined (.target target.literal)) last.position
    else assignSegment eval receiver last v

end Stencil.Render
