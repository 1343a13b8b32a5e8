import Stencil.Render.Expression

/-!
# Loops

`#foreach` goes through the items that there are when it starts. In every round the variable holds the
item and `$foreach` tells where the loop is; when the loop is left, by whatever way, both have what they
had before.
-/

namespace Stencil

/-- The entries of `$foreach` in round `k` of `count`, inside a loop whose own entries are `parent`. -/
def loopStatus (k count : Nat) (parent : Value) (key : Option String) : Dict Value :=
  Dict.ofList <|
    [("index", .ofNat k),
      ("count", .ofNat (k + 1)),
      ("hasNext", .bool (k + 1 < count)),
      ("first", .bool (k == 0)),
      ("last", .bool (k + 1 == count)),
      ("parent", parent)] ++
    key.toList.map fun key => ("key", .str key)

namespace Interpreter

/-- What a loop goes through; nothing where its value cannot be gone through. -/
def loopItems (self : Interpreter) (iterable : Expr) :
    Render (Option (List (Option String × Value))) := do
  let cap := (← read).settings.foreachMaxLoops
  match iterable.kind with
  | .range lower upper =>
    let (m, n) ← self.bounds lower upper iterable.position
    if cap.isNone then checkRange m n iterable.position
    let length := rangeLength m n
    return some ((rangeItems m n (min length (cap.getD length))).map (none, ·))
  | _ =>
    let v ← self.value iterable
    match ← Render.ask v.iteration? with
    | some items => return some (items.take (cap.getD items.length))
    | none =>
      if ← Render.strict then
        Render.fail (.render (.notIterable (← Render.ask v.typeName))) iterable.position
      else return none

def startRound (var : String) (item : Value) (status : Dict Value) : Render Unit := do
  let status ← Render.change (·.newMap status)
  modify fun s => (s.put "foreach" status).put var item

def rounds (self : Interpreter) (var : String) (body : Block) (parent : Value) (count : Nat) :
    Nat → List (Option String × Value) → Render Flow
  | _, [] => return .next
  | k, (key, item) :: items => do
    startRound var item (loopStatus k count parent key)
    match ← self.render body with
    | .next => self.rounds var body parent count (k + 1) items
    | flow => return if flow.endsLoop then .next else flow

def loop (self : Interpreter) (var : String) (iterable : Expr) (body : Block)
    (otherwise : Option Block) : Render Flow := do
  match ← self.loopItems iterable with
  | none => return .next
  | some [] =>
    match otherwise with
    | some b => self.render b
    | none => return .next
  | some items =>
    let s ← get
    let item := s.local? var
    let status := s.local? "foreach"
    let parent := (s.get? "foreach").getD .null
    (self.rounds var body parent items.length 0 items).andThen
      fun s => s.restoreLoop var item status

end Interpreter

end Stencil
