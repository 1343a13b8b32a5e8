import Stencil.Render.State

/-!
# References

A reference is followed from its variable along its segments. Where references are strict, a missing
variable, member or item is an error, and else null. A member that is found but fails is always one.
-/

namespace Stencil

/-- The place that an index names among `size` items; a negative one counts from the end. -/
def placeOf? (i : Int64) (size : Nat) : Option Nat :=
  let place : Int := if i.toInt < 0 then size + i.toInt else i.toInt
  if 0 ≤ place ∧ place < size then some place.toNat else none

/-- A place is one of the items. -/
theorem lt_of_placeOf? {i : Int64} {size k : Nat} (h : placeOf? i size = some k) : k < size := by
  unfold placeOf? at h
  generalize (if i.toInt < 0 then (size : Int) + i.toInt else i.toInt) = place at h
  dsimp only at h
  split at h
  · next hb =>
    obtain rfl := Option.some.inj h
    have := Int.toNat_of_nonneg hb.1
    omega
  · cases h

/-- An index from zero on names the item of that number. -/
theorem placeOf?_of_nonneg {i : Int64} {size : Nat} (h : 0 ≤ i.toInt) (hs : i.toInt < size) :
    placeOf? i size = some i.toInt.toNat := by
  simp [placeOf?, Int.not_lt.mpr h, h, hs]

namespace Render

/-- The member that answers a request made by a segment; a choice made before holds again. -/
def chosen (p : Position) (q : MemberRequest) : Render (Except NoChoice MemberChoice) := do
  let env ← read
  let key : ChoiceSite := ⟨env.unit, p.span.start, q⟩
  match (← get).choices.lookup key with
  | some choice => return .ok choice
  | none =>
    let answer ← modifyGet fun s =>
      let (answer, i) := s.memory.resolve env.types q
      (answer, { s with memory := i })
    match answer with
    | .ok choice =>
      modify fun s => { s with choices := (key, choice) :: s.choices }
      return .ok choice
    | .error f => return .error f

/-- A request is answered by the choice at the site, or else by the memory. -/
theorem chosen_eq (p : Position) (q : MemberRequest) (env : RenderEnv) (s : RenderState) :
    chosen p q env s =
      match s.choices.lookup ⟨env.unit, p.span.start, q⟩ with
      | some choice => .ok (.ok choice) s
      | none =>
        match (s.memory.resolve env.types q).1 with
        | .ok choice => .ok (.ok choice) { s with
            memory := (s.memory.resolve env.types q).2
            choices := (⟨env.unit, p.span.start, q⟩, choice) :: s.choices }
        | .error f => .ok (.error f) { s with memory := (s.memory.resolve env.types q).2 } := by
  simp only [chosen, read_bind_apply, get_bind_apply]
  cases s.choices.lookup ⟨env.unit, p.span.start, q⟩ with
  | some choice => rfl
  | none =>
    simp only [bind_apply, modifyGet_apply]
    cases (s.memory.resolve env.types q).1 <;> rfl

/-- What a member of a value answers to a segment at a position. -/
def member (receiver : Value) (p : Position) (kind : MemberUse) (name : String)
    (args : List Value) (strict : Bool) : Render Value := do
  let request ← ask fun σ => MemberRequest.of σ receiver kind name args
  match ← chosen p request with
  | .error f => if strict then fail (.noMember f.message) p else return .null
  | .ok choice =>
    let types := (← read).types
    match ← change (choice.invoke types receiver name args) with
    | .ok v => return v
    | .error reason =>
      let type ← ask receiver.typeName
      fail (.memberFailed type choice.member reason) p

/-- The item that an index names, null where there is none. -/
def itemAt (receiver i : Value) (p : Position) (item? : Option Value) (strict : Bool) :
    Render Value := do
  match item? with
  | some v => return v
  | none =>
    if strict then
      fail (.render (.indexOutOfBounds (← display i) (← ask receiver.typeName))) p
    else return .null

/-- What `receiver[i]` is: an item of a list, a character of a string, the entry of a map, and for
anything else what its `get` answers. -/
def index (receiver i : Value) (p : Position) (strict : Bool) : Render Value := do
  match receiver, i with
  | .list r, .int n =>
    let items ← ask (·.items r)
    itemAt receiver i p ((placeOf? n items.size).bind (items[·]?)) strict
  | .str s, .int n =>
    let cs := s.toList
    let c? := (placeOf? n cs.length).bind (cs[·]?)
    itemAt receiver i p (c?.map fun c => .str (String.singleton c)) strict
  | .map r, key =>
    let entries ← ask (·.entries r)
    return (entries.get? (← display key)).getD .null
  | _, _ => member receiver p .method "get" [i] strict

def variableOf (r : Reference) (strict : Bool) : Render (Option Value) := do
  match (← get).get? r.root with
  | some v => return some v
  | none =>
    if strict then fail (.undefined (.variable r.root)) r.position else return none

def step (eval : Expr → Render Value) (receiver : Value) (segment : Segment) (strict : Bool) :
    Render Value := do
  let p := segment.position
  match segment.kind with
  | .property name => member receiver p .get name [] strict
  | .method name args => member receiver p .method name (← args.mapM eval) strict
  | .index i => index receiver (← eval i) p strict

def follow (eval : Expr → Render Value) (r : Reference) (strict : Bool) :
    List Segment → Value → Render Value
  | [], v => return v
  | segment :: segments, v => do
    if v.isNull then
      if strict then
        fail (.undefined (.receiver segment.kind.access r.literal)) segment.position
      else return .null
    else follow eval r strict segments (← step eval v segment strict)

/-- The value that a reference has after the given segments. -/
def walk (eval : Expr → Render Value) (r : Reference) (segments : List Segment) (exempt : Bool) :
    Render Value := do
  let strict := (← strict) && !exempt
  match ← variableOf r strict with
  | none => return .null
  | some v => follow eval r strict segments v

/-- The value of a reference. A quiet one is never strict, nor is in a condition one without segments. -/
def reference (eval : Expr → Render Value) (r : Reference) (lenient : Bool) : Render Value :=
  walk eval r r.segments (r.quiet || (lenient && r.segments.isEmpty))

end Render

end Stencil
