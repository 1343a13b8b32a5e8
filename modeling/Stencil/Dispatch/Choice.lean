import Stencil.Dispatch.Builtin
import Stencil.Text.Case

/-!
# Choosing a member

A request names a member of a receiver. Every overload of that name is scored against the kinds of the
arguments; the highest score wins, between equal scores a fixed number of parameters beats a variable one,
and any other tie is ambiguous. Property reads and writes try several members in turn.
-/

namespace Stencil

/-- What a request asks of a member. -/
inductive MemberUse where
  | method
  | get
  | set
  deriving Repr, DecidableEq

/-- By which member a request is answered. -/
inductive Route where
  /-- `$x.name(args)`. -/
  | method
  /-- `$x.name` by `getName()` or `isName()`. -/
  | getter
  /-- `$x.name` by `get("name")`. -/
  | keyedGet
  /-- `#set($x.name = v)` by `setName(v)`. -/
  | setter
  /-- `#set($x.name = v)` by `put("name", v)`. -/
  | keyedPut
  deriving Repr, DecidableEq

/-- What happens to an argument before the call. -/
inductive Conversion where
  | none
  | intToFloat
  deriving Repr, DecidableEq

/-- A chosen member: its place among the methods of its type, what happens to the arguments, and from
which argument on they are packed into a list. -/
structure MemberChoice where
  route : Route
  member : String
  index : Nat
  conversions : List Conversion
  restFrom : Option Nat
  score : Nat
  deriving Repr, DecidableEq

/-- Why no member was chosen. -/
inductive NoChoice where
  | nullReceiver (name : String)
  | noMethod (type name : String)
  | noOverload (type name : String) (signature : List ValueKind)
  | noProperty (type name : String)
  | notWritable (type name : String)
  | ambiguous (type name : String) (signature : List ValueKind)
  deriving Repr, DecidableEq

def signatureText (signature : List ValueKind) : String :=
  "(" ++ ", ".intercalate (signature.map ValueKind.name) ++ ")"

def NoChoice.message : NoChoice → String
  | nullReceiver name => s!"null has no member '{name}'"
  | noMethod type name => s!"{type} has no method '{name}'"
  | noOverload type name signature =>
    s!"no overload of {type}.{name} accepts " ++ signatureText signature
  | noProperty type name => s!"{type} has no property '{name}'"
  | notWritable type name => s!"{type} has no writable property '{name}'"
  | ambiguous type name signature =>
    s!"ambiguous call to {type}.{name} with " ++ signatureText signature

def NoChoice.isAmbiguous : NoChoice → Bool
  | ambiguous .. => true
  | _ => false

/-! ### Scores -/

def ParamKind.score? : ParamKind → ValueKind → Option (Nat × Conversion)
  | .bool, .bool | .int, .int | .float, .float | .str, .str | .list, .list | .map, .map =>
    some (4, .none)
  | .host t, .host u => if t = u then some (4, .none) else none
  | .float, .int => some (3, .intToFloat)
  | p, .null => if p.admitsNull then some (2, .none) else none
  | .any, _ => some (2, .none)
  | _, _ => none

/-- The total score and the conversions of arguments that each fit their parameter. -/
def scoreFixed? : List ParamKind → List ValueKind → Option (Nat × List Conversion)
  | [], [] => some (0, [])
  | p :: ps, k :: ks => do
    let (score, conversion) ← p.score? k
    let (total, conversions) ← scoreFixed? ps ks
    return (score + total, conversion :: conversions)
  | _, _ => none

/-- The total score and the conversions of further arguments, of which each counts one. -/
def scoreRest? (p : ParamKind) : List ValueKind → Option (Nat × List Conversion)
  | [] => some (0, [])
  | k :: ks => do
    let (_, conversion) ← p.score? k
    let (total, conversions) ← scoreRest? p ks
    return (1 + total, conversion :: conversions)

/-- The choice of a method for arguments of the given kinds, if it accepts them. -/
def Method.choice? (m : Method) (index : Nat) (route : Route) (signature : List ValueKind) :
    Option MemberChoice := do
  let fixed := m.params.length
  let (total, conversions) ← scoreFixed? m.params (signature.take fixed)
  match m.rest with
  | none =>
    if fixed < signature.length then none
    else return ⟨route, m.name, index, conversions, none, total⟩
  | some p =>
    let (more, others) ← scoreRest? p (signature.drop fixed)
    return ⟨route, m.name, index, conversions ++ others, some fixed, total + more⟩

namespace MemberChoice

/-- Choices in order of preference: by score, then a fixed number of parameters before a variable one. -/
def rank (p : MemberChoice) : Nat := 2 * p.score + (if p.restFrom.isNone then 1 else 0)

def best (choices : List MemberChoice) : List MemberChoice :=
  let top := (choices.map rank).foldl max 0
  choices.filter (·.rank == top)

end MemberChoice

namespace TypeInfo

/-- The choices of the overloads of a name that accept arguments of the given kinds. -/
def choices (d : TypeInfo) (name : String) (route : Route) (signature : List ValueKind) :
    List MemberChoice :=
  (d.overloads name).filterMap fun (m, i) => m.choice? i route signature

/-- The preferred overload of a name, none if no overload accepts the arguments. -/
def preferred (d : TypeInfo) (name : String) (route : Route)
    (signature : List ValueKind) : Except NoChoice (Option MemberChoice) :=
  match MemberChoice.best (d.choices name route signature) with
  | [] => .ok none
  | [p] => .ok (some p)
  | _ => .error (.ambiguous d.name name signature)

end TypeInfo

/-! ### Requests -/

/-- A request for a member, as far as the choice depends on it. -/
structure MemberRequest where
  receiver : ValueKind
  kind : MemberUse
  name : String
  signature : List ValueKind
  deriving Repr, DecidableEq

/-- The name of the method that reads or writes a property. -/
def accessorName (verb property : String) : String :=
  verb ++ String.ofList (Text.capitalize property.toList)

namespace MemberRequest

/-- The request for a member of a value with the given arguments. -/
def of (σ : Store) (receiver : Value) (kind : MemberUse) (name : String) (args : List Value) :
    MemberRequest :=
  ⟨receiver.kind σ, kind, name, args.map (·.kind σ)⟩

/-- The first choice of several attempts, unless one before it fails. -/
def firstOf (failure : NoChoice) :
    List (Except NoChoice (Option MemberChoice)) → Except NoChoice MemberChoice
  | [] => .error failure
  | .error f :: _ => .error f
  | .ok (some p) :: _ => .ok p
  | .ok none :: rest => firstOf failure rest

def resolveIn (q : MemberRequest) (d : TypeInfo) : Except NoChoice MemberChoice :=
  match q.kind with
  | .method =>
    let failure :=
      if (d.overloads q.name).isEmpty then NoChoice.noMethod d.name q.name
      else .noOverload d.name q.name q.signature
    firstOf failure [d.preferred q.name .method q.signature]
  | .get =>
    firstOf (.noProperty d.name q.name) [
      d.preferred (accessorName "get" q.name) .getter [],
      d.preferred (accessorName "is" q.name) .getter [],
      d.preferred "get" .keyedGet [.str]]
  | .set =>
    firstOf (.notWritable d.name q.name) [
      d.preferred (accessorName "set" q.name) .setter q.signature,
      d.preferred "put" .keyedPut (.str :: q.signature)]

def resolve (types : HostTypes) (q : MemberRequest) : Except NoChoice MemberChoice :=
  match q.receiver.info? types with
  | none => .error (.nullReceiver q.name)
  | some d => q.resolveIn d

end MemberRequest

/-! ### Calls -/

def Conversion.apply : Conversion → Value → Value
  | .intToFloat, .int n => .float n.toFloat
  | _, v => v

/-- The arguments after their conversions; one without is passed on. -/
def convertAll : List Conversion → List Value → List Value
  | c :: cs, v :: vs => c.apply v :: convertAll cs vs
  | _, vs => vs

namespace MemberChoice

/-- The values that a member of the given name gets: a keyed member gets the name first. -/
def arguments (p : MemberChoice) (name : String) (args : List Value) : List Value :=
  match p.route with
  | .method | .getter | .setter => args
  | .keyedGet => [.str name]
  | .keyedPut => .str name :: args

def invoke (types : HostTypes) (p : MemberChoice) (receiver : Value) (name : String)
    (args : List Value) (σ : Store) : Except String Value × Store :=
  match (receiver.kind σ).info? types with
  | none => (.error s!"cannot invoke '{name}' on null", σ)
  | some d =>
    match d.methods[p.index]? with
    | none => (.error s!"{d.name} has no member #{p.index}", σ)
    | some m =>
      let args := convertAll p.conversions (p.arguments name args)
      match p.restFrom with
      | none => m.effect receiver args σ
      | some n =>
        let (rest, σ) := σ.newList (args.drop n).toArray
        m.effect receiver (args.take n ++ [rest]) σ

end MemberChoice

end Stencil
