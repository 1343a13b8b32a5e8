import Stencil.Value

/-!
# Types and their methods

A type offers methods with typed parameters. Values of the built-in kinds and objects of the host are
described alike, so that every receiver is asked in the same way.
-/

namespace Stencil

/-- What a parameter accepts. -/
inductive ParamKind where
  | bool
  | int
  | float
  | str
  | list
  | map
  | host (type : String)
  | any
  deriving Repr, DecidableEq

def ParamKind.name : ParamKind → String
  | bool => "Bool"
  | int => "Int"
  | float => "Float"
  | str => "String"
  | list => "List"
  | map => "Map"
  | host _ => "Host"
  | any => "Any"

def ParamKind.admitsNull : ParamKind → Bool
  | bool | int | float => false
  | _ => true

/-- What a method does with its receiver and its arguments: a value or a reason why it fails, and the
store afterwards. -/
abbrev Effect := Value → List Value → Store → Except String Value × Store

/-- A method: its parameters, the type of any further arguments if it takes such, and what it does. Further
arguments reach it as one list after the others. -/
structure Method where
  name : String
  params : List ParamKind
  rest : Option ParamKind
  effect : Effect

/-- A type by its name and its methods; methods of one name are its overloads. -/
structure TypeInfo where
  name : String
  methods : List Method

abbrev HostTypes := String → Option TypeInfo

namespace Method

def signature (m : Method) : String :=
  let rest := m.rest.toList.map fun p => p.name ++ "..."
  m.name ++ "(" ++ ", ".intercalate (m.params.map ParamKind.name ++ rest) ++ ")"

def reading (name : String) (params : List ParamKind)
    (f : Store → Value → List Value → Except String Value) : Method :=
  ⟨name, params, none, fun v args σ => (f σ v args, σ)⟩

def changing (name : String) (params : List ParamKind)
    (f : Store → Value → List Value → Except String (Value × Store)) : Method :=
  ⟨name, params, none, fun v args σ =>
    match f σ v args with
    | .ok (w, σ) => (.ok w, σ)
    | .error reason => (.error reason, σ)⟩

/-- A method that fails leaves the store as it was. -/
theorem changing_error {name : String} {params : List ParamKind}
    {f : Store → Value → List Value → Except String (Value × Store)} {v : Value} {args : List Value}
    {σ : Store} {reason : String}
    (h : ((changing name params f).effect v args σ).1 = .error reason) :
    ((changing name params f).effect v args σ).2 = σ := by
  unfold changing at h ⊢
  dsimp only at h ⊢
  split <;> simp_all

/-- Whether a relation holds between the stores before and after a method, whatever it is called with. -/
def Keeps (m : Method) (R : Store → Store → Prop) : Prop := ∀ v args σ, R σ (m.effect v args σ).2

theorem keeps_reading {R : Store → Store → Prop} (refl : ∀ σ, R σ σ) {name : String} {params : List ParamKind}
    {f : Store → Value → List Value → Except String Value} : (reading name params f).Keeps R :=
  fun _ _ σ => refl σ

theorem keeps_changing {R : Store → Store → Prop} (refl : ∀ σ, R σ σ) {name : String} {params : List ParamKind}
    {f : Store → Value → List Value → Except String (Value × Store)}
    (hf : ∀ σ v args r, f σ v args = .ok r → R σ r.2) : (changing name params f).Keeps R := by
  intro v args σ
  unfold changing
  dsimp only
  split
  · next done => exact hf σ v args _ done
  · exact refl σ

end Method

namespace TypeInfo

/-- The methods of a name, with their places among all methods. -/
def overloads (d : TypeInfo) (name : String) : List (Method × Nat) :=
  d.methods.zipIdx.filter (·.1.name == name)

end TypeInfo

namespace Value

/-- What a method gets where it wants a value of another kind. -/
def unexpected (σ : Store) (v : Value) (wanted : String) : String :=
  s!"expected {wanted}, got " ++ v.typeName σ

def chars? (σ : Store) : Value → Except String (List Char)
  | str s => .ok s.toList
  | v => .error (v.unexpected σ "a String")

def int? (σ : Store) : Value → Except String Int64
  | int n => .ok n
  | v => .error (v.unexpected σ "an Integer")

def number? (σ : Store) (v : Value) : Except String Float :=
  match v.asFloat? with
  | some x => .ok x
  | none => .error (v.unexpected σ "a number")

def list? (σ : Store) : Value → Except String (Ref × Array Value)
  | list r => .ok (r, σ.items r)
  | v => .error (v.unexpected σ "a List")

def map? (σ : Store) : Value → Except String (Ref × Dict Value)
  | map r => .ok (r, σ.entries r)
  | v => .error (v.unexpected σ "a Map")

def arg (args : List Value) (i : Nat) : Value := args[i]?.getD null

end Value

end Stencil
