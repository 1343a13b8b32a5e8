import Stencil.Error
import Stencil.Value

/-!
# Contexts

The variables that a caller hands to a render and reads back after it. A context may wrap others: reads
fall through to them, writes never reach them.
-/

namespace Stencil

/-- Named values in layers: its own, and those of the contexts that it wraps, the nearest first. -/
structure Context where
  values : Dict Value
  wrapped : List (Dict Value)

namespace Context

def empty : Context := ⟨∅, []⟩

instance : Inhabited Context := ⟨empty⟩

def layers (c : Context) : List (Dict Value) := c.values :: c.wrapped

def wrap (c : Context) : Context := ⟨∅, c.layers⟩

def get? (c : Context) (name : String) : Option Value := c.layers.findSome? (·.get? name)

/-- The own value of a variable. -/
def local? (c : Context) (name : String) : Option Value := c.values.get? name

/-- Gives a variable an own value; null takes the own value away. -/
def put (c : Context) (name : String) (v : Value) : Context :=
  if v.isNull then { c with values := c.values.erase name }
  else { c with values := c.values.insert name v }

def remove (c : Context) (name : String) : Context := { c with values := c.values.erase name }

def contains (c : Context) (name : String) : Bool := (c.get? name).isSome

def keys (c : Context) : List String :=
  (c.layers.flatMap Dict.keys).eraseDups.mergeSort (fun a b => decide (a ≤ b))

/-- The context of the fields of a document, which has to be an object. -/
def ofJson (σ : Store) (j : Json) : Except TemplateError (Context × Store) :=
  match j with
  | .obj fields =>
    let (es, σ) := Value.ofJsonFields σ fields
    .ok (es.foldl (fun c e => c.put e.1 e.2) empty, σ)
  | j => .error (.of (.config (.contextKind j.kindName)))

@[simp] theorem get?_empty (name : String) : empty.get? name = none := rfl

/-- Putting a value binds it in the own layer. -/
theorem get?_put_of_not_null (c : Context) (name : String) {v : Value} (h : v.isNull = false) :
    (c.put name v).get? name = some v := by
  simp [put, h, get?, layers, Dict.get?_insert]

/-- Taking a variable away leaves the others. -/
theorem get?_remove_of_ne (c : Context) {name other : String} (h : other ≠ name) :
    (c.remove name).get? other = c.get? other := by
  simp only [remove, get?, layers, List.findSome?_cons, Dict.get?_erase, if_neg h]

/-- Putting a value leaves the other variables. -/
theorem get?_put_of_ne (c : Context) {name other : String} (h : other ≠ name) (v : Value) :
    (c.put name v).get? other = c.get? other := by
  unfold put
  split
  · exact c.get?_remove_of_ne h
  · simp only [get?, layers, List.findSome?_cons, Dict.get?_insert, if_neg h]

/-- Putting changes nothing below the own layer. -/
theorem wrapped_put (c : Context) (name : String) (v : Value) :
    (c.put name v).wrapped = c.wrapped := by
  unfold put
  split <;> rfl

end Context

end Stencil
