import Stencil.Dict
import Stencil.Json

/-!
# Values and the store

Values flow through a render. Lists, maps and host objects are shared: a value holds a reference to a cell
of the store, and a change of the cell is seen through every reference to it.
-/

namespace Stencil

/-- A reference to a cell of the store. -/
structure Ref where
  index : Nat
  deriving Repr, DecidableEq

/-- A value. -/
inductive Value where
  | null
  | bool (b : Bool)
  | int (n : Int64)
  | float (x : Float)
  | str (s : String)
  | list (r : Ref)
  | map (r : Ref)
  /-- An object of the host application. -/
  | object (r : Ref)
  deriving Inhabited

/-- An object of the host application: its type, what it keeps, and how it presents itself. -/
structure HostObject where
  type : String
  fields : Dict Value
  /-- How the object is displayed. -/
  text : String
  /-- How diagnostics show the object. -/
  diagnostic : String
  /-- Whether the object counts as true, if its type says so. -/
  truth : Option Bool
  /-- What a loop over the object visits, if its type says so. -/
  items : Option (List Value)
  deriving Inhabited

/-- The content of a cell. -/
inductive Cell where
  | list (items : Array Value)
  | map (entries : Dict Value)
  | object (o : HostObject)

/-- All cells, in order of their creation. -/
structure Store where
  cells : Array Cell

namespace Store

def empty : Store := ⟨#[]⟩

def alloc (σ : Store) (c : Cell) : Ref × Store := (⟨σ.cells.size⟩, ⟨σ.cells.push c⟩)

def cell? (σ : Store) (r : Ref) : Option Cell := σ.cells[r.index]?

def set (σ : Store) (r : Ref) (c : Cell) : Store := ⟨σ.cells.setIfInBounds r.index c⟩

def items (σ : Store) (r : Ref) : Array Value :=
  match σ.cell? r with
  | some (.list xs) => xs
  | _ => #[]

def entries (σ : Store) (r : Ref) : Dict Value :=
  match σ.cell? r with
  | some (.map d) => d
  | _ => ∅

def object (σ : Store) (r : Ref) : HostObject :=
  match σ.cell? r with
  | some (.object o) => o
  | _ => default

def newList (σ : Store) (xs : Array Value) : Value × Store :=
  let (r, σ) := σ.alloc (.list xs)
  (.list r, σ)

def newMap (σ : Store) (d : Dict Value) : Value × Store :=
  let (r, σ) := σ.alloc (.map d)
  (.map r, σ)

def newObject (σ : Store) (o : HostObject) : Value × Store :=
  let (r, σ) := σ.alloc (.object o)
  (.object r, σ)

/-- A new cell holds what it was made with. -/
theorem cell?_alloc (σ : Store) (c : Cell) : (σ.alloc c).2.cell? (σ.alloc c).1 = some c := by
  simp [alloc, cell?]

/-- A new cell leaves the others as they are. -/
theorem cell?_alloc_of_lt {σ : Store} {r : Ref} (c : Cell) (h : r.index < σ.cells.size) :
    (σ.alloc c).2.cell? r = σ.cell? r := by
  simp [alloc, cell?, Array.getElem?_push, Nat.ne_of_lt h]

/-- Reading after a change. -/
theorem cell?_set (σ : Store) (r q : Ref) (c : Cell) :
    (σ.set r c).cell? q =
      if q = r ∧ r.index < σ.cells.size then some c else σ.cell? q := by
  obtain ⟨i⟩ := r
  obtain ⟨j⟩ := q
  simp only [set, cell?, Array.getElem?_setIfInBounds, Ref.mk.injEq]
  by_cases h : i = j
  · subst h
    by_cases hi : i < σ.cells.size <;> simp [hi]
  · simp [h, Ne.symm h]

end Store

/-- The type of a value as far as the choice of members goes. -/
inductive ValueKind where
  | null
  | bool
  | int
  | float
  | str
  | list
  | map
  | host (type : String)
  deriving Repr, DecidableEq

/-- The name of a type in the description of a call; host types share one. -/
def ValueKind.name : ValueKind → String
  | null => "Null"
  | bool => "Bool"
  | int => "Int"
  | float => "Float"
  | str => "String"
  | list => "List"
  | map => "Map"
  | host _ => "Host"

namespace Value

def kind (σ : Store) : Value → ValueKind
  | null => .null
  | bool _ => .bool
  | int _ => .int
  | float _ => .float
  | str _ => .str
  | list _ => .list
  | map _ => .map
  | object r => .host (σ.object r).type

def typeName (σ : Store) : Value → String
  | null => "Null"
  | bool _ => "Boolean"
  | int _ => "Integer"
  | float _ => "Float"
  | str _ => "String"
  | list _ => "List"
  | map _ => "Map"
  | object r => (σ.object r).type

def isNull : Value → Bool
  | null => true
  | _ => false

def asBool? : Value → Option Bool
  | bool b => some b
  | _ => none

def asInt? : Value → Option Int64
  | int n => some n
  | _ => none

def asFloat? : Value → Option Float
  | int n => some n.toFloat
  | float x => some x
  | _ => none

def asStr? : Value → Option String
  | str s => some s
  | _ => none

/-- The number of things counted, as a value; counts beyond 64 bits are cut off. -/
def ofNat (n : Nat) : Value := int (Int64.ofNat (min n (Nat.pow 2 63 - 1)))

def ownTruth? (σ : Store) : Value → Option Bool
  | object r => (σ.object r).truth
  | _ => none

/-- Whether the value counts as true. Null, zero and what is empty do not, and a host object may decide
for itself. -/
def isTrue (σ : Store) : Value → Bool
  | null => false
  | bool b => b
  | int n => n != 0
  | float x => x != 0.0
  | str s => !s.isEmpty
  | list r => !(σ.items r).isEmpty
  | map r => !(σ.entries r).isEmpty
  | object r => (ownTruth? σ (object r)).getD true

/-- What the type of the value says that a loop visits; the entries of a map are no items of their own. -/
def ownItems? (σ : Store) : Value → Option (List Value)
  | list r => some (σ.items r).toList
  | object r => (σ.object r).items
  | _ => none

/-- What a loop visits, with the keys of a map; nothing for null, and no answer where the value cannot be
visited. -/
def iteration? (σ : Store) : Value → Option (List (Option String × Value))
  | null => some []
  | list r => some ((σ.items r).toList.map (none, ·))
  | map r => some ((σ.entries r).entries.map fun e => (some e.1, e.2))
  | object r => (σ.object r).items.map (·.map (none, ·))
  | _ => none

mutual

/-- The value of a document; every list and object in it becomes a new cell. -/
def ofJson (σ : Store) : Json → Value × Store
  | .null => (null, σ)
  | .bool b => (bool b, σ)
  | .int n =>
    match int64? n with
    | some w => (int w, σ)
    | none => (float (floatOfRatio (n < 0) n.natAbs 1), σ)
  | .float x => (float x, σ)
  | .str s => (str s, σ)
  | .arr items =>
    let (xs, σ) := ofJsonItems σ items
    σ.newList xs.toArray
  | .obj fields =>
    let (es, σ) := ofJsonFields σ fields
    σ.newMap (Dict.ofList es)
termination_by structural j => j

def ofJsonItems (σ : Store) : List Json → List Value × Store
  | [] => ([], σ)
  | j :: js =>
    let (x, σ) := ofJson σ j
    let (xs, σ) := ofJsonItems σ js
    (x :: xs, σ)
termination_by structural js => js

def ofJsonFields (σ : Store) : List (String × Json) → List (String × Value) × Store
  | [] => ([], σ)
  | (k, j) :: fs =>
    let (x, σ) := ofJson σ j
    let (xs, σ) := ofJsonFields σ fs
    ((k, x) :: xs, σ)
termination_by structural fs => fs

end

end Value

end Stencil
