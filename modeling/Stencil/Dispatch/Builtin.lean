import Stencil.Decimal.Binary
import Stencil.Dispatch.Lists
import Stencil.Dispatch.Maps
import Stencil.Dispatch.Strings

/-!
# The types of the built-in values

Every kind of value but null has a type; the methods of numbers and booleans are here.
-/

namespace Stencil

/-- The value of a double cut off towards zero, at the ends of the range where it lies beyond. -/
def Float.truncated (x : Float) : Int64 := x.toInt64

namespace ScalarMethods

private def texts : Method := .reading "toString" [] fun σ v _ => .ok (.str (v.display σ))

private def equals : Method :=
  .reading "equals" [.any] fun σ v args => .ok (.bool (v.equal σ (Value.arg args 0)))

private def onNumber (name : String) (f : Float → Value) : Method :=
  .reading name [] fun σ v _ => return f (← v.number? σ)

private def doubles : Method := onNumber "doubleValue" Value.float

private def onInt (name : String) : Method :=
  .reading name [] fun σ v _ => return .int (← v.int? σ)

def integers : List Method := [
  onInt "intValue",
  onInt "longValue",
  doubles,
  texts,
  .reading "compareTo" [.int] fun σ v args => do
    let n ← v.int? σ
    return StringMethods.orderingValue (compare n (← (Value.arg args 0).int? σ)),
  equals]

def floats : List Method := [
  onNumber "intValue" fun x => .int (Float.truncated x),
  onNumber "longValue" fun x => .int (Float.truncated x),
  doubles,
  texts,
  onNumber "isNaN" fun x => .bool x.isNaN,
  onNumber "isInfinite" fun x => .bool x.isInf,
  .reading "compareTo" [.float] fun σ v args => do
    let x ← v.number? σ
    let y ← (Value.arg args 0).number? σ
    return StringMethods.orderingValue (compare (Float.rank x) (Float.rank y)),
  equals]

def booleans : List Method := [
  .reading "booleanValue" [] fun _ v _ => .ok v,
  texts,
  equals]

section

variable {R : Store → Store → Prop} (refl : ∀ σ, R σ σ)
include refl

theorem keeps_integers : ∀ m ∈ integers, m.Keeps R := by
  have reading {name params f} : (Method.reading name params f).Keeps R := Method.keeps_reading refl
  simp only [integers, List.forall_mem_cons]
  exact ⟨reading, reading, reading, reading, reading, reading, List.forall_mem_nil _⟩

theorem keeps_floats : ∀ m ∈ floats, m.Keeps R := by
  have reading {name params f} : (Method.reading name params f).Keeps R := Method.keeps_reading refl
  simp only [floats, List.forall_mem_cons]
  exact ⟨reading, reading, reading, reading, reading, reading, reading, reading, List.forall_mem_nil _⟩

theorem keeps_booleans : ∀ m ∈ booleans, m.Keeps R := by
  have reading {name params f} : (Method.reading name params f).Keeps R := Method.keeps_reading refl
  simp only [booleans, List.forall_mem_cons]
  exact ⟨reading, reading, reading, List.forall_mem_nil _⟩

end

end ScalarMethods

/-- The type that answers for a key; null has none. A host type that is not known has no methods. -/
def ValueKind.info? (types : HostTypes) : ValueKind → Option TypeInfo
  | .null => none
  | .bool => some ⟨"Boolean", ScalarMethods.booleans⟩
  | .int => some ⟨"Integer", ScalarMethods.integers⟩
  | .float => some ⟨"Float", ScalarMethods.floats⟩
  | .str => some ⟨"String", StringMethods.all⟩
  | .list => some ⟨"List", ListMethods.all⟩
  | .map => some ⟨"Map", MapMethods.all⟩
  | .host type => some ((types type).getD ⟨type, []⟩)

end Stencil
