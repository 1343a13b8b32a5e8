import Stencil.Dispatch.TypeInfo
import Stencil.Value.Equality

/-!
# Methods of lists

Each method is an operation on a sequence: it gives an answer and the sequence afterwards, or fails and
leaves the list alone.
-/

namespace Stencil.ListMethods

private def outside (size : Nat) (i : Int64) : String :=
  s!"index {i.toInt} out of bounds for length {size}"

def itemAt (xs : Array Value) (i : Int64) : Except String (Nat × Value) :=
  match if i.toInt < 0 then none else xs[i.toInt.toNat]? with
  | some x => .ok (i.toInt.toNat, x)
  | none => .error (outside xs.size i)

/-- The gap that an index names: before an item, or at the end. -/
def gapAt (xs : Array Value) (i : Int64) : Except String Nat :=
  if 0 ≤ i.toInt ∧ i.toInt ≤ xs.size then .ok i.toInt.toNat else .error (outside xs.size i)

def insertAt (xs : Array Value) (i : Int64) (x : Value) : Except String (Array Value) := do
  let k ← gapAt xs i
  return (xs.toList.take k ++ x :: xs.toList.drop k).toArray

def removeAt (xs : Array Value) (k : Nat) : Array Value := (xs.toList.eraseIdx k).toArray

/-- The place of the first item that is loosely equal to a value. -/
def indexOf? (σ : Store) (xs : Array Value) (v : Value) : Option Nat :=
  xs.toList.findIdx? (·.looseEqual σ v)

def between (xs : Array Value) (lower upper : Int64) : Except String (Array Value) := do
  let start ← gapAt xs lower
  let stop ← gapAt xs upper
  if stop < start then .error s!"fromIndex {start} > toIndex {stop}"
  else return ((xs.toList.drop start).take (stop - start)).toArray

private def reading (name : String) (params : List ParamKind)
    (f : Store → Array Value → List Value → Except String Value) : Method :=
  .reading name params fun σ v args => do
    let (_, xs) ← v.list? σ
    f σ xs args

private def changing (name : String) (params : List ParamKind)
    (f : Store → Array Value → List Value → Except String (Value × Array Value)) : Method :=
  .changing name params fun σ v args => do
    let (r, xs) ← v.list? σ
    let (w, ys) ← f σ xs args
    return (w, σ.set r (.list ys))

def all : List Method := [
  reading "size" [] fun _ xs _ => .ok (.ofNat xs.size),
  reading "isEmpty" [] fun _ xs _ => .ok (.bool xs.isEmpty),
  reading "get" [.int] fun σ xs args => return (← itemAt xs (← (Value.arg args 0).int? σ)).2,
  reading "contains" [.any] fun σ xs args => .ok (.bool (indexOf? σ xs (Value.arg args 0)).isSome),
  reading "indexOf" [.any] fun σ xs args =>
    match indexOf? σ xs (Value.arg args 0) with
    | some k => .ok (.ofNat k)
    | none => .ok (.int (-1)),
  changing "add" [.any] fun _ xs args => .ok (.bool true, xs.push (Value.arg args 0)),
  changing "add" [.int, .any] fun σ xs args =>
    return (.null, ← insertAt xs (← (Value.arg args 0).int? σ) (Value.arg args 1)),
  changing "set" [.int, .any] fun σ xs args => do
    let (k, old) ← itemAt xs (← (Value.arg args 0).int? σ)
    return (old, xs.setIfInBounds k (Value.arg args 1)),
  changing "addAll" [.list] fun σ xs args => do
    let (_, ys) ← (Value.arg args 0).list? σ
    return (.bool !ys.isEmpty, xs ++ ys),
  changing "remove" [.int] fun σ xs args => do
    let (k, old) ← itemAt xs (← (Value.arg args 0).int? σ)
    return (old, removeAt xs k),
  changing "remove" [.any] fun σ xs args =>
    match indexOf? σ xs (Value.arg args 0) with
    | some k => .ok (.bool true, removeAt xs k)
    | none => .ok (.bool false, xs),
  changing "clear" [] fun _ _ _ => .ok (.null, #[]),
  .changing "subList" [.int, .int] fun σ v args => do
    let lower ← (Value.arg args 0).int? σ
    let upper ← (Value.arg args 1).int? σ
    let (_, xs) ← v.list? σ
    return σ.newList (← between xs lower upper)]

variable {R : Store → Store → Prop} (refl : ∀ σ, R σ σ) (set : ∀ σ r xs, R σ (σ.set r (.list xs)))
include refl set

private theorem keeps_changing (name : String) (params : List ParamKind)
    (f : Store → Array Value → List Value → Except String (Value × Array Value)) :
    (changing name params f).Keeps R := by
  refine Method.keeps_changing refl fun σ v args r done => ?_
  cases v with
  | list q =>
    cases h : f σ (σ.items q) args with
    | error reason =>
      simp only [Value.list?, bind, Except.bind, h] at done
      cases done
    | ok changed =>
      simp only [Value.list?, bind, Except.bind, h] at done
      cases done
      exact set σ q changed.2
  | _ => cases done

/-- Methods of lists change a list or make one, and nothing else. -/
theorem keeps_all (new : ∀ σ xs, R σ (σ.newList xs).2) : ∀ m ∈ all, m.Keeps R := by
  have reading {name params f} : (Method.reading name params f).Keeps R := Method.keeps_reading refl
  have changing {name params f} := keeps_changing refl set name params f
  simp only [all, List.forall_mem_cons]
  refine ⟨reading, reading, reading, reading, reading, changing, changing, changing, changing, changing, changing,
    changing, Method.keeps_changing refl fun σ v args r done => ?_, List.forall_mem_nil _⟩
  simp only [bind, Except.bind] at done
  iterate 4
    split at done
    · cases done
  cases done
  exact new σ _

end Stencil.ListMethods
