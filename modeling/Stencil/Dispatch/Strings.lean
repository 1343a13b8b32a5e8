import Stencil.Dispatch.TypeInfo
import Stencil.Text.Blank
import Stencil.Text.Case
import Stencil.Text.Search
import Stencil.Value.Equality

/-!
# Methods of strings

Positions in a string count characters from zero.
-/

namespace Stencil.StringMethods

private def text (cs : List Char) : Value := .str (String.ofList cs)

/-- The place that an index names in a text of `size` characters, its end included. -/
def place (size : Nat) (i : Int64) (what : String) : Except String Nat :=
  if 0 ≤ i.toInt ∧ i.toInt ≤ size then .ok i.toInt.toNat
  else .error s!"{what} {i.toInt} out of range for length {size}"

/-- The characters from one place up to another, or up to the end. -/
def substring (cs : List Char) (lower : Int64) (upper : Option Int64) :
    Except String (List Char) := do
  let start ← place cs.length lower "begin index"
  let stop ←
    match upper with
    | some i => place cs.length i "end index"
    | none => .ok cs.length
  if stop < start then .error s!"begin index {start} is after end index {stop}"
  else .ok ((cs.drop start).take (stop - start))

/-- The first place at or after `start` at which `t` stands, or `-1`. -/
def indexFrom (t cs : List Char) (start : Nat) : Value :=
  match Text.find? t (cs.drop start) with
  | some i => .ofNat (i + start)
  | none => .int (-1)

def charAt (cs : List Char) (i : Int64) : Except String (List Char) :=
  match if i.toInt < 0 then none else cs[i.toInt.toNat]? with
  | some c => .ok [c]
  | none => .error s!"index {i.toInt} out of range"

/-- The parts between the occurrences of a separator; an empty one parts all characters. -/
def split (t cs : List Char) : List (List Char) :=
  if t.isEmpty then cs.map fun c => [c] else Text.splitOn t cs

def orderingValue : Ordering → Value
  | .lt => .int (-1)
  | .eq => .int 0
  | .gt => .int 1

private def plain (name : String) (f : List Char → Value) : Method :=
  .reading name [] fun σ v _ => return f (← v.chars? σ)

private def withText (name : String) (f : List Char → List Char → Value) : Method :=
  .reading name [.str] fun σ v args => return f (← v.chars? σ) (← (Value.arg args 0).chars? σ)

def all : List Method := [
  plain "length" fun cs => .ofNat cs.length,
  plain "isEmpty" fun cs => .bool cs.isEmpty,
  plain "toUpperCase" fun cs => text (Text.upper cs),
  plain "toLowerCase" fun cs => text (Text.lower cs),
  plain "trim" fun cs => text (Text.trim cs),
  .reading "toString" [] fun _ v _ => .ok v,
  withText "contains" fun cs t => .bool (Text.contains t cs),
  withText "startsWith" fun cs t => .bool (t.isPrefixOf cs),
  withText "endsWith" fun cs t => .bool (t.isSuffixOf cs),
  withText "indexOf" fun cs t => indexFrom t cs 0,
  .reading "indexOf" [.str, .int] fun σ v args => do
    let cs ← v.chars? σ
    let start ← (Value.arg args 1).int? σ
    return indexFrom (← (Value.arg args 0).chars? σ) cs start.toInt.toNat,
  .reading "substring" [.int] fun σ v args => do
    let cs ← v.chars? σ
    return text (← substring cs (← (Value.arg args 0).int? σ) none),
  .reading "substring" [.int, .int] fun σ v args => do
    let cs ← v.chars? σ
    let lower ← (Value.arg args 0).int? σ
    return text (← substring cs lower (some (← (Value.arg args 1).int? σ))),
  .reading "charAt" [.int] fun σ v args => do
    let i ← (Value.arg args 0).int? σ
    return text (← charAt (← v.chars? σ) i),
  .reading "replace" [.str, .str] fun σ v args => do
    let cs ← v.chars? σ
    let t ← (Value.arg args 0).chars? σ
    return text (Text.replace t (← (Value.arg args 1).chars? σ) cs),
  .changing "split" [.str] fun σ v args => do
    let t ← (Value.arg args 0).chars? σ
    return σ.newList ((split t (← v.chars? σ)).map text).toArray,
  withText "concat" fun cs t => text (cs ++ t),
  .reading "equals" [.any] fun σ v args => .ok (.bool (v.equal σ (Value.arg args 0))),
  withText "equalsIgnoreCase" fun cs t => .bool (Text.lower cs == Text.lower t),
  withText "compareTo" fun cs t => orderingValue (compare (String.ofList cs) (String.ofList t))]

/-- Methods of strings make a list, or change nothing. -/
theorem keeps_all {R : Store → Store → Prop} (refl : ∀ σ, R σ σ) (new : ∀ σ xs, R σ (σ.newList xs).2) :
    ∀ m ∈ all, m.Keeps R := by
  have reading {name params f} : (Method.reading name params f).Keeps R := Method.keeps_reading refl
  simp only [all, List.forall_mem_cons]
  refine ⟨reading, reading, reading, reading, reading, reading, reading, reading, reading, reading, reading, reading,
    reading, reading, reading, Method.keeps_changing refl fun σ v args r done => ?_, reading, reading, reading, reading,
    List.forall_mem_nil _⟩
  simp only [bind, Except.bind] at done
  iterate 2
    split at done
    · cases done
  cases done
  exact new σ _

end Stencil.StringMethods
