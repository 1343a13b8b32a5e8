import Stencil.Dispatch.TypeInfo
import Stencil.Value.Equality

/-!
# Methods of maps

Keys are texts: a key of another kind counts by its text.
-/

namespace Stencil.MapMethods

private def reading (name : String) (params : List ParamKind)
    (f : Store → Dict Value → List Value → Value) : Method :=
  .reading name params fun σ v args => do
    let (_, d) ← v.map? σ
    return f σ d args

private def changing (name : String) (params : List ParamKind)
    (f : Store → Dict Value → List Value → Value × Dict Value) : Method :=
  .changing name params fun σ v args => do
    let (r, d) ← v.map? σ
    let (w, e) := f σ d args
    return (w, σ.set r (.map e))

private def listing (name : String) (f : Store → Dict Value → Array Value × Store) : Method :=
  .changing name [] fun σ v _ => do
    let (_, d) ← v.map? σ
    let (xs, σ) := f σ d
    return σ.newList xs

private def key (σ : Store) (args : List Value) : String := (Value.arg args 0).display σ

def newEntry (σ : Store) (e : String × Value) : Value × Store :=
  σ.newMap (Dict.ofList [("key", .str e.1), ("value", e.2)])

def newEntries (σ : Store) : List (String × Value) → List Value × Store
  | [] => ([], σ)
  | e :: es =>
    let (x, σ) := newEntry σ e
    let (xs, σ) := newEntries σ es
    (x :: xs, σ)

def all : List Method := [
  reading "size" [] fun _ d _ => .ofNat d.size,
  reading "isEmpty" [] fun _ d _ => .bool d.isEmpty,
  reading "get" [.any] fun σ d args => (d.get? (key σ args)).getD .null,
  changing "put" [.str, .any] fun σ d args =>
    ((d.get? (key σ args)).getD .null, d.insert (key σ args) (Value.arg args 1)),
  reading "containsKey" [.any] fun σ d args => .bool (d.contains (key σ args)),
  reading "containsValue" [.any] fun σ d args =>
    .bool (d.values.any (·.looseEqual σ (Value.arg args 0))),
  changing "remove" [.any] fun σ d args =>
    ((d.get? (key σ args)).getD .null, d.erase (key σ args)),
  listing "keySet" fun σ d => ((d.keys.map Value.str).toArray, σ),
  listing "values" fun σ d => (d.values.toArray, σ),
  listing "entrySet" fun σ d =>
    let (xs, σ) := newEntries σ d.entries
    (xs.toArray, σ)]

variable {R : Store → Store → Prop} (refl : ∀ σ, R σ σ)
include refl

private theorem keeps_changing {f : Store → Dict Value → List Value → Value × Dict Value}
    (set : ∀ σ r args, R σ (σ.set r (.map (f σ (σ.entries r) args).2))) (name : String) (params : List ParamKind) :
    (changing name params f).Keeps R := by
  refine Method.keeps_changing refl fun σ v args r done => ?_
  cases v with
  | map q =>
    cases done
    exact set σ q args
  | _ => cases done

private theorem keeps_listing {f : Store → Dict Value → Array Value × Store}
    (new : ∀ σ r, R σ ((f σ (σ.entries r)).2.newList (f σ (σ.entries r)).1).2) (name : String) :
    (listing name f).Keeps R := by
  refine Method.keeps_changing refl fun σ v args r done => ?_
  cases v with
  | map q =>
    cases done
    exact new σ q
  | _ => cases done

/-- Methods of maps change the entry of a key, take one away or list what there is, and nothing else. -/
theorem keeps_all (insert : ∀ σ r k v, R σ (σ.set r (.map ((σ.entries r).insert k v))))
    (erase : ∀ σ r k, R σ (σ.set r (.map ((σ.entries r).erase k)))) (newList : ∀ σ xs, R σ (σ.newList xs).2)
    (listed : ∀ σ es, R σ ((newEntries σ es).2.newList (newEntries σ es).1.toArray).2) : ∀ m ∈ all, m.Keeps R := by
  have reading {name params f} : (Method.reading name params f).Keeps R := Method.keeps_reading refl
  simp only [all, List.forall_mem_cons]
  refine ⟨reading, reading, reading, ?_, reading, reading, ?_, ?_, ?_, ?_, List.forall_mem_nil _⟩
  · exact keeps_changing refl (fun σ r args => insert σ r _ _) _ _
  · exact keeps_changing refl (fun σ r args => erase σ r _) _ _
  · exact keeps_listing refl (fun σ r => newList σ _) _
  · exact keeps_listing refl (fun σ r => newList σ _) _
  · exact keeps_listing refl (fun σ r => listed σ _) _

end Stencil.MapMethods
