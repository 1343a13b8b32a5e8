import Stencil.Value.Display

/-!
# When values are equal

Two equalities: the strict one of values, under which a whole number may equal a double and objects are
equal only to themselves, and the loose one of templates, under which values of different kinds are equal
when their texts are.
-/

namespace Stencil

/-- Whether two lists have one length and items equal in pairs. -/
def allPairs {α : Type} (eq : α → α → Bool) : List α → List α → Bool
  | [], [] => true
  | x :: xs, y :: ys => eq x y && allPairs eq xs ys
  | _, _ => false

namespace Value

/-- Equality of values whose parts are nested at most `depth` deep. The order of a map's entries does not
matter. -/
def equalWithin (σ : Store) : Nat → Value → Value → Bool
  | _, null, null => true
  | _, bool a, bool b => a == b
  | _, int a, int b => a == b
  | _, float a, float b => a == b
  | _, int a, float b => a.toFloat == b
  | _, float a, int b => b.toFloat == a
  | _, str a, str b => a == b
  | _, object a, object b => a == b
  | 0, list a, list b => a == b
  | 0, map a, map b => a == b
  | depth + 1, list a, list b =>
    a == b || allPairs (equalWithin σ depth) (σ.items a).toList (σ.items b).toList
  | depth + 1, map a, map b =>
    a == b ||
      ((σ.entries a).size == (σ.entries b).size &&
        (σ.entries a).entries.all fun e =>
          match (σ.entries b).get? e.1 with
          | some v => equalWithin σ depth e.2 v
          | none => false)
  | _, _, _ => false

def equal (σ : Store) (a b : Value) : Bool := equalWithin σ (σ.cells.size + 1) a b

def looseEqual (σ : Store) (a b : Value) : Bool :=
  match a, b with
  | null, null => true
  | null, _ => false
  | _, null => false
  | int m, int n => m == n
  | int m, float y => m.toFloat == y
  | float x, int n => x == n.toFloat
  | float x, float y => x == y
  | bool p, bool q => p == q
  | str s, str t => s == t
  | object _, object _ => equal σ a b || a.display σ == b.display σ
  | list _, list _ => equal σ a b || a.display σ == b.display σ
  | map _, map _ => equal σ a b || a.display σ == b.display σ
  | _, _ => a.display σ == b.display σ

/-- The order of two values, if their kinds have one. A double that is no number has no order. -/
def compare? (a b : Value) : Option Ordering :=
  match a, b with
  | int m, int n => some (compare m n)
  | str s, str t => some (compare s t)
  | bool p, bool q => some (compare p q)
  | a, b =>
    match a.asFloat?, b.asFloat? with
    | some x, some y =>
      if x < y then some .lt else if y < x then some .gt else if x == y then some .eq else none
    | _, _ => none

end Value

end Stencil
