import Stencil.Dict
import Stencil.Error

/-!
# Loaders

A loader has texts under names, each with a stamp that changes when the text does. Loaders are asked in
order. Templates in memory are stamped by a clock that never stands still.
-/

namespace Stencil

abbrev Stamp := Nat

/-- A text and the stamp under which it was read. -/
structure Resource where
  text : String
  stamp : Option Stamp
  deriving Repr, DecidableEq

/-- What a loader answers at one moment. -/
structure Loader where
  /-- Reads a resource, if the loader has it. -/
  load : String → Except TemplateError (Option Resource)
  /-- The present stamp of a resource; none once it is gone. -/
  stamp? : String → Option Stamp

/-- Whether a resource changed since it was read under a stamp. Where one of the two is not known, it may
have. -/
def Loader.isModified (l : Loader) (name : String) (read : Option Stamp) : Bool :=
  match l.stamp? name, read with
  | some now, some then_ => now != then_
  | _, _ => true

/-- Templates in memory, with the latest stamp given. -/
structure StringLoader where
  templates : Dict Resource
  clock : Stamp

namespace StringLoader

def empty : StringLoader := ⟨∅, 0⟩

/-- Puts a text under a name at a time: its stamp is later than every stamp before, even where the time
is not. -/
def put (l : StringLoader) (now : Stamp) (name text : String) : StringLoader :=
  let stamp := max now (l.clock + 1)
  ⟨l.templates.insert name ⟨text, some stamp⟩, stamp⟩

def remove (l : StringLoader) (name : String) : Bool × StringLoader :=
  (l.templates.contains name, { l with templates := l.templates.erase name })

def ofList (templates : List (String × String)) : StringLoader :=
  templates.foldl (fun l t => l.put 0 t.1 t.2) empty

def loader (l : StringLoader) : Loader where
  load name := .ok (l.templates.get? name)
  stamp? name := (l.templates.get? name).bind Resource.stamp

/-- What was put under a name is read under it. -/
theorem load_put (l : StringLoader) (now : Stamp) (name text : String) :
    (l.put now name text).loader.load name =
      .ok (some ⟨text, some (max now (l.clock + 1))⟩) := by
  simp [loader, put, Dict.get?_insert]

/-- Every text gets a later stamp than any before. -/
theorem clock_lt_clock_put (l : StringLoader) (now : Stamp) (name text : String) :
    l.clock < (l.put now name text).clock := by
  exact Nat.lt_of_lt_of_le (Nat.lt_succ_self _) (Nat.le_max_right _ _)

end StringLoader

end Stencil
