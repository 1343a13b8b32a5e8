import Stencil.Template

/-!
# Macro libraries

Macros that every template can call, taken from the tables of library templates. What is registered later
replaces what was registered earlier.
-/

namespace Stencil

/-- The macros of the registered templates, each with the compilation that it came from, and the names of
those templates in the order of their registration. -/
structure MacroLibrary where
  macros : Dict (CodeUnit × MacroDef)
  names : List String

namespace MacroLibrary

def empty : MacroLibrary := ⟨∅, []⟩

def register (l : MacroLibrary) (name : String) (t : Template) : MacroLibrary where
  macros := t.macros.entries.foldl (fun d e => d.insert e.1 (t.unit, e.2)) l.macros
  names := l.names ++ [name]

def get? (l : MacroLibrary) (name : String) : Option (CodeUnit × MacroDef) := l.macros.get? name

end MacroLibrary

end Stencil
