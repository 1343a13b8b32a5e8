import Stencil.Dict
import Stencil.Parse
import Stencil.Template.Findings

/-!
# Compiled templates

A template is a text that parsed and in which no rule is broken, with the table of the macros that it
defines.
-/

namespace Stencil

/-- The macros that a template defines, by name; of several definitions of a name the last counts. -/
abbrev Macros := Dict MacroDef

/-- The table of definitions given in the order of their text. -/
def Macros.ofDefs (ds : List MacroDef) : Macros :=
  Dict.ofList (ds.map fun d => (d.name, d))

/-- Which compilation a template came from. Segments of one compilation are told apart by where they
start. -/
inductive CodeUnit where
  /-- Compiled from a text that was given directly. -/
  | inline
  /-- The `n`-th template that a cache compiled. -/
  | loaded (n : Nat)
  /-- The `n`-th text that a render evaluated. -/
  | evaluated (n : Nat)
  deriving Repr, DecidableEq, Inhabited

/-- A compiled template. -/
structure Template where
  source : Source
  root : Block
  macros : Macros
  unit : CodeUnit

namespace Template

def name (t : Template) : String := t.source.name

/-- Compiles a text. A single fault is the error itself, several are reported together. -/
def compile (unit : CodeUnit) (s : Source) (policy : GobblingPolicy) :
    Except TemplateError Template :=
  match parse s policy with
  | .error e => .error e
  | .ok root =>
    let findings := blockFindings ⟨false, false⟩ root
    match (Finding.faults findings).map (·.inSource s) with
    | [] => .ok ⟨s, root, Macros.ofDefs (Finding.definitions findings), unit⟩
    | [f] => .error (.single f)
    | fs => .error (.compile s.name fs)

/-- A text compiles where it parses as a tree without faults, to a template of that tree and of the macros in it. -/
theorem compile_eq_ok_iff {unit : CodeUnit} {s : Source} {policy : GobblingPolicy} {t : Template} :
    compile unit s policy = .ok t ↔
      parse s policy = .ok t.root ∧ Finding.faults (blockFindings ⟨false, false⟩ t.root) = [] ∧
        t = ⟨s, t.root, Macros.ofDefs (Finding.definitions (blockFindings ⟨false, false⟩ t.root)), unit⟩ := by
  unfold compile
  cases parse s policy with
  | error e => exact ⟨nofun, nofun⟩
  | ok root =>
    dsimp only
    constructor
    · intro h
      split at h
      · next clean =>
        cases h
        exact ⟨rfl, List.map_eq_nil_iff.mp clean, rfl⟩
      · cases h
      · cases h
    · rintro ⟨parsed, clean, same⟩
      obtain rfl := Except.ok.inj parsed
      rw [clean, same]
      rfl

/-- A text that does not parse is refused for that. -/
theorem compile_eq_error {s : Source} {policy : GobblingPolicy} {e : TemplateError} (h : parse s policy = .error e)
    (unit : CodeUnit) : compile unit s policy = .error e := by
  unfold compile
  rw [h]

/-- The root of a compiled template is what its text parses as. -/
theorem parse_of_compile {unit : CodeUnit} {s : Source} {policy : GobblingPolicy} {t : Template}
    (h : compile unit s policy = .ok t) : parse s policy = .ok t.root :=
  (compile_eq_ok_iff.mp h).1

/-- A template knows its source and the compilation that it came from. -/
theorem eq_of_compile {unit : CodeUnit} {s : Source} {policy : GobblingPolicy} {t : Template}
    (h : compile unit s policy = .ok t) : t.source = s ∧ t.unit = unit := by
  obtain ⟨-, -, same⟩ := compile_eq_ok_iff.mp h
  exact ⟨congrArg Template.source same, congrArg Template.unit same⟩

/-- A template that compiles has no faults, and its table is made of the definitions in it. -/
theorem macros_of_compile {unit : CodeUnit} {s : Source} {policy : GobblingPolicy} {t : Template}
    (h : compile unit s policy = .ok t) : Finding.faults (blockFindings ⟨false, false⟩ t.root) = [] ∧
      t.macros = Macros.ofDefs (Finding.definitions (blockFindings ⟨false, false⟩ t.root)) := by
  obtain ⟨-, clean, same⟩ := compile_eq_ok_iff.mp h
  exact ⟨clean, congrArg Template.macros same⟩

end Template

end Stencil
