import Stencil.Ast.Gobbling
import Stencil.Ast.Reading

/-!
# Parsing templates

From the text of a template to its block of nodes, gobbling included. A text is refused at its first
fault, and the failure carries the source.
-/

namespace Stencil

/-- Strings can be nested in strings at most this deep: each level takes two quotes. -/
def stringDepth (cs : List Char) : Nat := cs.length + 1

/-- Parses a template without gobbling; the spans of its markers say what gobbling goes by. -/
def parseTree (s : Source) : Except Failure (Block × MarkerSpans) :=
  let site := Site.ofSource s
  match readTree site.chars with
  | .error refusal => .error (site.refused site.chars refusal)
  | .ok tree =>
    match tree.eval (Rule.meaning site (readBlock (stringDepth site.chars))) with
    | .ok (.block b) => .ok (b, tree.markerSpans)
    | .ok _ => .error (.of (.parse (.missing "template") ""))
    | .error f => .error f

def parse (s : Source) (policy : GobblingPolicy) : Except TemplateError Block :=
  match parseTree s with
  | .ok (b, spans) => .ok (b.gobble policy s.text.toList spans)
  | .error f => .error (.single (f.inSource s))

section

variable {s : Source} {b : Block} {spans : MarkerSpans} {policy : GobblingPolicy}

/-- A template is read like the content of a string. -/
theorem map_parseTree (s : Source) :
    (parseTree s).map Prod.fst = readBlock (stringDepth s.text.toList + 1) (.ofSource s) s.text.toList := by
  unfold parseTree readBlock
  have chars : (Site.ofSource s).chars = s.text.toList := rfl
  dsimp only
  rw [chars]
  cases readTree s.text.toList with
  | error refusal => rfl
  | ok t =>
    dsimp only
    cases t.eval (Rule.meaning (Site.ofSource s) (readBlock (stringDepth s.text.toList))) with
    | error f => rfl
    | ok part =>
      cases part with
      | block b => rfl
      | _ => rfl

theorem readBlock_of_parseTree (h : parseTree s = .ok (b, spans)) :
    readBlock (stringDepth s.text.toList + 1) (.ofSource s) s.text.toList = .ok b := by
  rw [← map_parseTree, h]
  rfl

/-- Gobbling goes by the markers in the tree that the text is read as. -/
theorem parseTree_eq_ok_iff : parseTree s = .ok (b, spans) ↔
    ∃ t, readTree s.text.toList = .ok t ∧ spans = t.markerSpans ∧
      t.eval (Rule.meaning (.ofSource s) (readBlock (stringDepth s.text.toList))) = .ok (.block b) := by
  have chars : (Site.ofSource s).chars = s.text.toList := rfl
  unfold parseTree
  dsimp only
  rw [chars]
  cases ht : readTree s.text.toList with
  | error refusal => exact ⟨nofun, nofun⟩
  | ok t =>
    dsimp only
    constructor
    · intro h
      split at h
      · next meant =>
        cases h
        exact ⟨t, rfl, rfl, meant⟩
      · cases h
      · cases h
    · rintro ⟨u, ⟨⟩, rfl, meant⟩
      rw [meant]

/-- A text whose tree means nothing is refused for the reason of that. -/
theorem parseTree_eq_error {t : Tree Rule} {f : Failure} (read : readTree s.text.toList = .ok t)
    (failed : t.eval (Rule.meaning (.ofSource s) (readBlock (stringDepth s.text.toList))) = .error f) :
    parseTree s = .error f := by
  have chars : (Site.ofSource s).chars = s.text.toList := rfl
  unfold parseTree
  dsimp only
  rw [chars, read]
  dsimp only
  rw [failed]

theorem parse_eq_ok_iff : parse s policy = .ok b ↔
    ∃ root spans, parseTree s = .ok (root, spans) ∧ root.gobble policy s.text.toList spans = b := by
  unfold parse
  cases parseTree s with
  | error f => exact ⟨nofun, nofun⟩
  | ok read =>
    constructor
    · intro h
      exact ⟨read.1, read.2, rfl, Except.ok.inj h⟩
    · rintro ⟨root, spans, ⟨⟩, rfl⟩
      rfl

theorem parse_of_parseTree (h : parseTree s = .ok (b, spans)) (policy : GobblingPolicy) :
    parse s policy = .ok (b.gobble policy s.text.toList spans) :=
  parse_eq_ok_iff.mpr ⟨b, spans, h, rfl⟩

theorem parse_eq_error_iff {e : TemplateError} : parse s policy = .error e ↔
    ∃ f : Failure, parseTree s = .error f ∧ e = .single (f.inSource s) := by
  unfold parse
  cases parseTree s with
  | ok read => exact ⟨nofun, nofun⟩
  | error f =>
    constructor
    · rintro ⟨⟩
      exact ⟨f, rfl, rfl⟩
    · rintro ⟨g, ⟨⟩, rfl⟩
      rfl

end

end Stencil
