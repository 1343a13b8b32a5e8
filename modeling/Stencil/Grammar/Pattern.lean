import Stencil.Source

/-!
# Patterns of characters

The lowest level of a grammar: patterns that a text either starts with or not, without alternatives to
come back to. Main statement: what a pattern takes is a first part of the text, and the rest is what
follows it.
-/

namespace Stencil

/-- A place in a text: how many bytes came before, and which characters follow. -/
structure Cursor where
  offset : Nat
  rest : List Char
  deriving Repr, DecidableEq, Inhabited

namespace Cursor

def start (cs : List Char) : Cursor := ⟨0, cs⟩

/-- `c.Reaches d cs` says that `d` is reached from `c` by reading the characters `cs`. -/
def Reaches (c d : Cursor) (cs : List Char) : Prop :=
  c.rest = cs ++ d.rest ∧ d.offset = c.offset + utf8Length cs

def next? (c : Cursor) (p : Char → Bool) : Option Cursor :=
  match c.rest with
  | [] => none
  | x :: xs => if p x then some ⟨c.offset + x.utf8Size, xs⟩ else none

def word? : Cursor → List Char → Option Cursor
  | c, [] => some c
  | c, x :: xs => (c.next? (· == x)).bind (·.word? xs)

/-- Repeats a step as often as it succeeds. A step takes at least one character, so that the characters
left at the start bound the number of steps. -/
def repeated (step : Cursor → Option Cursor) : List Char → Cursor → Cursor
  | [], c => c
  | _ :: bound, c =>
    match step c with
    | none => c
    | some d => repeated step bound d

def upTo (c d : Cursor) : List Char := takeBytes (d.offset - c.offset) c.rest

theorem Reaches.refl (c : Cursor) : c.Reaches c [] := ⟨rfl, rfl⟩

theorem Reaches.trans {c d e : Cursor} {cs ds : List Char} (h : c.Reaches d cs)
    (k : d.Reaches e ds) : c.Reaches e (cs ++ ds) := by
  refine ⟨?_, ?_⟩
  · rw [h.1, k.1, List.append_assoc]
  · rw [k.2, h.2, utf8Length_append, Nat.add_assoc]

/-- The characters between two places are those that were read. -/
theorem Reaches.upTo_eq {c d : Cursor} {cs : List Char} (h : c.Reaches d cs) : c.upTo d = cs := by
  rw [upTo, h.1, h.2, Nat.add_sub_cancel_left, takeBytes_append]

theorem next?_reaches {c d : Cursor} {p : Char → Bool} (h : c.next? p = some d) :
    ∃ x, p x = true ∧ c.Reaches d [x] := by
  unfold next? at h
  split at h
  · cases h
  · next x xs hx =>
    split at h
    · next hp =>
      obtain rfl := Option.some.inj h
      exact ⟨x, hp, by simp [hx], by simp⟩
    · cases h

theorem word?_reaches {c d : Cursor} {w : List Char} (h : c.word? w = some d) : c.Reaches d w := by
  induction w generalizing c with
  | nil =>
    obtain rfl := Option.some.inj h
    exact .refl _
  | cons x xs ih =>
    obtain ⟨e, he, hd⟩ := Option.bind_eq_some_iff.mp h
    obtain ⟨y, hy, hce⟩ := next?_reaches he
    obtain rfl := eq_of_beq hy
    exact hce.trans (ih hd)

theorem repeated_reaches {step : Cursor → Option Cursor}
    (hs : ∀ c d, step c = some d → ∃ cs, c.Reaches d cs) (bound : List Char) (c : Cursor) :
    ∃ cs, c.Reaches (repeated step bound c) cs := by
  induction bound generalizing c with
  | nil => exact ⟨[], .refl c⟩
  | cons _ bound ih =>
    unfold repeated
    split
    · exact ⟨[], .refl c⟩
    · next d hd =>
      obtain ⟨cs, hcs⟩ := hs c d hd
      obtain ⟨ds, hds⟩ := ih d
      exact ⟨cs ++ ds, hcs.trans hds⟩

end Cursor

/-- A pattern of characters. -/
inductive Pattern where
  | word (w : List Char)
  | one (p : Char → Bool)
  | seq (p q : Pattern)
  /-- The second pattern is tried only where the first fails. -/
  | alt (p q : Pattern)
  | many (p : Pattern)
  | opt (p : Pattern)
  /-- Takes nothing, and only where the pattern fails. -/
  | absent (p : Pattern)

namespace Pattern

instance : HAppend Pattern Pattern Pattern := ⟨seq⟩

instance : OrElse Pattern := ⟨fun p q => alt p (q ())⟩

def lit (s : String) : Pattern := word s.toList

def any : Pattern := one fun _ => true

/-- One pattern at least once. -/
def several (p : Pattern) : Pattern := p ++ many p

def ending : Pattern := absent any

/-- Where the pattern ends when the text at the cursor starts with it. -/
def run : Pattern → Cursor → Option Cursor
  | word w, c => c.word? w
  | one p, c => c.next? p
  | seq p q, c => (p.run c).bind q.run
  | alt p q, c =>
    match p.run c with
    | some d => some d
    | none => q.run c
  | many p, c => some (Cursor.repeated p.run c.rest c)
  | opt p, c => some ((p.run c).getD c)
  | absent p, c => if (p.run c).isSome then none else some c

/-- A pattern reads a first part of the text. -/
theorem run_reaches {p : Pattern} {c d : Cursor} (h : p.run c = some d) :
    ∃ cs, c.Reaches d cs := by
  induction p generalizing c d with
  | word w => exact ⟨w, Cursor.word?_reaches h⟩
  | one p =>
    obtain ⟨x, _, hx⟩ := Cursor.next?_reaches h
    exact ⟨[x], hx⟩
  | seq p q ihp ihq =>
    obtain ⟨e, he, hd⟩ := Option.bind_eq_some_iff.mp h
    obtain ⟨cs, hcs⟩ := ihp he
    obtain ⟨ds, hds⟩ := ihq hd
    exact ⟨cs ++ ds, hcs.trans hds⟩
  | alt p q ihp ihq =>
    unfold run at h
    split at h
    · next e he =>
      obtain rfl := Option.some.inj h
      exact ihp he
    · exact ihq h
  | many p ih =>
    obtain rfl := Option.some.inj h
    exact Cursor.repeated_reaches (fun _ _ => ih) c.rest c
  | opt p ih =>
    obtain rfl := Option.some.inj h
    cases he : p.run c with
    | none => exact ⟨[], .refl c⟩
    | some e => exact ih he
  | absent p ih =>
    unfold run at h
    split at h
    · cases h
    · obtain rfl := Option.some.inj h
      exact ⟨[], .refl c⟩

end Pattern

end Stencil
