import Mathlib.Data.List.Basic
import Mathlib.Data.List.Pairwise
import Stencil.Proofs.Reading.Derivation

/-!
# Trees and their parts

The parts of a tree, at any depth, stand in a row or in one another. Main statements: `Tree.mem_parts`, the list of all
parts, and `Tree.Holds.nested`, of two parts one lies in the other or they lie apart.
-/

namespace Stencil

/-! ### The parts of a tree -/

section

variable {ρ : Type} {t u v : Tree ρ}

lemma Tree.Holds.trans (h : t.Holds u) (k : u.Holds v) : t.Holds v := by
  induction h with
  | self => exact k
  | child hm _ ih => exact .child hm (ih k)

mutual

/-- A tree and the parts of it, at any depth, each in front of those in it. -/
def Tree.parts {ρ : Type} : Tree ρ → List (Tree ρ)
  | .node r c d ts => .node r c d ts :: Tree.allParts ts

def Tree.allParts {ρ : Type} : List (Tree ρ) → List (Tree ρ)
  | [] => []
  | t :: ts => t.parts ++ allParts ts

end

lemma Tree.allParts_eq (ts : List (Tree ρ)) : allParts ts = ts.flatMap parts := by
  induction ts with
  | nil => rfl
  | cons t ts ih => rw [allParts, ih, List.flatMap_cons]

lemma Tree.mem_parts (u : Tree ρ) : ∀ t : Tree ρ, u ∈ t.parts ↔ t.Holds u
  | .node r c d ts => by
    have inside : u ∈ allParts ts ↔ ∃ t ∈ ts, t.Holds u := by
      rw [allParts_eq, List.mem_flatMap]
      exact exists_congr fun t => and_congr_right fun (_ : t ∈ ts) => Tree.mem_parts u t
    rw [parts, List.mem_cons, inside]
    constructor
    · rintro (rfl | ⟨t, ht, hu⟩)
      · exact .self
      · exact .child ht hu
    · intro hu
      cases hu with
      | self => exact .inl rfl
      | child ht hu => exact .inr ⟨_, ht, hu⟩

end

/-! ### Parts in a row -/

/-- Whether trees stand one after the other between two places. -/
structure Tree.InRow {ρ : Type} (c d : Cursor) (ts : List (Tree ρ)) : Prop where
  order : ts.Pairwise fun t u => t.stop.offset ≤ u.start.offset
  between : ∀ t ∈ ts, c.offset ≤ t.start.offset ∧ t.stop.offset ≤ d.offset

namespace Tree.InRow

variable {ρ : Type} {c d e : Cursor} {ts us : List (Tree ρ)}

lemma nil : InRow c d ([] : List (Tree ρ)) := ⟨.nil, nofun⟩

lemma single {r : ρ} : InRow c d [.node r c d ts] :=
  ⟨List.pairwise_singleton _ _, List.forall_mem_singleton.mpr ⟨Nat.le_refl _, Nat.le_refl _⟩⟩

lemma append (hcd : c.offset ≤ d.offset) (hde : d.offset ≤ e.offset) (ht : InRow c d ts) (hu : InRow d e us) :
    InRow c e (ts ++ us) := by
  refine ⟨List.pairwise_append.mpr ⟨ht.order, hu.order, fun t hm u hn => ?_⟩, List.forall_mem_append.mpr ⟨?_, ?_⟩⟩
  · exact Nat.le_trans (ht.between t hm).2 (hu.between u hn).1
  · exact fun t hm => ⟨(ht.between t hm).1, Nat.le_trans (ht.between t hm).2 hde⟩
  · exact fun u hn => ⟨Nat.le_trans hcd (hu.between u hn).1, (hu.between u hn).2⟩

end Tree.InRow

/-- What an expression of a grammar reads stands in a row. -/
lemma Peg.Derives.inRow {ρ : Type} {grammar : Grammar ρ} {g : Peg ρ} {c d : Cursor} {ts : List (Tree ρ)}
    (hd : Derives grammar g c d ts) : Tree.InRow c d ts := by
  have ordered {c d : Cursor} {g : Peg ρ} {ts : List (Tree ρ)} (hd : Derives grammar g c d ts) :
      c.offset ≤ d.offset := by
    obtain ⟨_, reaches⟩ := hd.reaches
    exact reaches.offset_le
  induction hd with
  | token _ => exact .nil
  | seq hg hh ihg ihh => exact .append (ordered hg) (ordered hh) ihg ihh
  | left _ ih => exact ih
  | right _ ih => exact ih
  | done => exact .nil
  | more hg hh ihg ihh => exact .append (ordered hg) (ordered hh) ihg ihh
  | skipped => exact .nil
  | taken _ ih => exact ih
  | word _ _ => exact .single
  | phrase _ _ _ => exact .single

section

variable {cs : List Char} {t u v : Tree Rule}

/-- What a part was read as, from its body. -/
lemma Tree.Holds.children (ht : readTree cs = .ok t) (hu : t.Holds u) :
    u.children = [] ∨ ∃ g, Rule.body u.rule = .phrase g ∧ Peg.Derives Rule.body g u.start u.stop u.children := by
  obtain ⟨-, derived⟩ := hu.derived ht
  obtain ⟨r, c, d, ts⟩ := u
  cases derived with
  | word _ _ => exact .inl rfl
  | phrase hb hd => exact .inr ⟨_, hb, hd⟩

/-- The parts in a part stand in a row. -/
lemma Tree.Holds.inRow (ht : readTree cs = .ok t) (hu : t.Holds u) : InRow u.start u.stop u.children := by
  rcases hu.children ht with none | ⟨g, -, hd⟩
  · rw [none]
    exact .nil
  · exact hd.inRow

/-- What lies in a part lies between its ends. -/
lemma Tree.Holds.between (ht : readTree cs = .ok t) (hu : t.Holds u) (hv : u.Holds v) :
    u.start.offset ≤ v.start.offset ∧ v.stop.offset ≤ u.stop.offset := by
  induction hv with
  | self => exact ⟨Nat.le_refl _, Nat.le_refl _⟩
  | child hm _ ih =>
    obtain ⟨lo, hi⟩ := (hu.inRow ht).between _ hm
    obtain ⟨lo', hi'⟩ := ih (hu.trans (.child hm .self))
    exact ⟨Nat.le_trans lo lo', Nat.le_trans hi' hi⟩

/-- Whether one part stands behind the other. -/
def Tree.Apart {ρ : Type} (u v : Tree ρ) : Prop := u.stop.offset ≤ v.start.offset ∨ v.stop.offset ≤ u.start.offset

instance {ρ : Type} : Std.Symm (@Tree.Apart ρ) := ⟨fun _ _ h => h.symm⟩

/-- Of two parts of a part, one lies in the other or they lie apart. -/
lemma Tree.Holds.nested_in {w : Tree Rule} (ht : readTree cs = .ok t) (hu : w.Holds u) (hw : t.Holds w)
    (hv : w.Holds v) : u.Holds v ∨ v.Holds u ∨ u.Apart v := by
  induction hu with
  | self => exact .inl hv
  | @child w x u hx inX ih =>
    have inside {z : Tree Rule} (hz : z ∈ w.children) : t.Holds z := hw.trans (.child hz .self)
    cases hv with
    | self => exact .inr (.inl (.child hx inX))
    | @child _ y _ hy inY =>
      by_cases same : x = y
      · exact ih (inside hx) (same ▸ inY)
      · -- Different parts of one part stand one after the other, and so does what lies in them.
        have order : w.children.Pairwise Tree.Apart := (hw.inRow ht).order.imp .inl
        obtain ⟨lo, hi⟩ := (inside hx).between ht inX
        obtain ⟨lo', hi'⟩ := (inside hy).between ht inY
        rcases order.forall hx hy same with before | behind
        · exact .inr (.inr (.inl (Nat.le_trans hi (Nat.le_trans before lo'))))
        · exact .inr (.inr (.inr (Nat.le_trans hi' (Nat.le_trans behind lo))))

/-- Of two parts of a tree, one lies in the other or they lie apart. -/
theorem Tree.Holds.nested (ht : readTree cs = .ok t) (hu : t.Holds u) (hv : t.Holds v) :
    u.Holds v ∨ v.Holds u ∨ u.Apart v :=
  hu.nested_in ht .self hv

end

end Stencil
