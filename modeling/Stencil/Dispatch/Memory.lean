import Stencil.Dispatch.Choice

/-!
# Remembered choices

Types do not change, so a choice that was made once holds for every request of the same kind. Main
statement: whatever is remembered, the answer is the one that the request alone would get.
-/

namespace Stencil

/-- The choices made so far, and how many requests found theirs among them or did not. -/
structure ChoiceMemory where
  choices : List (MemberRequest × MemberChoice)
  hits : Nat
  misses : Nat

namespace ChoiceMemory

def empty : ChoiceMemory := ⟨[], 0, 0⟩

def entries (i : ChoiceMemory) : Nat := i.choices.length

/-- Answers a request and remembers the choice; failures are not remembered. -/
def resolve (types : HostTypes) (i : ChoiceMemory) (q : MemberRequest) :
    Except NoChoice MemberChoice × ChoiceMemory :=
  match i.choices.lookup q with
  | some p => (.ok p, { i with hits := i.hits + 1 })
  | none =>
    match q.resolve types with
    | .ok p => (.ok p, { i with choices := (q, p) :: i.choices, misses := i.misses + 1 })
    | .error f => (.error f, { i with misses := i.misses + 1 })

def Sound (types : HostTypes) (i : ChoiceMemory) : Prop :=
  ∀ q p, i.choices.lookup q = some p → q.resolve types = .ok p

theorem sound_empty (types : HostTypes) : empty.Sound types := by
  intro q p h
  simp [empty] at h

/-- The answer does not depend on what is remembered. -/
theorem resolve_fst {types : HostTypes} {i : ChoiceMemory} (h : i.Sound types) (q : MemberRequest) :
    (i.resolve types q).1 = q.resolve types := by
  unfold resolve
  split
  · next p hp => exact (h q p hp).symm
  · split <;> simp_all

theorem Sound.resolve {types : HostTypes} {i : ChoiceMemory} (h : i.Sound types)
    (q : MemberRequest) : (i.resolve types q).2.Sound types := by
  unfold ChoiceMemory.resolve
  split
  · exact h
  · split
    · next p hp =>
      intro q' p' h'
      by_cases hq : q' = q
      · subst hq
        simp only [List.lookup_cons, beq_self_eq_true] at h'
        obtain rfl := Option.some.inj h'
        exact hp
      · simp only [List.lookup_cons, beq_eq_false_iff_ne.mpr hq] at h'
        exact h q' p' h'
    · exact h

/-- Every request is counted once. -/
theorem counts_resolve (types : HostTypes) (i : ChoiceMemory) (q : MemberRequest) :
    (i.resolve types q).2.hits + (i.resolve types q).2.misses = i.hits + i.misses + 1 := by
  unfold ChoiceMemory.resolve
  split
  · simp only; omega
  · split <;> simp only <;> omega

end ChoiceMemory

end Stencil
