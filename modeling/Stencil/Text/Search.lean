/-!
# Finding one text in another

First occurrences, cutting a text at a separator, and replacement. Positions count characters.
Main statements: an occurrence lies inside the text, and the parts of a cut text joined by the
separator give the text back.
-/

namespace Stencil.Text

/-- `find? t s` is the least position at which `t` starts in `s`. -/
def find? (t : List Char) : List Char → Option Nat
  | [] => if t.isEmpty then some 0 else none
  | c :: s => if t.isPrefixOf (c :: s) then some 0 else (find? t s).map (· + 1)

/-- An occurrence ends inside the text. -/
theorem find?_add_length_le {t s : List Char} {i : Nat} (h : find? t s = some i) :
    i + t.length ≤ s.length := by
  induction s generalizing i with
  | nil =>
    cases t with
    | nil => simp [find?] at h; simp [← h]
    | cons => simp [find?] at h
  | cons c s ih =>
    unfold find? at h
    split at h
    · next hp =>
      obtain rfl := Option.some.inj h
      have := (List.isPrefixOf_iff_prefix.mp hp).length_le
      omega
    · obtain ⟨j, hj, rfl⟩ := Option.map_eq_some_iff.mp h
      have := ih hj
      simp only [List.length_cons]
      omega

/-- At an occurrence the text splits into what precedes it, `t` and what follows it. -/
theorem eq_of_find? {t s : List Char} {i : Nat} (h : find? t s = some i) :
    s = s.take i ++ (t ++ s.drop (i + t.length)) := by
  induction s generalizing i with
  | nil =>
    have := find?_add_length_le h
    cases t <;> simp_all
  | cons c s ih =>
    unfold find? at h
    split at h
    · next hp =>
      obtain rfl := Option.some.inj h
      obtain ⟨r, hr⟩ := List.isPrefixOf_iff_prefix.mp hp
      simp [← hr]
    · obtain ⟨j, hj, rfl⟩ := Option.map_eq_some_iff.mp h
      have := ih hj
      simp only [List.take_succ_cons, List.cons_append, Nat.add_right_comm, List.drop_succ_cons]
      rw [← this]

def contains (t s : List Char) : Bool := (find? t s).isSome

/-- `splitOn t s` cuts `s` at the occurrences of the separator `t`, found from the left and without
overlap; an empty separator cuts nothing. -/
def splitOn (t s : List Char) : List (List Char) :=
  if _ht : t = [] then [s]
  else
    match _h : find? t s with
    | none => [s]
    | some i => s.take i :: splitOn t (s.drop (i + t.length))
termination_by s.length
decreasing_by
  have := find?_add_length_le _h
  have : 0 < t.length := List.length_pos_iff.mpr _ht
  simp only [List.length_drop]
  omega

/-- There is always a first part. -/
theorem splitOn_ne_nil (t s : List Char) : splitOn t s ≠ [] := by
  unfold splitOn
  split
  · simp
  · split <;> simp

/-- Joining the parts with the separator gives the text back. -/
theorem intercalate_splitOn (t s : List Char) : t.intercalate (splitOn t s) = s := by
  fun_induction splitOn t s with
  | case1 s => simp [List.intercalate]
  | case2 => simp [List.intercalate]
  | case3 s ht i h ih =>
    obtain ⟨p, ps, hp⟩ := List.exists_cons_of_ne_nil (splitOn_ne_nil t (s.drop (i + t.length)))
    rw [hp] at ih ⊢
    simp only [List.intercalate, List.intersperse_cons_cons, List.flatten_cons] at ih ⊢
    rw [ih]
    exact (eq_of_find? h).symm

/-- `replace t u s` puts `u` for every part `t` of `s` at which `s` is cut; an empty `t` stands
before every character and at the end. -/
def replace (t u s : List Char) : List Char :=
  if t.isEmpty then s.flatMap (fun c => u ++ [c]) ++ u
  else u.intercalate (splitOn t s)

end Stencil.Text
