import Mathlib.Tactic.Lemma
import Stencil.Dict

/-!
# Entries in the order in which their keys came

What an insertion and a removal make of the entries of a dictionary, told of the entries alone. Main statements:
`Dict.entered_insert`, `Dict.removed_erase` and `Dict.enteredAll_ofList`.
-/

namespace Stencil

universe u

variable {α : Type u} {k : String} {v : α} {es es' : List (String × α)} {old : Option α}

/-- How entries change where a key gets a value: a known key keeps its place, and a new one goes last. The value that
the key had is told, too. -/
inductive Entered (k : String) (v : α) : List (String × α) → Option α → List (String × α) → Prop
  | known {before after : List (String × α)} {old : α} :
    Entered k v (before ++ (k, old) :: after) (some old) (before ++ (k, v) :: after)
  | new {es : List (String × α)} : k ∉ es.map Prod.fst → Entered k v es none (es ++ [(k, v)])

/-- How entries change where a key is taken away: the others keep their order. The value that it had is told, too. -/
inductive Removed (k : String) : List (String × α) → Option α → List (String × α) → Prop
  | known {before after : List (String × α)} {old : α} :
    Removed k (before ++ (k, old) :: after) (some old) (before ++ after)
  | unknown {es : List (String × α)} : k ∉ es.map Prod.fst → Removed k es none es

/-- How entries change where keys get values one after the other. -/
inductive EnteredAll : List (String × α) → List (String × α) → List (String × α) → Prop
  | nil {es : List (String × α)} : EnteredAll [] es es
  | cons {k : String} {v : α} {pairs es es' es'' : List (String × α)} {old : Option α} : Entered k v es old es' →
    EnteredAll pairs es' es'' → EnteredAll ((k, v) :: pairs) es es''

lemma Entered.nodup (h : Entered k v es old es') (distinct : (es.map Prod.fst).Nodup) : (es'.map Prod.fst).Nodup := by
  cases h with
  | known =>
    rw [List.map_append, List.map_cons] at distinct ⊢
    exact distinct
  | new fresh =>
    rw [List.map_append, List.map_singleton]
    refine List.nodup_append.mpr ⟨distinct, List.pairwise_singleton _ k, fun j hj i hi same => fresh ?_⟩
    obtain rfl := List.mem_singleton.mp hi
    exact same ▸ hj

lemma Removed.nodup (h : Removed k es old es') (distinct : (es.map Prod.fst).Nodup) : (es'.map Prod.fst).Nodup := by
  cases h with
  | known =>
    refine distinct.sublist (List.Sublist.map _ ?_)
    exact List.Sublist.append_left (List.sublist_cons_self ..) _
  | unknown _ => exact distinct

namespace Dict

variable {d : Dict α}

lemma not_mem_keys_of_get? (h : d.get? k = none) : k ∉ d.entries.map Prod.fst := by
  intro there
  have found := (d.mem_keys_iff k).mp there
  rw [h] at found
  cases found

/-- An entry that is found is the first one of its key. -/
lemma split_of_get? {old : α} (h : d.get? k = some old) :
    ∃ before after, d.entries = before ++ (k, old) :: after ∧ k ∉ before.map Prod.fst := by
  obtain ⟨before, after, split, others⟩ := List.lookup_eq_some_iff.mp h
  refine ⟨before, after, split, fun there => ?_⟩
  obtain ⟨e, he, rfl⟩ := List.mem_map.mp there
  exact absurd rfl (bne_iff_ne.mp (others e he))

/-- An insertion enters a value for its key. -/
theorem entered_insert (d : Dict α) (k : String) (v : α) : Entered k v d.entries (d.get? k) (d.insert k v).entries := by
  cases h : d.get? k with
  | none =>
    have fresh := not_mem_keys_of_get? h
    rw [entries_insert fresh]
    exact .new fresh
  | some old =>
    obtain ⟨before, after, split, first⟩ := split_of_get? h
    rw [entries_insert_of_known split first, split]
    exact .known

/-- A removal removes its key, which has one entry at most. -/
theorem removed_erase (hd : d.Distinct) (k : String) : Removed k d.entries (d.get? k) (d.erase k).entries := by
  have others {es : List (String × α)} (h : k ∉ es.map Prod.fst) : es.filter (·.1 != k) = es := by
    refine List.filter_eq_self.mpr fun e he => bne_iff_ne.mpr fun same => h ?_
    exact List.mem_map.mpr ⟨e, he, same⟩
  unfold erase
  cases h : d.get? k with
  | none =>
    have unknown := not_mem_keys_of_get? h
    rw [others unknown]
    exact .unknown unknown
  | some old =>
    obtain ⟨before, after, split, first⟩ := split_of_get? h
    have keys : (before.map Prod.fst ++ k :: after.map Prod.fst).Nodup := by
      have all : (d.entries.map Prod.fst).Nodup := hd
      rwa [split, List.map_append] at all
    have last : k ∉ after.map Prod.fst := (List.nodup_cons.mp (List.nodup_append.mp keys).2.1).1
    rw [split, List.filter_append, List.filter_cons_of_neg (by simp), others first, others last]
    exact .known

lemma enteredAll_foldl_insert (d : Dict α) (pairs : List (String × α)) :
    EnteredAll pairs d.entries (pairs.foldl (fun d e => d.insert e.1 e.2) d).entries := by
  induction pairs generalizing d with
  | nil => exact .nil
  | cons e pairs ih => exact .cons (d.entered_insert e.1 e.2) (ih _)

/-- The dictionary of a list of entries comes from entering them one after the other. -/
theorem enteredAll_ofList (pairs : List (String × α)) : EnteredAll pairs [] (ofList pairs).entries :=
  enteredAll_foldl_insert ∅ pairs

end Dict

end Stencil
