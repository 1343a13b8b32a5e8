/-!
# Dictionaries in order of insertion

A dictionary keeps its entries in the order in which their keys first came. Main statements: what
`get?` answers after an insertion or a removal, and that the keys stay distinct.
-/

namespace Stencil

/-- Entries `(key, value)` in order of insertion. -/
structure Dict (α : Type u) where
  entries : List (String × α)
  deriving Repr

namespace Dict

variable {α : Type u}

instance : EmptyCollection (Dict α) := ⟨⟨[]⟩⟩

instance : Inhabited (Dict α) := ⟨∅⟩

def size (d : Dict α) : Nat := d.entries.length

def isEmpty (d : Dict α) : Bool := d.entries.isEmpty

def keys (d : Dict α) : List String := d.entries.map Prod.fst

def values (d : Dict α) : List α := d.entries.map Prod.snd

def get? (d : Dict α) (k : String) : Option α := d.entries.lookup k

def contains (d : Dict α) (k : String) : Bool := (d.get? k).isSome

private def insertEntry (k : String) (v : α) : List (String × α) → List (String × α)
  | [] => [(k, v)]
  | e :: es => if e.1 = k then (k, v) :: es else e :: insertEntry k v es

/-- Gives a key a value: a known key keeps its place, a new one goes last. -/
def insert (d : Dict α) (k : String) (v : α) : Dict α := ⟨insertEntry k v d.entries⟩

def erase (d : Dict α) (k : String) : Dict α := ⟨d.entries.filter (·.1 != k)⟩

/-- The dictionary of a list of entries, in which a later entry overwrites an earlier one. -/
def ofList (es : List (String × α)) : Dict α :=
  es.foldl (fun d e => d.insert e.1 e.2) ∅

def Distinct (d : Dict α) : Prop := d.keys.Nodup

@[simp] theorem get?_empty (k : String) : (∅ : Dict α).get? k = none := rfl

/-- Reading a key after an insertion. -/
theorem get?_insert (d : Dict α) (k j : String) (v : α) :
    (d.insert k v).get? j = if j = k then some v else d.get? j := by
  obtain ⟨es⟩ := d
  simp only [insert, get?]
  induction es with
  | nil =>
    by_cases h : j = k
    · simp [insertEntry, h]
    · simp [insertEntry, List.lookup_cons, beq_eq_false_iff_ne.mpr h, h]
  | cons e es ih =>
    obtain ⟨i, w⟩ := e
    by_cases he : i = k
    · by_cases hj : j = k
      · simp [insertEntry, he, hj]
      · simp [insertEntry, he, hj, List.lookup_cons, beq_eq_false_iff_ne.mpr hj]
    · by_cases hj : j = i
      · simp [insertEntry, he, hj]
      · simp only [insertEntry, if_neg he, List.lookup_cons, beq_eq_false_iff_ne.mpr hj]
        exact ih

/-- Reading a key after a removal. -/
theorem get?_erase (d : Dict α) (k j : String) :
    (d.erase k).get? j = if j = k then none else d.get? j := by
  obtain ⟨es⟩ := d
  simp only [erase, get?]
  induction es with
  | nil => simp
  | cons e es ih =>
    obtain ⟨i, w⟩ := e
    by_cases he : i = k
    · by_cases hj : j = k
      · simpa [he, hj] using ih
      · simpa [he, hj, List.lookup_cons, beq_eq_false_iff_ne.mpr hj] using ih
    · by_cases hj : j = i
      · simp [he, hj]
      · have : (j == i) = false := by simpa using hj
        simpa [he, List.lookup_cons, this] using ih

/-- A key is among the keys exactly when it has a value. -/
theorem mem_keys_iff (d : Dict α) (k : String) : k ∈ d.keys ↔ (d.get? k).isSome := by
  obtain ⟨es⟩ := d
  simp only [keys, get?]
  induction es with
  | nil => simp
  | cons e es ih =>
    obtain ⟨i, w⟩ := e
    by_cases hk : k = i
    · simp [hk]
    · have : (k == i) = false := by simpa using hk
      simp [List.lookup_cons, this, hk, ← ih]

private theorem keys_insertEntry (k : String) (v : α) (es : List (String × α)) :
    (insertEntry k v es).map Prod.fst =
      if k ∈ es.map Prod.fst then es.map Prod.fst else es.map Prod.fst ++ [k] := by
  induction es with
  | nil => simp [insertEntry]
  | cons e es ih =>
    by_cases he : e.1 = k
    · simp [insertEntry, he]
    · have hk : ¬k = e.1 := fun h => he h.symm
      simp only [insertEntry, if_neg he, List.map_cons, ih, List.mem_cons, hk, false_or]
      split <;> simp

/-- The keys after an insertion: a known key keeps its place, a new one is last. -/
theorem keys_insert (d : Dict α) (k : String) (v : α) :
    (d.insert k v).keys = if k ∈ d.keys then d.keys else d.keys ++ [k] :=
  keys_insertEntry k v d.entries

/-- A new key goes last with its value. -/
theorem entries_insert {d : Dict α} {k : String} (h : k ∉ d.keys) (v : α) :
    (d.insert k v).entries = d.entries ++ [(k, v)] := by
  obtain ⟨es⟩ := d
  simp only [insert, keys] at h ⊢
  induction es with
  | nil => rfl
  | cons e es ih =>
    obtain ⟨other, fresh⟩ := List.ne_and_not_mem_of_not_mem_cons h
    simp only [insertEntry, if_neg (Ne.symm other), ih fresh, List.cons_append]

/-- A known key keeps its place, and the others keep their values. -/
theorem entries_insert_of_known {d : Dict α} {k : String} {before after : List (String × α)} {old : α}
    (split : d.entries = before ++ (k, old) :: after) (h : k ∉ before.map Prod.fst) (v : α) :
    (d.insert k v).entries = before ++ (k, v) :: after := by
  obtain ⟨es⟩ := d
  obtain rfl : es = before ++ (k, old) :: after := split
  simp only [insert]
  induction before with
  | nil => exact if_pos rfl
  | cons e before ih =>
    obtain ⟨other, later⟩ := List.ne_and_not_mem_of_not_mem_cons h
    simp only [List.cons_append, insertEntry, if_neg (Ne.symm other), ih later]

/-- What is found under a key is an entry. -/
theorem mem_entries_of_get? {d : Dict α} {k : String} {v : α} (h : d.get? k = some v) : (k, v) ∈ d.entries := by
  obtain ⟨before, after, h, -⟩ := List.lookup_eq_some_iff.mp (show d.entries.lookup k = some v from h)
  exact h ▸ List.mem_append_right _ (List.mem_cons_self ..)

/-- The entries after an insertion are the new one and entries that there were. -/
theorem mem_entries_insert {d : Dict α} {k : String} {v : α} {e : String × α} (h : e ∈ (d.insert k v).entries) :
    e = (k, v) ∨ e ∈ d.entries := by
  obtain ⟨es⟩ := d
  simp only [insert] at h ⊢
  induction es with
  | nil => exact .inl (List.mem_singleton.mp h)
  | cons other es ih =>
    unfold insertEntry at h
    split at h
    · exact (List.mem_cons.mp h).imp id fun h => List.mem_cons_of_mem _ h
    · rcases List.mem_cons.mp h with rfl | h
      · exact .inr (List.mem_cons_self ..)
      · exact (ih h).imp id fun h => List.mem_cons_of_mem _ h

/-- The values of insertions in a row are new ones or values that there were. -/
theorem forall_entries_foldl_insert {ε : Type v} {P : α → Prop} (key : ε → String) (value : ε → α) {es : List ε}
    {d : Dict α} (hd : ∀ e ∈ d.entries, P e.2) (he : ∀ e ∈ es, P (value e)) :
    ∀ e ∈ (es.foldl (fun d e => d.insert (key e) (value e)) d).entries, P e.2 := by
  induction es generalizing d with
  | nil => exact hd
  | cons x es ih =>
    refine ih (fun e h => ?_) fun e h => he e (List.mem_cons_of_mem _ h)
    rcases mem_entries_insert h with rfl | h
    · exact he x (List.mem_cons_self ..)
    · exact hd e h

/-- The keys after a removal are the other keys, in their order. -/
theorem keys_erase (d : Dict α) (k : String) : (d.erase k).keys = d.keys.filter (· != k) := by
  simp [keys, erase, List.filter_map, Function.comp_def]

theorem distinct_empty : (∅ : Dict α).Distinct := List.Pairwise.nil

theorem Distinct.insert {d : Dict α} (h : d.Distinct) (k : String) (v : α) :
    (d.insert k v).Distinct := by
  unfold Distinct at h ⊢
  rw [keys_insert]
  split
  · exact h
  · next hk => exact List.nodup_append.mpr ⟨h, by simp, by simpa using fun a ha (e : a = k) => hk (e ▸ ha)⟩

theorem Distinct.erase {d : Dict α} (h : d.Distinct) (k : String) : (d.erase k).Distinct := by
  unfold Distinct at h ⊢
  rw [keys_erase]
  exact h.filter _

/-- However often a key comes in a list of entries, the dictionary has it once. -/
theorem distinct_ofList (es : List (String × α)) : (ofList es).Distinct := by
  have fold (es : List (String × α)) {d : Dict α} (h : d.Distinct) :
      (es.foldl (fun d e => d.insert e.1 e.2) d).Distinct := by
    induction es generalizing d with
    | nil => exact h
    | cons e es ih => exact ih (h.insert e.1 e.2)
  exact fold es distinct_empty

end Dict

end Stencil
