import Mathlib.Data.List.Forall2
import Mathlib.Tactic.Lemma
import Stencil.Value.Equality

/-!
# Data

What can be written down as a literal: nothing, truth values, whole numbers, texts, and lists and entries of
these to any depth. Main statement: `Datum.Is.equalWithin`, values that are the same datum are equal.
-/

namespace Stencil

/-- A value that can be written down. -/
inductive Datum where
  | null
  | bool (b : Bool)
  | int (n : Int64)
  | str (s : String)
  | list (items : List Datum)
  | map (entries : List (String × Datum))

namespace Datum

/-- What holds of a list when it holds of its items, and of a map when it holds of what its keys have, holds of
all data. -/
@[induction_eliminator]
theorem induct {P : Datum → Prop} (null : P .null) (bool : ∀ b, P (.bool b)) (int : ∀ n, P (.int n))
    (str : ∀ s, P (.str s)) (list : ∀ items, (∀ d ∈ items, P d) → P (.list items))
    (map : ∀ entries, (∀ e ∈ entries, P e.2) → P (.map entries)) : ∀ d, P d :=
  Datum.rec null bool int str list map nofun
    (fun _ _ head tail => List.forall_mem_cons.mpr ⟨head, tail⟩) nofun
    (fun _ _ head tail => List.forall_mem_cons.mpr ⟨head, tail⟩) fun _ _ h => h

/-! ### Literals -/

/-- A character of a text between single quotes: a quote is written twice. -/
def doubled (c : Char) : List Char := if c = '\'' then ['\'', '\''] else [c]

def quoted (s : String) : List Char := '\'' :: s.toList.flatMap doubled ++ ['\'']

mutual

/-- The literal of a datum. -/
def literal : Datum → List Char
  | null => "null".toList
  | bool b => (toString b).toList
  | int n => (toString n.toInt).toList
  | str s => quoted s
  | list items => '[' :: ", ".toList.intercalate (literals items) ++ [']']
  | map entries => '\x7b' :: ", ".toList.intercalate (entryLiterals entries) ++ ['\x7d']

def literals : List Datum → List (List Char)
  | [] => []
  | d :: ds => d.literal :: literals ds

def entryLiterals : List (String × Datum) → List (List Char)
  | [] => []
  | (key, d) :: es => (quoted key ++ ": ".toList ++ d.literal) :: entryLiterals es

end

mutual

/-- Whether the literal of a datum stands for it: its numbers have a positive counterpart, and no two of its
keys in one map are the same. -/
def isProper : Datum → Bool
  | null | bool _ | str _ => true
  | int n => n != Int64.minValue
  | list items => areProper items
  | map entries => decide (entries.map Prod.fst).Nodup && entriesProper entries

def areProper : List Datum → Bool
  | [] => true
  | d :: ds => d.isProper && areProper ds

def entriesProper : List (String × Datum) → Bool
  | [] => true
  | (_, d) :: es => d.isProper && entriesProper es

end

mutual

/-- How deep lists and maps are nested in a datum. -/
def height : Datum → Nat
  | null | bool _ | int _ | str _ => 0
  | list items => itemsHeight items + 1
  | map entries => entriesHeight entries + 1

def itemsHeight : List Datum → Nat
  | [] => 0
  | d :: ds => max d.height (itemsHeight ds)

def entriesHeight : List (String × Datum) → Nat
  | [] => 0
  | (_, d) :: es => max d.height (entriesHeight es)

end

lemma literals_eq (ds : List Datum) : literals ds = ds.map literal := by
  induction ds with
  | nil => rfl
  | cons d ds ih => rw [literals, ih, List.map_cons]

lemma entryLiterals_eq (es : List (String × Datum)) :
    entryLiterals es = es.map fun e => quoted e.1 ++ ": ".toList ++ e.2.literal := by
  induction es with
  | nil => rfl
  | cons e es ih => rw [entryLiterals, ih, List.map_cons]

lemma isProper_of_mem {ds : List Datum} (h : (list ds).isProper) : ∀ d ∈ ds, d.isProper := by
  have all : areProper ds = ds.all isProper := by
    clear h
    induction ds with
    | nil => rfl
    | cons d ds ih => rw [areProper, ih, List.all_cons]
  exact List.all_eq_true.mp (all ▸ h)

lemma isProper_of_entry {es : List (String × Datum)} (h : (map es).isProper) :
    (es.map Prod.fst).Nodup ∧ ∀ e ∈ es, e.2.isProper := by
  have all : entriesProper es = es.all fun e => e.2.isProper := by
    clear h
    induction es with
    | nil => rfl
    | cons e es ih => rw [entriesProper, ih, List.all_cons]
  obtain ⟨distinct, proper⟩ := Bool.and_eq_true_iff.mp h
  exact ⟨of_decide_eq_true distinct, List.all_eq_true.mp (all ▸ proper)⟩

lemma height_lt_of_mem {ds : List Datum} {d : Datum} (h : d ∈ ds) : d.height < (list ds).height := by
  apply Nat.lt_succ_of_le
  induction h with
  | head ds => exact Nat.le_max_left ..
  | tail e _ ih => exact Nat.le_trans ih (Nat.le_max_right ..)

lemma height_lt_of_entry {es : List (String × Datum)} {e : String × Datum} (h : e ∈ es) :
    e.2.height < (map es).height := by
  apply Nat.lt_succ_of_le
  induction h with
  | head es => exact Nat.le_max_left ..
  | tail f _ ih => exact Nat.le_trans ih (Nat.le_max_right ..)

lemma itemsHeight_le {ds : List Datum} {n : Nat} (h : ∀ d ∈ ds, d.height ≤ n) : itemsHeight ds ≤ n := by
  induction ds with
  | nil => exact Nat.zero_le n
  | cons d ds ih =>
    obtain ⟨here, later⟩ := List.forall_mem_cons.mp h
    exact Nat.max_le.mpr ⟨here, ih later⟩

lemma entriesHeight_le {es : List (String × Datum)} {n : Nat} (h : ∀ e ∈ es, e.2.height ≤ n) :
    entriesHeight es ≤ n := by
  induction es with
  | nil => exact Nat.zero_le n
  | cons e es ih =>
    obtain ⟨here, later⟩ := List.forall_mem_cons.mp h
    exact Nat.max_le.mpr ⟨here, ih later⟩

lemma length_le_intercalate {sep l : List Char} {ls : List (List Char)} (h : l ∈ ls) :
    l.length ≤ (sep.intercalate ls).length := by
  have inside : l ∈ ls.intersperse sep := by
    induction ls with
    | nil => cases h
    | cons m ls ih =>
      cases ls with
      | nil => exact h
      | cons m' ls =>
        rw [List.intersperse_cons_cons]
        rcases List.mem_cons.mp h with rfl | later
        · exact List.mem_cons_self ..
        · exact List.mem_cons_of_mem _ (List.mem_cons_of_mem _ (ih later))
  exact (List.sublist_flatten_of_mem inside).length_le

/-- A literal is as long as its datum is high. -/
lemma height_le_length (d : Datum) : d.height ≤ d.literal.length := by
  induction d with
  | null => exact Nat.zero_le _
  | bool b => exact Nat.zero_le _
  | int n => exact Nat.zero_le _
  | str s => exact Nat.zero_le _
  | list ds ih =>
    have inside : itemsHeight ds ≤ (", ".toList.intercalate (literals ds)).length := by
      rw [literals_eq]
      refine itemsHeight_le fun d hd => ?_
      exact Nat.le_trans (ih d hd) (length_le_intercalate (List.mem_map_of_mem hd))
    rw [height, literal, List.length_append, List.length_cons]
    omega
  | map es ih =>
    have inside : entriesHeight es ≤ (", ".toList.intercalate (entryLiterals es)).length := by
      rw [entryLiterals_eq]
      refine entriesHeight_le fun e he => ?_
      have whole := @length_le_intercalate ", ".toList _ _
        (List.mem_map_of_mem (f := fun e => quoted e.1 ++ ": ".toList ++ e.2.literal) he)
      have value := ih e he
      rw [List.length_append] at whole
      omega
    rw [height, literal, List.length_append, List.length_cons]
    omega

/-! ### Values -/

/-- In a store, a datum is what a value stands for: the items of lists and the entries of maps in order. -/
inductive Is (σ : Store) : Datum → Value → Prop
  | null : Is σ .null .null
  | bool (b : Bool) : Is σ (.bool b) (.bool b)
  | int (n : Int64) : Is σ (.int n) (.int n)
  | str (s : String) : Is σ (.str s) (.str s)
  | list {ds xs r} : σ.cell? r = some (.list xs) → List.Forall₂ (Is σ) ds xs.toList → Is σ (.list ds) (.list r)
  | map {es d r} : σ.cell? r = some (.map d) → d.keys = es.map Prod.fst →
    List.Forall₂ (Is σ) (es.map Prod.snd) d.values → Is σ (.map es) (.map r)

end Datum

/-- Every cell of the first store is in the second as it was. -/
def Store.Extends (σ τ : Store) : Prop := ∀ r c, σ.cell? r = some c → τ.cell? r = some c

lemma Store.extends_refl (σ : Store) : σ.Extends σ := fun _ _ h => h

lemma Store.Extends.trans {σ τ υ : Store} (h : σ.Extends τ) (k : τ.Extends υ) : σ.Extends υ :=
  fun r c hc => k r c (h r c hc)

lemma Store.extends_alloc (σ : Store) (c : Cell) : σ.Extends (σ.alloc c).2 := by
  intro r d hd
  have old : r.index < σ.cells.size := (Array.getElem?_eq_some_iff.mp hd).1
  rw [cell?_alloc_of_lt c old, hd]

namespace Datum

variable {σ τ : Store} {d : Datum} {ds : List Datum} {es : List (String × Datum)} {v w : Value}

/-- A value remains the datum that it is while cells are added. -/
lemma Is.extends (h : Is σ d v) (hs : σ.Extends τ) : Is τ d v := by
  induction d generalizing v with
  | null =>
    cases h
    exact .null
  | bool b =>
    cases h
    exact .bool b
  | int n =>
    cases h
    exact .int n
  | str s =>
    cases h
    exact .str s
  | list ds ih =>
    cases h with
    | list cell items =>
      have each := (List.forall₂_and_left ds _).mpr ⟨ih, items⟩
      exact .list (hs _ _ cell) (each.imp fun _ _ h => h.1 h.2)
  | map es ih =>
    cases h with
    | map cell keys values =>
      have all : ∀ d ∈ es.map Prod.snd, ∀ {v}, Is σ d v → Is τ d v := List.forall_mem_map.mpr fun e he => ih e he
      have each := (List.forall₂_and_left _ _).mpr ⟨all, values⟩
      exact .map (hs _ _ cell) keys (each.imp fun _ _ h => h.1 h.2)

/-- Lists of values that are the same data are equal in pairs. -/
lemma allPairs_of_is {eq : Value → Value → Bool} {vs ws : List Value} (hv : List.Forall₂ (Is σ) ds vs)
    (hw : List.Forall₂ (Is σ) ds ws) (h : ∀ d ∈ ds, ∀ v w, Is σ d v → Is σ d w → eq v w) :
    allPairs eq vs ws := by
  induction hv generalizing ws with
  | nil =>
    cases hw
    rfl
  | cons first _ ih =>
    cases hw with
    | cons second others =>
      obtain ⟨here, later⟩ := List.forall_mem_cons.mp h
      exact Bool.and_eq_true_iff.mpr ⟨here _ _ first second, ih others later⟩

/-- The entries of a map are those of the datum in pairs. -/
lemma entries_of_is {fs : List (String × Value)} (keys : fs.map Prod.fst = es.map Prod.fst)
    (values : List.Forall₂ (Is σ) (es.map Prod.snd) (fs.map Prod.snd)) :
    List.Forall₂ (fun e f => f.1 = e.1 ∧ Is σ e.2 f.2) es fs := by
  induction es generalizing fs with
  | nil =>
    obtain rfl := List.map_eq_nil_iff.mp keys
    exact .nil
  | cons e es ih =>
    cases fs with
    | nil => cases keys
    | cons f fs =>
      obtain ⟨key, keys⟩ := List.cons.inj keys
      cases values with
      | cons value values => exact .cons ⟨key, value⟩ (ih keys values)

/-- Where the keys are distinct, each leads to its value. -/
lemma lookup_of_is {fs : List (String × Value)}
    (hf : List.Forall₂ (fun e f => f.1 = e.1 ∧ Is σ e.2 f.2) es fs) (distinct : (es.map Prod.fst).Nodup)
    {e : String × Datum} (he : e ∈ es) : ∃ v, fs.lookup e.1 = some v ∧ Is σ e.2 v := by
  induction hf with
  | nil => cases he
  | @cons e' f es fs first _ ih =>
    obtain ⟨key, value⟩ := first
    obtain ⟨fresh, distinct⟩ := List.nodup_cons.mp distinct
    rcases List.mem_cons.mp he with rfl | later
    · refine ⟨f.2, ?_, value⟩
      rw [List.lookup_cons, key, beq_self_eq_true]
    · obtain ⟨v, found, hv⟩ := ih distinct later
      refine ⟨v, ?_, hv⟩
      have other : (e.1 == f.1) = false := by
        refine beq_eq_false_iff_ne.mpr fun same => fresh ?_
        rw [← key, ← same]
        exact List.mem_map_of_mem later
      rw [List.lookup_cons, other]
      exact found

lemma mem_of_is {fs : List (String × Value)} (hf : List.Forall₂ (fun e f => f.1 = e.1 ∧ Is σ e.2 f.2) es fs)
    {f : String × Value} (h : f ∈ fs) : ∃ e ∈ es, f.1 = e.1 ∧ Is σ e.2 f.2 := by
  induction hf with
  | nil => cases h
  | @cons e f' es fs first _ ih =>
    rcases List.mem_cons.mp h with rfl | later
    · exact ⟨e, List.mem_cons_self .., first⟩
    · obtain ⟨e', he', found⟩ := ih later
      exact ⟨e', List.mem_cons_of_mem _ he', found⟩

/-- Values that are the same datum are equal at every depth that reaches all of it. -/
theorem Is.equalWithin (hp : d.isProper) (hv : Is σ d v) (hw : Is σ d w) {depth : Nat} (hd : d.height ≤ depth) :
    v.equalWithin σ depth w := by
  induction d generalizing v w depth with
  | null =>
    cases hv
    cases hw
    cases depth <;> rfl
  | bool b =>
    cases hv
    cases hw
    cases depth <;> exact beq_self_eq_true b
  | int n =>
    cases hv
    cases hw
    cases depth <;> exact beq_self_eq_true n
  | str s =>
    cases hv
    cases hw
    cases depth <;> exact beq_self_eq_true s
  | list ds ih =>
    obtain ⟨depth, rfl⟩ := Nat.exists_eq_add_one.mpr (Nat.lt_of_lt_of_le (Nat.succ_pos _) hd)
    cases hv with
    | @list _ xs r cell items =>
      cases hw with
      | @list _ ys q cell' items' =>
        have pairs : allPairs (Value.equalWithin σ depth) (σ.items r).toList (σ.items q).toList := by
          rw [Store.items, Store.items, cell, cell']
          refine allPairs_of_is items items' fun d hm v w hv hw => ?_
          have lower := height_lt_of_mem hm
          exact ih d hm (isProper_of_mem hp d hm) hv hw (by omega)
        exact Bool.or_eq_true_iff.mpr (.inr pairs)
  | map es ih =>
    obtain ⟨depth, rfl⟩ := Nat.exists_eq_add_one.mpr (Nat.lt_of_lt_of_le (Nat.succ_pos _) hd)
    obtain ⟨distinct, proper⟩ := isProper_of_entry hp
    cases hv with
    | @map _ m r cell keys values =>
      cases hw with
      | @map _ n q cell' keys' values' =>
        have first : σ.entries r = m := by rw [Store.entries, cell]
        have second : σ.entries q = n := by rw [Store.entries, cell']
        have here := entries_of_is keys values
        have there := entries_of_is keys' values'
        have sizes : m.size = n.size := here.length_eq.symm.trans there.length_eq
        have found : ∀ f ∈ m.entries, ∃ w, n.get? f.1 = some w ∧ f.2.equalWithin σ depth w := by
          intro f hf
          obtain ⟨e, he, key, hv⟩ := mem_of_is here hf
          obtain ⟨w, hw, value⟩ := lookup_of_is there distinct he
          have get : n.get? f.1 = some w := key ▸ hw
          have lower := height_lt_of_entry he
          exact ⟨w, get, ih e he (proper e he) hv value (by omega)⟩
        refine Bool.or_eq_true_iff.mpr (.inr (Bool.and_eq_true_iff.mpr ⟨?_, List.all_eq_true.mpr fun f hf => ?_⟩))
        · rw [first, second]
          exact beq_iff_eq.mpr sizes
        · rw [first] at hf
          obtain ⟨w, get, value⟩ := found f hf
          rw [second, get]
          exact value

end Datum

end Stencil
