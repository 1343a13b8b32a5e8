import Stencil.Proofs.Tidy
import Mathlib.Data.List.Perm.Subperm
import Std.Data.String.ToInt

/-!
# Loose equality

Values without doubles and maps are loosely equal when their texts are, so that loose equality is an equivalence on
them; without doubles it does not matter which value stands on which side. Main statement: `Value.looseEqual_laws`.
-/

namespace Stencil

/-! ### Lists and dictionaries -/

section

variable {α β : Type} {eq : α → α → Bool} {xs ys : List α}

lemma allPairs_iff : allPairs eq xs ys = true ↔ List.Forall₂ (fun x y => eq x y = true) xs ys := by
  induction xs generalizing ys with
  | nil => cases ys <;> simp [allPairs]
  | cons x xs ih => cases ys <;> simp [allPairs, ih]

/-- Items that are equal in pairs are items of their lists. -/
lemma forall₂_of_allPairs (h : allPairs eq xs ys = true) :
    List.Forall₂ (fun x y => x ∈ xs ∧ y ∈ ys ∧ eq x y = true) xs ys := by
  obtain ⟨length, pairs⟩ := List.forall₂_iff_zip.mp (allPairs_iff.mp h)
  refine List.forall₂_iff_zip.mpr ⟨length, fun paired => ?_⟩
  obtain ⟨hx, hy⟩ := List.of_mem_zip paired
  exact ⟨hx, hy, pairs paired⟩

lemma map_eq_of_allPairs {f : α → β} (h : allPairs eq xs ys = true)
    (items : ∀ x ∈ xs, ∀ y ∈ ys, eq x y = true → f x = f y) : xs.map f = ys.map f := by
  rw [← List.forall₂_eq_eq_eq, List.forall₂_map_left_iff, List.forall₂_map_right_iff]
  exact (forall₂_of_allPairs h).imp fun x y h => items x h.1 y h.2.1 h.2.2

lemma allPairs_symm (items : ∀ x ∈ xs, ∀ y ∈ ys, eq x y = true → eq y x = true) (h : allPairs eq xs ys = true) :
    allPairs eq ys xs = true :=
  allPairs_iff.mpr ((forall₂_of_allPairs h).imp fun x y h => items x h.1 y h.2.1 h.2.2).flip

end

namespace Dict

variable {α : Type} {d e : Dict α} {k : String} {v : α}

/-- Where the keys are distinct, every entry is found. -/
lemma Distinct.get?_of_mem (h : d.Distinct) (hv : (k, v) ∈ d.entries) : d.get? k = some v := by
  obtain ⟨es⟩ := d
  unfold Distinct keys at h
  unfold get?
  dsimp only at h hv ⊢
  induction es with
  | nil => cases hv
  | cons f es ih =>
    obtain ⟨fresh, others⟩ := List.nodup_cons.mp h
    rcases List.mem_cons.mp hv with rfl | later
    · exact List.lookup_cons_self
    · have other : (k == f.1) = false :=
        beq_eq_false_iff_ne.mpr fun same => fresh (same ▸ List.mem_map_of_mem later)
      rw [List.lookup_cons, other]
      exact ih others later

/-- If a dictionary has something for every key of another one of its size, then so has that one for its keys. -/
lemma found_symm {R : α → α → Prop} (hd : d.Distinct) (he : e.Distinct) (size : d.size = e.size)
    (found : ∀ x ∈ d.entries, ∃ w, e.get? x.1 = some w ∧ R x.2 w) :
    ∀ y ∈ e.entries, ∃ v, (y.1, v) ∈ d.entries ∧ R v y.2 := by
  have subset : d.keys ⊆ e.keys := by
    intro k hk
    obtain ⟨x, hx, rfl⟩ := List.mem_map.mp hk
    obtain ⟨w, hw, -⟩ := found x hx
    exact (e.mem_keys_iff x.1).mpr (Option.isSome_of_eq_some hw)
  have lengths : e.keys.length ≤ d.keys.length := by
    rw [keys, keys, List.length_map, List.length_map]
    exact Nat.le_of_eq size.symm
  have same : d.keys.Perm e.keys := (List.subperm_of_subset hd subset).perm_of_length_le lengths
  intro y hy
  obtain ⟨⟨k, v⟩, hx, key⟩ := List.mem_map.mp (same.symm.subset (List.mem_map_of_mem hy))
  obtain ⟨w, hw, related⟩ := found (k, v) hx
  obtain rfl : k = y.1 := key
  obtain rfl : y.2 = w := Option.some.inj ((he.get?_of_mem hy).symm.trans hw)
  exact ⟨v, hx, related⟩

end Dict

namespace Value

variable {σ : Store} {a b c : Value}

/-! ### What a value contains -/

/-- Whether a value stands in another one, at any depth: in a list, in a map under some key, or as the value itself.
An object has no parts: neither its text nor its equality is made of what it keeps. -/
inductive Within (σ : Store) (part : Value) : Value → Prop
  | here : Within σ part part
  | item {r : Ref} {x : Value} : x ∈ (σ.items r).toList → Within σ part x → Within σ part (.list r)
  | entry {r : Ref} {e : String × Value} : e ∈ (σ.entries r).entries → Within σ part e.2 → Within σ part (.map r)

/-- Whether there is no double in a value. -/
def Floatless (σ : Store) (v : Value) : Prop := ∀ x, ¬ Within σ (.float x) v

/-- Whether there is no map in a value. -/
def Mapless (σ : Store) (v : Value) : Prop := ∀ r, ¬ Within σ (.map r) v

lemma floatless_list (r : Ref) : Floatless σ (.list r) ↔ ∀ x ∈ (σ.items r).toList, Floatless σ x := by
  refine ⟨fun h x hx y there => h y (.item hx there), fun h y there => ?_⟩
  cases there with
  | item hx there => exact h _ hx y there

lemma floatless_map (r : Ref) : Floatless σ (.map r) ↔ ∀ e ∈ (σ.entries r).entries, Floatless σ e.2 := by
  refine ⟨fun h e he y there => h y (.entry he there), fun h y there => ?_⟩
  cases there with
  | entry he there => exact h _ he y there

lemma mapless_list (r : Ref) : Mapless σ (.list r) ↔ ∀ x ∈ (σ.items r).toList, Mapless σ x := by
  refine ⟨fun h x hx q there => h q (.item hx there), fun h q there => ?_⟩
  cases there with
  | item hx there => exact h _ hx q there

/-! ### Equal values have equal texts -/

/-- Equality goes down to the parts in pairs, and so does the text. -/
lemma displayWithin_of_equalWithin {depth : Nat} (ha : Floatless σ a) (hb : Floatless σ b) (mapless : Mapless σ a)
    (h : a.equalWithin σ depth b = true) : a.displayWithin σ depth = b.displayWithin σ depth := by
  induction depth using Nat.strongRecOn generalizing a b with
  | _ depth ih =>
    revert h
    fun_cases equalWithin σ depth a b with
    | case1 => exact fun _ => rfl
    | case2 _ p q | case3 _ m n | case7 _ s t | case8 _ r q | case9 r q =>
      intro h
      rw [beq_iff_eq.mp h]
    | case4 _ x | case6 _ x => exact absurd .here (ha x)
    | case5 _ m y => exact absurd .here (hb y)
    | case10 r | case12 _ r => exact absurd .here (mapless r)
    | case11 depth r q =>
      intro h
      rcases Bool.or_eq_true_iff.mp h with same | items
      · rw [beq_iff_eq.mp same]
      · have texts := map_eq_of_allPairs (f := displayWithin σ depth) items fun x hx y hy =>
          ih depth (Nat.lt_succ_self _) ((floatless_list r).mp ha x hx) ((floatless_list q).mp hb y hy)
            ((mapless_list r).mp mapless x hx)
        rw [displayWithin, displayWithin, texts]
    | case13 => exact nofun

/-! ### Equality is symmetric -/

/-- Maps are equal when they have equally many keys and one has an equal value under every key of the other: then so
does the other. -/
lemma equalWithin_symm {depth : Nat} (tidy : σ.Tidy) (ha : Floatless σ a) (hb : Floatless σ b)
    (h : a.equalWithin σ depth b = true) : b.equalWithin σ depth a = true := by
  induction depth using Nat.strongRecOn generalizing a b with
  | _ depth ih =>
    revert h
    fun_cases equalWithin σ depth a b with
    | case1 => exact fun _ => by unfold equalWithin; rfl
    | case2 _ p q | case3 _ m n | case7 _ s t | case8 _ r q | case9 r q | case10 r q =>
      intro h
      rw [beq_iff_eq.mp h]
      unfold equalWithin
      exact beq_self_eq_true _
    | case4 _ x | case6 _ x => exact absurd .here (ha x)
    | case5 _ m y => exact absurd .here (hb y)
    | case11 depth r q =>
      intro h
      rw [equalWithin]
      rcases Bool.or_eq_true_iff.mp h with same | items
      · exact Bool.or_eq_true_iff.mpr (.inl (beq_iff_eq.mpr (beq_iff_eq.mp same).symm))
      · have back := allPairs_symm (fun x hx y hy =>
          ih depth (Nat.lt_succ_self _) ((floatless_list r).mp ha x hx) ((floatless_list q).mp hb y hy)) items
        exact Bool.or_eq_true_iff.mpr (.inr back)
    | case12 depth r q =>
      intro h
      rw [equalWithin]
      rcases Bool.or_eq_true_iff.mp h with same | entries
      · exact Bool.or_eq_true_iff.mpr (.inl (beq_iff_eq.mpr (beq_iff_eq.mp same).symm))
      · obtain ⟨sizes, found⟩ := Bool.and_eq_true_iff.mp entries
        have size : (σ.entries r).size = (σ.entries q).size := beq_iff_eq.mp sizes
        have forth : ∀ e ∈ (σ.entries r).entries, ∃ w, (σ.entries q).get? e.1 = some w ∧
            e.2.equalWithin σ depth w = true ∧ Floatless σ w := by
          intro e he
          have held := List.all_eq_true.mp found e he
          split at held
          · next w hw => exact ⟨w, hw, held, (floatless_map q).mp hb _ (Dict.mem_entries_of_get? hw)⟩
          · cases held
        have back := Dict.found_symm (R := fun v w => v.equalWithin σ depth w = true ∧ Floatless σ w)
          (tidy.entries r) (tidy.entries q) size forth
        refine Bool.or_eq_true_iff.mpr (.inr (Bool.and_eq_true_iff.mpr ⟨beq_iff_eq.mpr size.symm, ?_⟩))
        refine List.all_eq_true.mpr fun e he => ?_
        obtain ⟨v, hv, equal, other⟩ := back e he
        rw [(tidy.entries r).get?_of_mem hv]
        exact ih depth (Nat.lt_succ_self _) ((floatless_map r).mp ha _ hv) other equal
    | case13 => exact nofun

/-! ### Loose equality -/

lemma looseEqual_iff (ha : Floatless σ a) (hb : Floatless σ b) : looseEqual σ a b = true ↔
    a = null ∧ b = null ∨ a ≠ null ∧ b ≠ null ∧ (equal σ a b = true ∨ a.display σ = b.display σ) := by
  fun_cases looseEqual σ a b with
  | case1 => simp
  | case2 b other => simpa using fun same => other same
  | case3 a other => simpa using fun same => other same
  | case4 m n => simp [equal, equalWithin, display, displayWithin, Int64.toInt_inj]
  | case5 m y => exact absurd .here (hb y)
  | case6 x | case7 x => exact absurd .here (ha x)
  | case8 p q => cases p <;> cases q <;> simp [equal, equalWithin, display, displayWithin]
  | case9 s t => simp [equal, equalWithin, display, displayWithin]
  | case10 r q | case11 r q | case12 r q => simp
  | case13 a b notNull notNull' =>
    have unlike : equal σ a b ≠ true := by
      unfold equal
      fun_cases equalWithin σ (σ.cells.size + 1) a b <;> simp_all
    have here : a ≠ null := notNull
    have there : b ≠ null := notNull'
    simp [unlike, here, there]

lemma looseEqual_symm (tidy : σ.Tidy) (ha : Floatless σ a) (hb : Floatless σ b) (h : looseEqual σ a b = true) :
    looseEqual σ b a = true := by
  refine (looseEqual_iff hb ha).mpr ?_
  rcases (looseEqual_iff ha hb).mp h with ⟨hn, hn'⟩ | ⟨hn, hn', structural | texts⟩
  · exact .inl ⟨hn', hn⟩
  · exact .inr ⟨hn', hn, .inl (equalWithin_symm tidy ha hb structural)⟩
  · exact .inr ⟨hn', hn, .inr texts.symm⟩

/-- Values without doubles and maps are loosely equal when both are null, or neither is and their texts are equal. -/
lemma looseEqual_iff_display (ha : Floatless σ a) (hb : Floatless σ b) (mapless : Mapless σ a) :
    looseEqual σ a b = true ↔ a = null ∧ b = null ∨ a ≠ null ∧ b ≠ null ∧ a.display σ = b.display σ := by
  have structural (h : equal σ a b = true) : a.display σ = b.display σ := displayWithin_of_equalWithin ha hb mapless h
  rw [looseEqual_iff ha hb, or_iff_right_of_imp structural]

/-- On values without doubles and maps loose equality is that of texts, except that null is equal only to null, and thus
an equivalence; on values without doubles it is symmetric. The keys of every map that a render meets are distinct. -/
theorem looseEqual_laws (σ : Store) :
    (∀ a b, Floatless σ a → Mapless σ a → Floatless σ b → Mapless σ b →
      (looseEqual σ a b = true ↔ a = null ∧ b = null ∨ a ≠ null ∧ b ≠ null ∧ a.display σ = b.display σ)) ∧
    Equivalence (fun a b : { v // Floatless σ v ∧ Mapless σ v } => looseEqual σ a b = true) ∧
    (σ.Tidy → ∀ a b, Floatless σ a → Floatless σ b → looseEqual σ a b = looseEqual σ b a) := by
  have texts (a b : Value) (ha : Floatless σ a) (ma : Mapless σ a) (hb : Floatless σ b) (_ : Mapless σ b) :=
    looseEqual_iff_display ha hb ma
  refine ⟨texts, ⟨?refl, ?symm, ?trans⟩, fun tidy a b ha hb => ?comm⟩
  case refl =>
    rintro ⟨a, ha, ma⟩
    refine (texts a a ha ma ha ma).mpr ?_
    by_cases null : a = null
    · exact .inl ⟨null, null⟩
    · exact .inr ⟨null, null, rfl⟩
  case symm =>
    rintro ⟨a, ha, ma⟩ ⟨b, hb, mb⟩ h
    refine (texts b a hb mb ha ma).mpr ?_
    rcases (texts a b ha ma hb mb).mp h with ⟨na, nb⟩ | ⟨na, nb, same⟩
    · exact .inl ⟨nb, na⟩
    · exact .inr ⟨nb, na, same.symm⟩
  case trans =>
    rintro ⟨a, ha, ma⟩ ⟨b, hb, mb⟩ ⟨c, hc, mc⟩ h h'
    refine (texts a c ha ma hc mc).mpr ?_
    rcases (texts a b ha ma hb mb).mp h with ⟨na, nb⟩ | ⟨na, nb, same⟩ <;>
      rcases (texts b c hb mb hc mc).mp h' with ⟨nb', nc⟩ | ⟨nb', nc, same'⟩
    · exact .inl ⟨na, nc⟩
    · exact absurd nb nb'
    · exact absurd nb' nb
    · exact .inr ⟨na, nc, same.trans same'⟩
  case comm =>
    exact Bool.eq_iff_iff.mpr ⟨looseEqual_symm tidy ha hb, looseEqual_symm tidy hb ha⟩

/-- A list of a number and null is loosely equal to one of their texts, and maps of them are it on either side. -/
theorem looseEqual_numbers_and_texts :
    let σ : Store := ⟨#[.list #[.int 1, .null], .list #[.str "1", .str "null"], .map ⟨[("k", .list ⟨0⟩)]⟩,
      .map ⟨[("k", .list ⟨1⟩)]⟩]⟩
    looseEqual σ (.list ⟨0⟩) (.list ⟨1⟩) = true ∧
      looseEqual σ (.map ⟨2⟩) (.map ⟨3⟩) = looseEqual σ (.map ⟨3⟩) (.map ⟨2⟩) := by
  intro σ
  have atoms {P : Value → Prop} {x y : Value} (hx : P x) (hy : P y) : ∀ v ∈ [x, y], P v :=
    List.forall_mem_cons.mpr ⟨hx, List.forall_mem_singleton.mpr hy⟩
  have floatless : Floatless σ (.list ⟨0⟩) := (floatless_list _).mpr (atoms nofun nofun)
  have floatless' : Floatless σ (.list ⟨1⟩) := (floatless_list _).mpr (atoms nofun nofun)
  have mapless : Mapless σ (.list ⟨0⟩) := (mapless_list _).mpr (atoms nofun nofun)
  have mapless' : Mapless σ (.list ⟨1⟩) := (mapless_list _).mpr (atoms nofun nofun)
  have tidy : σ.Tidy := by
    have lists := (Store.tidy_empty.newList #[.int 1, .null]).newList #[.str "1", .str "null"]
    have map := lists.newMap (d := ⟨[("k", .list ⟨0⟩)]⟩) (List.pairwise_singleton ..)
    exact map.newMap (d := ⟨[("k", .list ⟨1⟩)]⟩) (List.pairwise_singleton ..)
  obtain ⟨iff, -, comm⟩ := looseEqual_laws σ
  have maps : Floatless σ (.map ⟨2⟩) := (floatless_map _).mpr (List.forall_mem_singleton.mpr floatless)
  have maps' : Floatless σ (.map ⟨3⟩) := (floatless_map _).mpr (List.forall_mem_singleton.mpr floatless')
  have texts : display σ (.list ⟨0⟩) = display σ (.list ⟨1⟩) := by decide +kernel
  exact ⟨(iff _ _ floatless mapless floatless' mapless').mpr (.inr ⟨nofun, nofun, texts⟩), comm tidy _ _ maps maps'⟩

end Value

end Stencil
