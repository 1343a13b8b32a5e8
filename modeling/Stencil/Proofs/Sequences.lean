import Stencil.Proofs.Calls

/-!
# Lists as sequences

What the functions behind the methods of lists do to a sequence, at a position that is one and at one that is not, and
what calls of the methods give. A position is the number of items before it.
-/

namespace Stencil

/-! ### Positions -/

section

variable {α : Type} {xs : List α} {i j : Int64}

lemma exists_item (h : 0 ≤ i.toInt ∧ i.toInt < xs.length) :
    ∃ before x after, xs = before ++ x :: after ∧ i.toInt = before.length := by
  have inside : i.toInt.toNat < xs.length := by omega
  refine ⟨xs.take i.toInt.toNat, xs[i.toInt.toNat], xs.drop (i.toInt.toNat + 1), ?_, ?_⟩
  · rw [← List.drop_eq_getElem_cons inside, List.take_append_drop]
  · rw [List.length_take]
    omega

lemma exists_gap (h : 0 ≤ i.toInt ∧ i.toInt ≤ xs.length) :
    ∃ before after, xs = before ++ after ∧ i.toInt = before.length := by
  refine ⟨xs.take i.toInt.toNat, xs.drop i.toInt.toNat, (List.take_append_drop ..).symm, ?_⟩
  rw [List.length_take]
  omega

lemma exists_part (h : 0 ≤ i.toInt ∧ i.toInt ≤ j.toInt ∧ j.toInt ≤ xs.length) :
    ∃ before part after, xs = before ++ part ++ after ∧ i.toInt = before.length ∧
      j.toInt = (before ++ part).length := by
  have inside : 0 ≤ j.toInt ∧ j.toInt ≤ xs.length := by omega
  obtain ⟨front, after, rfl, upper⟩ := exists_gap inside
  have first : 0 ≤ i.toInt ∧ i.toInt ≤ front.length := by omega
  obtain ⟨before, part, rfl, lower⟩ := exists_gap first
  exact ⟨before, part, after, rfl, lower, upper⟩

end

namespace ListMethods

variable {σ : Store} {i j : Int64} {x y : Value} {before part after xs : List Value}

/-! ### Items -/

lemma itemAt_append (h : i.toInt = before.length) :
    itemAt (before ++ x :: after).toArray i = .ok (before.length, x) := by
  have start : ¬i.toInt < 0 := by omega
  unfold itemAt
  rw [if_neg start, h, Int.toNat_natCast, List.getElem?_toArray,
    List.getElem?_append_right (Nat.le_refl before.length), Nat.sub_self]
  rfl

lemma itemAt_of_outside (h : ¬(0 ≤ i.toInt ∧ i.toInt < xs.length)) :
    ∃ reason, itemAt xs.toArray i = .error reason := by
  have nothing : (if i.toInt < 0 then none else xs.toArray[i.toInt.toNat]?) = none := by
    split
    · rfl
    · rw [List.getElem?_toArray]
      exact List.getElem?_eq_none (by omega)
  unfold itemAt
  rw [nothing]
  exact ⟨_, rfl⟩

lemma setIfInBounds_append :
    (before ++ y :: after).toArray.setIfInBounds before.length x = (before ++ x :: after).toArray := by
  rw [List.setIfInBounds_toArray, List.set_append_right _ _ (Nat.le_refl before.length), Nat.sub_self,
    List.set_cons_zero]

lemma removeAt_append : removeAt (before ++ x :: after).toArray before.length = (before ++ after).toArray := by
  unfold removeAt
  rw [List.eraseIdx_append_of_length_le (Nat.le_refl before.length), Nat.sub_self, List.eraseIdx_cons_zero]

/-! ### Gaps -/

lemma gapAt_append (h : i.toInt = before.length) : gapAt (before ++ after).toArray i = .ok before.length := by
  have inside : 0 ≤ i.toInt ∧ i.toInt ≤ (before ++ after).toArray.size := by
    rw [List.size_toArray, List.length_append]
    omega
  unfold gapAt
  rw [if_pos inside, h, Int.toNat_natCast]

lemma gapAt_of_outside (h : ¬(0 ≤ i.toInt ∧ i.toInt ≤ xs.length)) : ∃ reason, gapAt xs.toArray i = .error reason :=
  ⟨_, if_neg h⟩

lemma insertAt_append (h : i.toInt = before.length) :
    insertAt (before ++ after).toArray i x = .ok (before ++ x :: after).toArray := by
  unfold insertAt
  rw [gapAt_append h]
  show Except.ok ((before ++ after).take before.length ++ x :: (before ++ after).drop before.length).toArray = _
  rw [List.take_left, List.drop_left]

lemma insertAt_of_outside (h : ¬(0 ≤ i.toInt ∧ i.toInt ≤ xs.length)) :
    ∃ reason, insertAt xs.toArray i x = .error reason := by
  obtain ⟨reason, refused⟩ := gapAt_of_outside h
  unfold insertAt
  rw [refused]
  exact ⟨reason, rfl⟩

/-! ### Parts -/

lemma between_append (lower : i.toInt = before.length) (upper : j.toInt = (before ++ part).length) :
    between (before ++ part ++ after).toArray i j = .ok part.toArray := by
  have start : gapAt (before ++ part ++ after).toArray i = .ok before.length := by
    rw [List.append_assoc]
    exact gapAt_append lower
  have stop : gapAt (before ++ part ++ after).toArray j = .ok (before ++ part).length := gapAt_append upper
  have order : ¬(before ++ part).length < before.length := by
    rw [List.length_append]
    omega
  unfold between
  rw [start, stop]
  show (if (before ++ part).length < before.length then _ else _) = _
  rw [if_neg order, List.append_assoc, List.drop_left, List.length_append, Nat.add_sub_cancel_left, List.take_left]
  rfl

lemma between_of_outside (h : ¬(0 ≤ i.toInt ∧ i.toInt ≤ j.toInt ∧ j.toInt ≤ xs.length)) :
    ∃ reason, between xs.toArray i j = .error reason := by
  unfold between
  by_cases lower : 0 ≤ i.toInt ∧ i.toInt ≤ xs.length
  · obtain ⟨before, after, rfl, start⟩ := exists_gap lower
    rw [gapAt_append start]
    by_cases upper : 0 ≤ j.toInt ∧ j.toInt ≤ (before ++ after).length
    · obtain ⟨front, rest, same, stop⟩ := exists_gap upper
      rw [same, gapAt_append stop]
      exact ⟨_, if_pos (show front.length < before.length by omega)⟩
    · obtain ⟨reason, refused⟩ := gapAt_of_outside upper
      rw [refused]
      exact ⟨reason, rfl⟩
  · obtain ⟨reason, refused⟩ := gapAt_of_outside lower
    rw [refused]
    exact ⟨reason, rfl⟩

/-! ### Searches -/

/-- Where the first of some items stands that is loosely equal to a value. -/
inductive FirstEqual (σ : Store) (x : Value) : List Value → Option Nat → Prop
  | found {before : List Value} {y : Value} {after : List Value} : y.looseEqual σ x = true →
    (∀ z ∈ before, z.looseEqual σ x = false) → FirstEqual σ x (before ++ y :: after) (some before.length)
  | nowhere {xs : List Value} : (∀ z ∈ xs, z.looseEqual σ x = false) → FirstEqual σ x xs none

lemma firstEqual_indexOf? (σ : Store) (x : Value) (xs : List Value) :
    FirstEqual σ x xs (indexOf? σ xs.toArray x) := by
  show FirstEqual σ x xs (xs.findIdx? (·.looseEqual σ x))
  cases found : xs.findIdx? (·.looseEqual σ x) with
  | some k =>
    obtain ⟨inside, equal, first⟩ := List.findIdx?_eq_some_iff_getElem.mp found
    have length : (xs.take k).length = k := List.length_take_of_le (Nat.le_of_lt inside)
    have split : FirstEqual σ x (xs.take k ++ xs[k] :: xs.drop (k + 1)) (some (xs.take k).length) := by
      refine .found equal fun z hz => ?_
      obtain ⟨j, hj, rfl⟩ := List.mem_take_iff_getElem.mp hz
      exact Bool.eq_false_iff.mpr (first j (by omega))
    rw [← List.drop_eq_getElem_cons inside, List.take_append_drop, length] at split
    exact split
  | none => exact .nowhere (List.findIdx?_eq_none_iff.mp found)

end ListMethods

/-! ### Calls -/

/-- What is done gives its answer and the store afterwards, and leaves the store as it was if it fails. -/
def Store.settled (σ : Store) : Except String (Value × Store) → Except String Value × Store
  | .ok (v, σ') => (.ok v, σ')
  | .error reason => (.error reason, σ)

namespace Render

variable {env : RenderEnv} {s : RenderState} {r : Ref}

/-- Whether a call of a list does such a thing to the store, or fails. -/
def Settles (env : RenderEnv) (s : RenderState) (r : Ref) (name : String) (args : List Value)
    (e : Except String (Value × Store)) : Prop :=
  Responds env s (.list r) name args (s.store.settled e).1 (s.store.settled e).2

/-- Whether a call changes the items of a list, or fails. -/
def Changes (env : RenderEnv) (s : RenderState) (r : Ref) (name : String) (args : List Value)
    (e : Except String (Value × Array Value)) : Prop :=
  Settles env s r name args (e >>= fun p => return (p.1, s.store.set r (.list p.2)))

lemma settles_of_resolve {name : String} {args : List Value} {choice : MemberChoice}
    {e : Except String (Value × Store)} (hs : s.Recalls env.types)
    (hq : (MemberRequest.of s.store (.list r) .method name args).resolve env.types = .ok choice)
    (named : choice.member = name)
    (hi : choice.invoke env.types (.list r) name args s.store = s.store.settled e) : Settles env s r name args e :=
  responds_of_resolve hs hq named hi

variable (hs : s.Recalls env.types) (r : Ref) (i j : Int64) (x : Value)
include hs

lemma responds_get : Responds env s (.list r) "get" [.int i]
    ((ListMethods.itemAt (s.store.items r) i).map Prod.snd) s.store := by
  refine responds_of_resolve hs rfl rfl (Prod.ext ?_ rfl)
  show (ListMethods.itemAt (s.store.items r) i >>= fun p => return p.2) = _
  cases ListMethods.itemAt (s.store.items r) i <;> rfl

lemma responds_contains_item : Responds env s (.list r) "contains" [x]
    (.ok (.bool (ListMethods.indexOf? s.store (s.store.items r) x).isSome)) s.store := by
  cases x <;> exact responds_of_resolve hs rfl rfl rfl

lemma responds_indexOf_item : Responds env s (.list r) "indexOf" [x]
    (match ListMethods.indexOf? s.store (s.store.items r) x with
    | some k => Except.ok (.ofNat k)
    | none => Except.ok (.int (-1))) s.store := by
  cases x <;> exact responds_of_resolve hs rfl rfl rfl

lemma changes_add : Changes env s r "add" [x] (.ok (.bool true, (s.store.items r).push x)) := by
  cases x <;> exact settles_of_resolve hs rfl rfl rfl

lemma changes_insert : Changes env s r "add" [.int i, x]
    (ListMethods.insertAt (s.store.items r) i x >>= fun ys => return (.null, ys)) := by
  cases x <;> exact settles_of_resolve hs rfl rfl rfl

lemma changes_set : Changes env s r "set" [.int i, x]
    (ListMethods.itemAt (s.store.items r) i >>= fun p => return (p.2, (s.store.items r).setIfInBounds p.1 x)) := by
  cases x <;> exact settles_of_resolve hs rfl rfl rfl

lemma changes_addAll (q : Ref) : Changes env s r "addAll" [.list q]
    (.ok (.bool !(s.store.items q).isEmpty, s.store.items r ++ s.store.items q)) :=
  settles_of_resolve hs rfl rfl rfl

lemma changes_removeAt : Changes env s r "remove" [.int i]
    (ListMethods.itemAt (s.store.items r) i >>= fun p => return (p.2, ListMethods.removeAt (s.store.items r) p.1)) :=
  settles_of_resolve hs rfl rfl rfl

lemma changes_remove (h : ∀ i, x ≠ .int i) : Changes env s r "remove" [x]
    (match ListMethods.indexOf? s.store (s.store.items r) x with
    | some k => .ok (.bool true, ListMethods.removeAt (s.store.items r) k)
    | none => .ok (.bool false, s.store.items r)) := by
  cases x with
  | int i => exact absurd rfl (h i)
  | _ => exact settles_of_resolve hs rfl rfl rfl

lemma changes_clear : Changes env s r "clear" [] (.ok (.null, #[])) :=
  settles_of_resolve hs rfl rfl rfl

lemma settles_subList : Settles env s r "subList" [.int i, .int j]
    (ListMethods.between (s.store.items r) i j >>= fun part => return s.store.newList part) :=
  settles_of_resolve hs rfl rfl rfl

end Render

end Stencil
