import Stencil.Proofs.Calls

/-!
# Methods of texts

What calls of the methods of texts give, and when a substring is refused.
-/

namespace Stencil

namespace StringMethods

variable {cs : List Char} {i j : Int64}

lemma place_of_inside {size : Nat} (h : 0 ≤ i.toInt ∧ i.toInt ≤ size) (what : String) :
    place size i what = .ok i.toInt.toNat :=
  if_pos h

lemma place_of_outside {size : Nat} (h : ¬(0 ≤ i.toInt ∧ i.toInt ≤ size)) (what : String) :
    ∃ reason, place size i what = .error reason :=
  ⟨_, if_neg h⟩

/-- The rest of a text from a position of it on. -/
lemma substring_of_inside (h : 0 ≤ i.toInt ∧ i.toInt ≤ cs.length) :
    substring cs i none = .ok (cs.drop i.toInt.toNat) := by
  have start : ¬cs.length < i.toInt.toNat := by omega
  unfold substring
  rw [place_of_inside h]
  show (if cs.length < i.toInt.toNat then _ else _) = _
  rw [if_neg start, List.take_of_length_le (Nat.le_of_eq List.length_drop)]

lemma substring_of_outside (h : ¬(0 ≤ i.toInt ∧ i.toInt ≤ cs.length)) :
    ∃ reason, substring cs i none = .error reason := by
  obtain ⟨reason, refused⟩ := place_of_outside h "begin index"
  unfold substring
  rw [refused]
  exact ⟨reason, rfl⟩

/-- The part of a text from a position of it up to a later one. -/
lemma substring_to_of_inside (h : 0 ≤ i.toInt ∧ i.toInt ≤ j.toInt ∧ j.toInt ≤ cs.length) :
    substring cs i (some j) = .ok ((cs.drop i.toInt.toNat).take (j.toInt.toNat - i.toInt.toNat)) := by
  have order : ¬j.toInt.toNat < i.toInt.toNat := by omega
  unfold substring
  rw [place_of_inside (by omega)]
  dsimp only [bind, Except.bind]
  rw [place_of_inside (by omega)]
  exact if_neg order

lemma substring_to_of_outside (h : ¬(0 ≤ i.toInt ∧ i.toInt ≤ j.toInt ∧ j.toInt ≤ cs.length)) :
    ∃ reason, substring cs i (some j) = .error reason := by
  unfold substring
  by_cases lower : 0 ≤ i.toInt ∧ i.toInt ≤ cs.length
  · rw [place_of_inside lower]
    dsimp only [bind, Except.bind]
    by_cases upper : 0 ≤ j.toInt ∧ j.toInt ≤ cs.length
    · have order : j.toInt.toNat < i.toInt.toNat := by omega
      rw [place_of_inside upper]
      exact ⟨_, if_pos order⟩
    · obtain ⟨reason, refused⟩ := place_of_outside upper "end index"
      rw [refused]
      exact ⟨reason, rfl⟩
  · obtain ⟨reason, refused⟩ := place_of_outside lower "begin index"
    rw [refused]
    exact ⟨reason, rfl⟩

/-- The character at a position of one. -/
lemma charAt_of_getElem? {c : Char} (h : 0 ≤ i.toInt) (hc : cs[i.toInt.toNat]? = some c) :
    charAt cs i = .ok [c] := by
  unfold charAt
  rw [if_neg (Int.not_lt.mpr h), hc]

lemma charAt_of_outside (h : ¬(0 ≤ i.toInt ∧ i.toInt < cs.length)) :
    ∃ reason, charAt cs i = .error reason := by
  have nothing : (if i.toInt < 0 then none else cs[i.toInt.toNat]?) = none := by
    split
    · rfl
    · exact List.getElem?_eq_none (by omega)
  unfold charAt
  rw [nothing]
  exact ⟨_, rfl⟩

end StringMethods

namespace Render

variable {env : RenderEnv} {s : RenderState} (hs : s.Recalls env.types) (text t u : String) (i j : Int64)
include hs

lemma responds_contains :
    Responds env s (.str text) "contains" [.str t] (.ok (.bool (Text.contains t.toList text.toList))) s.store :=
  responds_of_resolve hs rfl rfl rfl

lemma responds_startsWith :
    Responds env s (.str text) "startsWith" [.str t] (.ok (.bool (t.toList.isPrefixOf text.toList))) s.store :=
  responds_of_resolve hs rfl rfl rfl

lemma responds_indexOf :
    Responds env s (.str text) "indexOf" [.str t] (.ok (StringMethods.indexFrom t.toList text.toList 0)) s.store :=
  responds_of_resolve hs rfl rfl rfl

lemma responds_indexOf_from :
    Responds env s (.str text) "indexOf" [.str t, .int i]
      (.ok (StringMethods.indexFrom t.toList text.toList i.toInt.toNat)) s.store :=
  responds_of_resolve hs rfl rfl rfl

lemma responds_substring :
    Responds env s (.str text) "substring" [.int i]
      ((StringMethods.substring text.toList i none).map fun cs => .str (.ofList cs)) s.store := by
  refine responds_of_resolve hs rfl rfl (Prod.ext ?_ rfl)
  show (StringMethods.substring text.toList i none >>= fun cs => return Value.str (.ofList cs)) = _
  cases StringMethods.substring text.toList i none <;> rfl

lemma responds_substring_to :
    Responds env s (.str text) "substring" [.int i, .int j]
      ((StringMethods.substring text.toList i (some j)).map fun cs => .str (.ofList cs)) s.store := by
  refine responds_of_resolve hs rfl rfl (Prod.ext ?_ rfl)
  show (StringMethods.substring text.toList i (some j) >>= fun cs => return Value.str (.ofList cs)) = _
  cases StringMethods.substring text.toList i (some j) <;> rfl

lemma responds_charAt :
    Responds env s (.str text) "charAt" [.int i]
      ((StringMethods.charAt text.toList i).map fun cs => .str (.ofList cs)) s.store := by
  refine responds_of_resolve hs rfl rfl (Prod.ext ?_ rfl)
  show (StringMethods.charAt text.toList i >>= fun cs => return Value.str (.ofList cs)) = _
  cases StringMethods.charAt text.toList i <;> rfl

lemma responds_replace :
    Responds env s (.str text) "replace" [.str t, .str u]
      (.ok (.str (.ofList (Text.replace t.toList u.toList text.toList)))) s.store :=
  responds_of_resolve hs rfl rfl rfl

lemma answers_split (p : Position) (strict : Bool) :
    Answers env s (member (.str text) p .method "split" [.str t] strict) fun v σ =>
      v.Lists ((StringMethods.split t.toList text.toList).map fun cs => .str (.ofList cs)) σ :=
  answers_of_resolve hs rfl rfl (s.store.extends_alloc _) (lists_newList _ _) p strict

end Render

end Stencil
