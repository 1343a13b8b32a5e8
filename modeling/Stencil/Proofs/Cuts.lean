import Stencil.Proofs.Indexing
import Stencil.Proofs.Occurrences

/-!
# Cutting texts

Whatever is cut out of a text, nothing is lost: a substring and what is left beside it give the text back, and so do
the parts between the occurrences of a separator. Main statement: `Render.cuts_lose_nothing`.
-/

namespace Stencil

/-! ### Parts between separators -/

namespace Text

variable {t s : List Char}

lemma infix_iff : t <:+: s ↔ ∃ i, StandsAt t s i := by
  constructor
  · rintro ⟨before, after, rfl⟩
    refine ⟨before.length, ?_, ?_⟩
    · rw [List.length_append, List.length_append]
      omega
    · rw [List.append_assoc, List.drop_left]
      exact List.prefix_append t after
  · rintro ⟨i, -, start⟩
    exact start.isInfix.trans (s.drop_suffix i).isInfix

/-- What stands in the beginning of a text stands in the text, and ends in the beginning. -/
lemma StandsAt.of_take {i k : Nat} (h : StandsAt t (s.take i) k) (full : t ≠ []) : StandsAt t s k ∧ k < i := by
  obtain ⟨inside, start⟩ := h
  rw [List.drop_take] at start
  have short := start.length_le
  have long := List.length_pos_iff.mpr full
  rw [List.length_take] at inside short
  exact ⟨⟨by omega, start.trans (List.take_prefix _ _)⟩, by omega⟩

lemma not_infix_of_mem_splitOn (full : t ≠ []) : ∀ part ∈ splitOn t s, ¬t <:+: part := by
  fun_induction splitOn t s with
  | case1 s empty => exact absurd empty full
  | case2 s _ nowhere =>
    intro part hpart
    obtain rfl := List.mem_singleton.mp hpart
    have first := firstAt_find? t part
    rw [nowhere] at first
    cases first with
    | nowhere nowhere => exact fun there => (infix_iff.mp there).elim nowhere
  | case3 s _ i found ih =>
    have first := firstAt_find? t s
    rw [found] at first
    cases first with
    | found _ least =>
      rintro part (_ | ⟨_, later⟩)
      · intro there
        obtain ⟨k, stands⟩ := infix_iff.mp there
        obtain ⟨earlier, before⟩ := stands.of_take full
        exact least k before earlier
      · exact ih part later

lemma ofList_intercalate (u : String) (parts : List (List Char)) :
    String.ofList (u.toList.intercalate parts) = u.intercalate (parts.map .ofList) := by
  rw [← String.toList_inj, String.toList_ofList, String.toList_intercalate, List.map_map]
  congr 1
  exact (List.map_id'' (fun _ => String.toList_ofList) parts).symm

end Text

namespace Render

variable {env : RenderEnv} {s : RenderState} {text : String} {i j : Int64}

/-! ### Substrings -/

/-- What a substring between two positions is: the part of the text that stands there, where the positions are
positions of the text in order, and else a failure. -/
inductive Cuts (text : String) (i j : Int64) : Except String Value → Prop
  | inside {before part after : String} : text = before ++ part ++ after → before.length = i.toInt →
    part.length = j.toInt - i.toInt → Cuts text i j (.ok (.str part))
  | outside {reason : String} : ¬(0 ≤ i.toInt ∧ i.toInt ≤ j.toInt ∧ j.toInt ≤ text.length) →
    Cuts text i j (.error reason)

lemma cuts_substring_to (hs : s.Recalls env.types) (text : String) (i j : Int64) :
    ∃ result, Responds env s (.str text) "substring" [.int i, .int j] result s.store ∧ Cuts text i j result := by
  refine ⟨_, responds_substring_to hs text i j, ?_⟩
  have length : text.toList.length = text.length := String.length_toList
  by_cases inside : 0 ≤ i.toInt ∧ i.toInt ≤ j.toInt ∧ j.toInt ≤ text.length
  · rw [StringMethods.substring_to_of_inside (by omega)]
    have whole : text = .ofList (text.toList.take i.toInt.toNat) ++
        .ofList ((text.toList.drop i.toInt.toNat).take (j.toInt.toNat - i.toInt.toNat)) ++
        .ofList ((text.toList.drop i.toInt.toNat).drop (j.toInt.toNat - i.toInt.toNat)) := by
      rw [← String.ofList_append, ← String.ofList_append, List.append_assoc, List.take_append_drop,
        List.take_append_drop, String.ofList_toList]
    refine .inside whole ?_ ?_
    · rw [String.length_ofList, List.length_take]
      omega
    · rw [String.length_ofList, List.length_take, List.length_drop]
      omega
  · have outside : ¬(0 ≤ i.toInt ∧ i.toInt ≤ j.toInt ∧ j.toInt ≤ text.toList.length) := by
      rwa [length]
    obtain ⟨reason, refused⟩ := StringMethods.substring_to_of_outside outside
    rw [refused]
    exact .outside inside

/-- What stands before a position and what stands from there on are the text. -/
lemma joins_substrings (hs : s.Recalls env.types) (inside : 0 ≤ i.toInt ∧ i.toInt ≤ text.length) :
    ∃ before after, Responds env s (.str text) "substring" [.int 0, .int i] (.ok (.str before)) s.store ∧
      Responds env s (.str text) "substring" [.int i] (.ok (.str after)) s.store ∧ before ++ after = text := by
  have length : text.toList.length = text.length := String.length_toList
  have zero : (0 : Int64).toInt = 0 := rfl
  have before := responds_substring_to hs text 0 i
  rw [StringMethods.substring_to_of_inside (by omega), zero] at before
  have after := responds_substring hs text i
  rw [StringMethods.substring_of_inside (by omega)] at after
  refine ⟨_, _, before, after, ?_⟩
  rw [← String.ofList_append]
  show String.ofList (text.toList.take i.toInt.toNat ++ text.toList.drop i.toInt.toNat) = text
  rw [List.take_append_drop, String.ofList_toList]

/-! ### Characters -/

/-- Whether the references to a text by this index read a value, whatever the texts and expressions in which they
stand. -/
def ReadsCharacter (env : RenderEnv) (s : RenderState) (text : String) (i : Int64) (v : Value) : Prop :=
  ∀ (eval : Expr → Render Value) (x : Reference) (e : Expr) (p : Position) (t : RenderState) (lenient : Bool),
    x.segments = [⟨.index e, p⟩] → s.get? x.root = some (.str text) → eval e env s = .ok (.int i) t →
    reference eval x lenient env s = .ok v t

/-- What the character at a position is: the substring up to the next position and the item of that index, where the
position is one of a character, and else a failure. -/
inductive Picks (env : RenderEnv) (s : RenderState) (text : String) (i : Int64) : Except String Value → Prop
  | inside {c : Char} : 0 ≤ i.toInt → i.toInt < text.length →
    (∀ j : Int64, j.toInt = i.toInt + 1 →
      Responds env s (.str text) "substring" [.int i, .int j] (.ok (.str (.singleton c))) s.store) →
    ReadsCharacter env s text i (.str (.singleton c)) → Picks env s text i (.ok (.str (.singleton c)))
  | outside {reason : String} : ¬(0 ≤ i.toInt ∧ i.toInt < text.length) → Picks env s text i (.error reason)

lemma reads_character {c : Char} (h : 0 ≤ i.toInt) (hc : text.toList[i.toInt.toNat]? = some c) :
    ReadsCharacter env s text i (.str (.singleton c)) := by
  intro eval x e p t lenient hx hv he
  obtain ⟨inside, -⟩ := List.getElem?_eq_some_iff.mp hc
  have place : placeOf? i text.toList.length = some i.toInt.toNat := placeOf?_of_nonneg h (by omega)
  rw [reference_of_segment hx hv rfl, step_index he]
  unfold index
  dsimp only
  rw [place, Option.bind_some, hc]
  rfl

lemma substring_one (hs : s.Recalls env.types) {c : Char} (h : 0 ≤ i.toInt)
    (hc : text.toList[i.toInt.toNat]? = some c) (next : j.toInt = i.toInt + 1) :
    Responds env s (.str text) "substring" [.int i, .int j] (.ok (.str (.singleton c))) s.store := by
  obtain ⟨inside, there⟩ := List.getElem?_eq_some_iff.mp hc
  have one : j.toInt.toNat - i.toInt.toNat = 1 := by omega
  have cut := responds_substring_to hs text i j
  rw [StringMethods.substring_to_of_inside (by omega), one, List.drop_eq_getElem_cons inside, there] at cut
  exact cut

lemma picks_charAt (hs : s.Recalls env.types) (text : String) (i : Int64) :
    ∃ result, Responds env s (.str text) "charAt" [.int i] result s.store ∧ Picks env s text i result := by
  refine ⟨_, responds_charAt hs text i, ?_⟩
  have length : text.toList.length = text.length := String.length_toList
  by_cases inside : 0 ≤ i.toInt ∧ i.toInt < text.length
  · obtain ⟨lower, upper⟩ := inside
    obtain ⟨c, hc⟩ : ∃ c, text.toList[i.toInt.toNat]? = some c :=
      ⟨_, List.getElem?_eq_getElem (by omega)⟩
    rw [StringMethods.charAt_of_getElem? lower hc]
    exact .inside lower upper (fun j next => substring_one hs lower hc next) (reads_character lower hc)
  · have outside : ¬(0 ≤ i.toInt ∧ i.toInt < text.toList.length) := by
      rwa [length]
    obtain ⟨reason, refused⟩ := StringMethods.charAt_of_outside outside
    rw [refused]
    exact .outside inside

/-! ### Parts -/

/-- Cutting a text loses nothing. A substring between two positions is the part that stands there, and fails exactly
where they are not positions of the text in order; what stands before a position and what stands from there on give
the text back. The character at a position is the substring up to the next one and what the index reads. The parts
between the occurrences of a separator that is not empty, in none of which it stands, give the text back when they are
joined by it, and a replacement when they are joined by another text. The empty separator parts all characters. -/
theorem cuts_lose_nothing (hs : s.Recalls env.types) (text : String) :
    (∀ i j : Int64, ∃ result,
      Responds env s (.str text) "substring" [.int i, .int j] result s.store ∧ Cuts text i j result) ∧
    (∀ i : Int64, 0 ≤ i.toInt ∧ i.toInt ≤ text.length →
      ∃ before after, Responds env s (.str text) "substring" [.int 0, .int i] (.ok (.str before)) s.store ∧
        Responds env s (.str text) "substring" [.int i] (.ok (.str after)) s.store ∧ before ++ after = text) ∧
    (∀ i : Int64, ∃ result,
      Responds env s (.str text) "charAt" [.int i] result s.store ∧ Picks env s text i result) ∧
    (∀ t : String, t ≠ "" → ∃ parts : List String,
      (∀ p strict, Answers env s (member (.str text) p .method "split" [.str t] strict) fun v σ =>
        v.Lists (parts.map .str) σ) ∧
      t.intercalate parts = text ∧ (∀ part ∈ parts, ¬t.toList <:+: part.toList) ∧
      ∀ u : String,
        Responds env s (.str text) "replace" [.str t, .str u] (.ok (.str (u.intercalate parts))) s.store) ∧
    ∀ p strict, Answers env s (member (.str text) p .method "split" [.str ""] strict) fun v σ =>
      v.Lists (characters text) σ := by
  refine ⟨cuts_substring_to hs text, fun i inside => joins_substrings hs inside, picks_charAt hs text,
    fun t full => ?_, fun p strict => ?_⟩
  · have separator : t.toList ≠ [] := fun empty => full (String.toList_eq_nil_iff.mp empty)
    have notEmpty : t.toList.isEmpty = false := List.isEmpty_eq_false_iff.mpr separator
    refine ⟨(Text.splitOn t.toList text.toList).map .ofList, fun p strict => ?_, ?_, fun part hpart => ?_, fun u => ?_⟩
    · have answer := answers_split hs text t p strict
      unfold StringMethods.split at answer
      rw [notEmpty, if_neg Bool.false_ne_true] at answer
      rw [List.map_map]
      exact answer
    · rw [← Text.ofList_intercalate, Text.intercalate_splitOn, String.ofList_toList]
    · obtain ⟨cs, hcs, rfl⟩ := List.mem_map.mp hpart
      rw [String.toList_ofList]
      exact Text.not_infix_of_mem_splitOn separator cs hcs
    · have replaced := responds_replace hs text t u
      unfold Text.replace at replaced
      rw [notEmpty, if_neg Bool.false_ne_true, Text.ofList_intercalate] at replaced
      exact replaced
  · have answer := answers_split hs text "" p strict
    have characters : (StringMethods.split "".toList text.toList).map (fun cs => Value.str (.ofList cs)) =
        characters text := List.map_map ..
    rw [characters] at answer
    exact answer

/-- The second character of a text, which takes two bytes. -/
theorem cuts_lose_nothing_accented :
    let env := (Engine.initial .standard).env (.ofTemplates [] id)
    let s := (Engine.initial .standard).start .empty .empty .empty
    s.Recalls env.types ∧ Responds env s (.str "héllo") "charAt" [.int 1] (.ok (.str "é")) s.store ∧
      Responds env s (.str "héllo") "substring" [.int 1, .int 2] (.ok (.str "é")) s.store := by
  intro env s
  have recalls : s.Recalls env.types := .of_nil (ChoiceMemory.sound_empty _) rfl
  have second : Responds env s (.str "héllo") "charAt" [.int 1] (.ok (.str "é")) s.store :=
    responds_charAt recalls "héllo" 1
  obtain ⟨-, -, characters, -⟩ := cuts_lose_nothing recalls "héllo"
  obtain ⟨result, answer, picks⟩ := characters 1
  have same := second.unique answer
  refine ⟨recalls, second, ?_⟩
  cases picks with
  | inside _ _ cut _ =>
    rw [← same]
    exact cut 2 (by decide)
  | outside _ => cases same

end Render

end Stencil
