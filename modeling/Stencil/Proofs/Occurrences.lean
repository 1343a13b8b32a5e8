import Stencil.Engine
import Stencil.Proofs.Rounds
import Stencil.Proofs.Texts

/-!
# Occurrences of one text in another

`indexOf` gives the first position, from some start on, at which a text stands in another, and `contains` tells whether
there is one. Main statement: `Render.finds_first`. Past the end of a text the empty text is found where the search
starts, `Render.found_past_the_end`.
-/

namespace Stencil

/-! ### Positions -/

namespace Text

variable {t cs : List Char} {i start : Nat} {n : Int64}

/-- Whether a text stands at a position of another one: what is left from there on begins with it. -/
def StandsAt (t cs : List Char) (i : Nat) : Prop := i ≤ cs.length ∧ t <+: cs.drop i

lemma standsAt_zero : StandsAt t cs 0 ↔ t <+: cs := and_iff_right (Nat.zero_le _)

lemma standsAt_succ {c : Char} : StandsAt t (c :: cs) (i + 1) ↔ StandsAt t cs i :=
  and_congr_left' Nat.succ_le_succ_iff

lemma standsAt_drop (h : start ≤ cs.length) : StandsAt t (cs.drop start) i ↔ StandsAt t cs (start + i) := by
  unfold StandsAt
  rw [List.length_drop, List.drop_drop]
  exact and_congr_left' (by omega)

/-- The first position at which a text stands, if there is one. -/
inductive FirstAt (t cs : List Char) : Option Nat → Prop
  | found {i : Nat} : StandsAt t cs i → (∀ j < i, ¬StandsAt t cs j) → FirstAt t cs (some i)
  | nowhere : (∀ i, ¬StandsAt t cs i) → FirstAt t cs none

lemma FirstAt.cons {c : Char} {place? : Option Nat} (h : FirstAt t cs place?) (first : ¬t <+: c :: cs) :
    FirstAt t (c :: cs) (place?.map (· + 1)) := by
  have later (i : Nat) (before : ∀ k, i = k + 1 → ¬StandsAt t cs k) : ¬StandsAt t (c :: cs) i := by
    cases i with
    | zero => rwa [standsAt_zero]
    | succ k =>
      rw [standsAt_succ]
      exact before k rfl
  cases h with
  | found stands least =>
    refine .found (standsAt_succ.mpr stands) fun j hj => later j ?_
    rintro k rfl
    exact least k (Nat.lt_of_succ_lt_succ hj)
  | nowhere nowhere => exact .nowhere fun i => later i fun k _ => nowhere k

lemma firstAt_find? (t cs : List Char) : FirstAt t cs (find? t cs) := by
  induction cs with
  | nil =>
    unfold find?
    split
    · next empty =>
      rw [List.isEmpty_iff.mp empty]
      exact .found (standsAt_zero.mpr List.nil_prefix) fun j hj => absurd hj (Nat.not_lt_zero j)
    · next full =>
      refine .nowhere fun i stands => full ?_
      have start : t <+: [] := List.drop_nil ▸ stands.2
      rw [List.prefix_nil.mp start]
      rfl
  | cons c cs ih =>
    unfold find?
    split
    · next start =>
      exact .found (standsAt_zero.mpr (List.isPrefixOf_iff_prefix.mp start)) fun j hj => absurd hj (Nat.not_lt_zero j)
    · next other => exact ih.cons fun start => other (List.isPrefixOf_iff_prefix.mpr start)

/-- The answer of a search: the first position from some start on, and minus one where there is none. -/
inductive FindsFrom (t cs : List Char) (start : Nat) : Value → Prop
  | found {i : Nat} {v : Value} : start ≤ i → StandsAt t cs i → (∀ j, start ≤ j → j < i → ¬StandsAt t cs j) →
    v.Counts i → FindsFrom t cs start v
  | nowhere : (∀ i, start ≤ i → ¬StandsAt t cs i) → FindsFrom t cs start (.int (-1))

/-- A search that starts in the text, or for a text that is not empty, finds the first position. -/
lemma findsFrom_indexFrom (h : t ≠ [] ∨ start ≤ cs.length) :
    FindsFrom t cs start (StringMethods.indexFrom t cs start) := by
  by_cases inside : start ≤ cs.length
  · have first := firstAt_find? t (cs.drop start)
    unfold StringMethods.indexFrom
    generalize find? t (cs.drop start) = place? at first
    have back {i : Nat} (hi : start ≤ i) : StandsAt t cs i ↔ StandsAt t (cs.drop start) (i - start) := by
      rw [standsAt_drop inside, Nat.add_sub_cancel' hi]
    cases first with
    | @found i stands least =>
      dsimp only
      rw [standsAt_drop inside, Nat.add_comm] at stands
      refine .found (Nat.le_add_left start i) stands (fun j hj before => ?_) (Value.counts_ofNat _)
      rw [back hj]
      exact least (j - start) (by omega)
    | nowhere nowhere => exact .nowhere fun i hi => (back hi).not.mpr (nowhere _)
  · have outside : ∀ i, start ≤ i → ¬StandsAt t cs i := fun i hi stands => inside (Nat.le_trans hi stands.1)
    have full : t.isEmpty = false := List.isEmpty_eq_false_iff.mpr (h.resolve_right inside)
    unfold StringMethods.indexFrom
    rw [List.drop_eq_nil_of_le (Nat.le_of_not_le inside), find?, full]
    exact .nowhere outside

/-- The empty text is found wherever the search starts, past the end of the text too. -/
lemma indexFrom_nil (h : cs.length < start) : StringMethods.indexFrom [] cs start = .ofNat start := by
  unfold StringMethods.indexFrom
  rw [List.drop_eq_nil_of_le (Nat.le_of_lt h)]
  exact congrArg Value.ofNat (Nat.zero_add start)

lemma contains_iff : contains t cs = true ↔ ∃ i, StandsAt t cs i := by
  have first := firstAt_find? t cs
  unfold contains
  generalize find? t cs = place? at first
  cases first with
  | found stands _ => exact iff_of_true rfl ⟨_, stands⟩
  | nowhere nowhere => exact iff_of_false Bool.false_ne_true fun ⟨i, stands⟩ => nowhere i stands

/-- The answer of a search is minus one or a position in the text. -/
lemma FindsFrom.inside (h : FindsFrom t cs start (.int n)) : n = -1 ∨ 0 ≤ n.toInt ∧ n.toInt ≤ cs.length := by
  generalize hv : Value.int n = v at h
  cases h with
  | found _ stands _ counts => exact .inr (Value.Counts.toInt_le (hv ▸ counts) stands.1)
  | nowhere _ => exact .inl (Value.int.inj hv)

lemma FindsFrom.nonneg_iff (h : FindsFrom t cs 0 (.int n)) : 0 ≤ n.toInt ↔ ∃ i, StandsAt t cs i := by
  generalize hv : Value.int n = v at h
  cases h with
  | @found i _ _ stands _ counts => exact iff_of_true (Value.Counts.toInt_le (hv ▸ counts) stands.1).1 ⟨i, stands⟩
  | nowhere nowhere =>
    obtain rfl := Value.int.inj hv
    exact iff_of_false (by decide) fun ⟨i, stands⟩ => nowhere i (Nat.zero_le i) stands

lemma FindsFrom.exists_int {v : Value} (h : FindsFrom t cs start v) : ∃ n, v = .int n := by
  cases h with
  | found _ _ _ counts =>
    obtain ⟨n, rfl, -⟩ := counts
    exact ⟨n, rfl⟩
  | nowhere _ => exact ⟨-1, rfl⟩

end Text

/-! ### Searches -/

namespace Render

variable {env : RenderEnv} {s : RenderState}

/-- A text stands at a position of another one if the substring from there on starts with it. -/
lemma standsAt_iff (hs : s.Recalls env.types) (text t : String) {i : Int64} (hi : 0 ≤ i.toInt) :
    Text.StandsAt t.toList text.toList i.toInt.toNat ↔
      ∃ part, Responds env s (.str text) "substring" [.int i] (.ok (.str part)) s.store ∧
        Responds env s (.str part) "startsWith" [.str t] (.ok (.bool true)) s.store := by
  have cut := responds_substring hs text i
  by_cases inside : i.toInt ≤ text.toList.length
  · rw [StringMethods.substring_of_inside ⟨hi, inside⟩] at cut
    have start := responds_startsWith hs (.ofList (text.toList.drop i.toInt.toNat)) t
    rw [String.toList_ofList] at start
    constructor
    · rintro ⟨-, stands⟩
      rw [List.isPrefixOf_iff_prefix.mpr stands] at start
      exact ⟨_, cut, start⟩
    · rintro ⟨part, cut', start'⟩
      obtain rfl : String.ofList _ = part := Value.str.inj (Except.ok.inj (cut'.unique cut))
      have same := Value.bool.inj (Except.ok.inj (start'.unique start))
      exact ⟨by omega, List.isPrefixOf_iff_prefix.mp same⟩
  · obtain ⟨reason, refused⟩ := StringMethods.substring_of_outside fun h => inside h.2
    rw [refused] at cut
    refine iff_of_false (fun stands => inside (by have := stands.1; omega)) ?_
    rintro ⟨part, cut', -⟩
    cases cut'.unique cut

/-- `indexOf` finds the first occurrence. Wherever it starts, it answers the least position from there on at which the
text stands, and minus one where there is none; an answer that is not minus one can be cut at. Without a start it
searches from the first character, and finds something exactly when `contains` says so. Only the empty text is not
searched for past the end: it is found wherever the search starts. -/
theorem finds_first (hs : s.Recalls env.types) (text t : String) :
    (∀ start : Int64, t ≠ "" ∨ start.toInt ≤ text.length →
      ∃ n, Responds env s (.str text) "indexOf" [.str t, .int start] (.ok (.int n)) s.store ∧
        Text.FindsFrom t.toList text.toList start.toInt.toNat (.int n)) ∧
    (∀ start : Int64, t = "" → text.length < start.toInt →
      Responds env s (.str text) "indexOf" [.str t, .int start] (.ok (.int start)) s.store) ∧
    (∃ n b, Responds env s (.str text) "indexOf" [.str t] (.ok (.int n)) s.store ∧
      Text.FindsFrom t.toList text.toList 0 (.int n) ∧
      Responds env s (.str text) "contains" [.str t] (.ok (.bool b)) s.store ∧ (b = true ↔ 0 ≤ n.toInt)) ∧
    (∀ start n, Text.FindsFrom t.toList text.toList start (.int n) → n ≠ -1 →
      ∃ part, Responds env s (.str text) "substring" [.int n] (.ok (.str part)) s.store) ∧
    ∀ i : Int64, 0 ≤ i.toInt → (Text.StandsAt t.toList text.toList i.toInt.toNat ↔
      ∃ part, Responds env s (.str text) "substring" [.int i] (.ok (.str part)) s.store ∧
        Responds env s (.str part) "startsWith" [.str t] (.ok (.bool true)) s.store) := by
  have length : text.toList.length = text.length := String.length_toList
  refine ⟨fun start h => ?_, fun start empty past => ?_, ?_, fun start n finds other => ?_,
    fun i hi => standsAt_iff hs text t hi⟩
  · have bounded : t.toList ≠ [] ∨ start.toInt.toNat ≤ text.toList.length :=
      h.imp (mt String.toList_eq_nil_iff.mp) fun inside => by omega
    have finds : Text.FindsFrom t.toList text.toList start.toInt.toNat _ := Text.findsFrom_indexFrom bounded
    obtain ⟨n, answer⟩ := finds.exists_int
    rw [answer] at finds
    exact ⟨n, answer ▸ responds_indexOf_from hs text t start, finds⟩
  · subst empty
    have found := responds_indexOf_from hs text "" start
    rw [String.toList_empty, Text.indexFrom_nil (by omega), Value.ofNat_toNat (by omega)] at found
    exact found
  · have finds : Text.FindsFrom t.toList text.toList 0 _ := Text.findsFrom_indexFrom (.inr (Nat.zero_le _))
    obtain ⟨n, answer⟩ := finds.exists_int
    rw [answer] at finds
    refine ⟨n, _, answer ▸ responds_indexOf hs text t, finds, responds_contains hs text t, ?_⟩
    rw [Text.contains_iff, finds.nonneg_iff]
  · have cut := responds_substring hs text n
    rw [StringMethods.substring_of_inside (finds.inside.resolve_left other)] at cut
    exact ⟨_, cut⟩

/-- The second `l` of a text whose second character takes two bytes. -/
theorem finds_first_accented :
    let env := (Engine.initial .standard).env (.ofTemplates [] id)
    let s := (Engine.initial .standard).start .empty .empty .empty
    s.Recalls env.types ∧ Responds env s (.str "héllo") "indexOf" [.str "l", .int 3] (.ok (.int 3)) s.store := by
  intro env s
  have recalls : s.Recalls env.types := .of_nil (ChoiceMemory.sound_empty _) rfl
  obtain ⟨n, answer, finds⟩ := (finds_first recalls "héllo" "l").1 3 (.inl (by decide))
  have there : Text.StandsAt "l".toList "héllo".toList 3 := ⟨by decide, by decide⟩
  refine ⟨recalls, ?_⟩
  cases finds with
  | @found i _ start _ least counts =>
    have start : 3 ≤ i := start
    obtain rfl : i = 3 := Nat.le_antisymm (Nat.le_of_not_lt fun past => least 3 (Nat.le_refl 3) past there) start
    obtain ⟨w, same, count⟩ := counts
    obtain rfl := Value.int.inj same
    obtain rfl : n = 3 := Int64.toInt_inj.mp (count.trans (by decide))
    exact answer
  | nowhere nowhere => exact absurd there (nowhere 3 (Nat.le_refl 3))

/-- The empty text is found past the end of a text, where there is no position. -/
theorem found_past_the_end :
    let r := (Engine.initial .standard).renderText (.ofTemplates [] id) "#set($s = 'abc')$s.indexOf('', 5)"
      .empty .empty .empty
    (∀ i, 5 ≤ i → ¬Text.StandsAt "".toList "abc".toList i) ∧ r.halt.isNone ∧ r.sink.written = "5" := by
  intro r
  refine ⟨fun i hi stands => ?_, by decide +kernel, by decide +kernel⟩
  have short : i ≤ 3 := stands.1
  omega

end Render

end Stencil
