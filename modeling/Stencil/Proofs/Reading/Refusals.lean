import Mathlib.Data.List.TakeWhile
import Stencil.Proofs.Reading.Derivation
import Stencil.Proofs.Reading.Elements

/-!
# Where texts are refused

What was tried in vain was tried between two characters of the text. Main statement: `Site.points_refused`, the
failure for a text that is refused points to such a place and shows what stands there.
-/

namespace Stencil

variable {ρ : Type} {text : List Char}

lemma Cursor.In.offset {c : Cursor} (h : c.In text) :
    ∃ front back, text = front ++ back ∧ c.offset = utf8Length front := by
  obtain ⟨front, hr, ho⟩ := h
  exact ⟨front, c.rest, hr, by simpa [Cursor.start] using ho⟩

lemma Matcher.Sound.in {m : Matcher ρ} (hm : m.Sound) {c d : Cursor} {a b : Attempts ρ} {ts : List (Tree ρ)}
    (hc : c.In text) (h : m c a = (some (d, ts), b)) : d.In text := by
  obtain ⟨front, hf⟩ := hc
  obtain ⟨w, hw⟩ := hm c a d ts b h
  exact ⟨_, hf.trans hw⟩

/-! ### What becomes of attempts -/

/-- A relation of attempts to later ones that rules keep which fail in the text. -/
structure Attempts.Kept (text : List Char) (R : Attempts ρ → Attempts ρ → Prop) : Prop where
  refl (a : Attempts ρ) : R a a
  trans {a b c : Attempts ρ} : R a b → R b c → R a c
  failed {a b : Attempts ρ} {c : Cursor} (r : ρ) : c.In text → R a b →
    R a (b.failed c.offset (a.countAt c.offset) r)

/-- A matcher that stays in a relation with the attempts it starts from. -/
def Matcher.Keeps (text : List Char) (R : Attempts ρ → Attempts ρ → Prop) (m : Matcher ρ) : Prop :=
  ∀ c a, c.In text → R a (m c a).2

section Keeping

variable {R : Attempts ρ → Attempts ρ → Prop}

namespace Matcher

variable {m n : Matcher ρ}

variable {c d : Cursor} {a b : Attempts ρ} {ts : List (Tree ρ)}

/-- Of two matchers of which the first reads, the second leaves the attempts. -/
lemma snd_seq (h : m c a = (some (d, ts), b)) : (m.seq n c a).2 = (n d b).2 := by
  unfold Matcher.seq
  rw [h]
  dsimp only
  split
  · next h' => rw [h']
  · next h' => rw [h']

lemma snd_opt (m : Matcher ρ) (c : Cursor) (a : Attempts ρ) : (m.opt c a).2 = (m c a).2 := by
  unfold Matcher.opt
  rcases m c a with ⟨_ | r, b⟩ <;> rfl

lemma keeps_token (kept : Attempts.Kept text R) (p : Pattern) : Keeps text R (token p : Matcher ρ) := fun _ a _ =>
  kept.refl a

lemma keeps_seq (kept : Attempts.Kept text R) (hm : m.Keeps text R) (sm : m.Sound) (hn : n.Keeps text R) :
    (m.seq n).Keeps text R := by
  intro c a hc
  have first := hm c a hc
  rcases h : m c a with ⟨_ | ⟨d, ts⟩, b⟩
  · rw [h] at first
    unfold Matcher.seq
    rwa [h]
  · rw [h] at first
    rw [snd_seq h]
    exact kept.trans first (hn d b (sm.in hc h))

lemma keeps_alt (kept : Attempts.Kept text R) (hm : m.Keeps text R) (hn : n.Keeps text R) :
    (m.alt n).Keeps text R := by
  intro c a hc
  have first := hm c a hc
  unfold Matcher.alt
  split
  · next h =>
    rw [h] at first
    exact kept.trans first (hn c _ hc)
  · exact first

lemma keeps_opt (hm : m.Keeps text R) : m.opt.Keeps text R := by
  intro c a hc
  rw [snd_opt]
  exact hm c a hc

lemma keeps_repeated (kept : Attempts.Kept text R) (hm : m.Keeps text R) (sm : m.Sound) (bound : List Char) :
    (m.repeated bound).Keeps text R := by
  induction bound with
  | nil => exact hm
  | cons x bound ih =>
    rw [repeated_cons]
    exact keeps_opt (keeps_seq kept hm sm ih)

lemma keeps_rule (kept : Attempts.Kept text R) (hm : m.Keeps text R) (r : ρ) : (m.rule r).Keeps text R := by
  intro c a hc
  have inside := hm c a hc
  unfold Matcher.rule
  split
  · next h => rwa [h] at inside
  · next h =>
    rw [h] at inside
    exact kept.failed r hc inside

end Matcher

lemma Peg.keeps_matcher (kept : Attempts.Kept text R) {call : ρ → Matcher ρ} (hr : ∀ r, (call r).Keeps text R)
    (hs : ∀ r, (call r).Sound) (g : Peg ρ) : (g.matcher call).Keeps text R := by
  induction g with
  | token p => exact Matcher.keeps_token kept p
  | seq g h ihg ihh => exact Matcher.keeps_seq kept ihg (Peg.matcher_sound hs g) ihh
  | alt g h ihg ihh => exact Matcher.keeps_alt kept ihg ihh
  | many g ih => exact fun c a hc => Matcher.keeps_repeated kept ih (Peg.matcher_sound hs g) c.rest c a hc
  | opt g ih => exact Matcher.keeps_opt ih
  | rule r => exact hr r

/-- Whatever the rules of a grammar try, what becomes of the attempts is what failing rules make of them. -/
theorem Grammar.keeps_matcher (kept : Attempts.Kept text R) (grammar : Grammar ρ) (depth : Nat) (r : ρ) :
    (grammar.matcher depth r).Keeps text R := by
  induction depth generalizing r with
  | zero => exact fun _ a _ => kept.refl a
  | succ depth ih =>
    unfold Grammar.matcher
    cases grammar r with
    | word p => exact Matcher.keeps_rule kept (Matcher.keeps_token kept p) r
    | phrase g => exact Matcher.keeps_rule kept (Peg.keeps_matcher kept ih (grammar.matcher_sound depth) g) r

end Keeping

/-! ### Where texts are read in vain -/

/-- Attempts on record between two characters of a text. -/
def Attempts.Within (text : List Char) (a : Attempts ρ) : Prop :=
  ∃ front back, text = front ++ back ∧ a.offset = utf8Length front

lemma Attempts.Within.failed {a : Attempts ρ} (ha : a.Within text) {c : Cursor} (hc : c.In text) (before : Nat)
    (r : ρ) : (a.failed c.offset before r).Within text := by
  unfold Attempts.failed
  split
  · exact ha
  · split
    · exact hc.offset
    · split
      · exact hc.offset
      · exact ha

lemma Attempts.kept_within : Attempts.Kept text fun a b : Attempts ρ => a.Within text → b.Within text where
  refl _ := id
  trans h h' := h' ∘ h
  failed r hc h ha := (h ha).failed hc _ r

/-- A text is refused between two of its characters. -/
theorem exists_append_of_refusal {refusal : Refusal} (h : readTree text = .error refusal) :
    ∃ front back, text = front ++ back ∧ refusal.offset = utf8Length front := by
  have origin : (Cursor.start text).In text := ⟨[], .refl _⟩
  have start : (Attempts.none : Attempts Rule).Within text := ⟨[], text, rfl, rfl⟩
  have within : ((Rule.body.matcher (openRules text) .template (.start text) .none).2).Within text :=
    Grammar.keeps_matcher Attempts.kept_within Rule.body _ _ _ _ origin start
  rw [refusal_of_readTree h]
  exact within

lemma tokenAt_isPrefix (front back : List Char) : tokenAt (front ++ back) (utf8Length front) <+: back := by
  unfold tokenAt
  rw [dropBytes_append]
  dsimp only
  split
  · exact List.take_prefix 1 back
  · exact (List.take_prefix 16 _).trans (List.takeWhile_prefix _)

lemma tokenAt_ne_nil (front : List Char) {back : List Char} (h : back ≠ []) :
    tokenAt (front ++ back) (utf8Length front) ≠ [] := by
  unfold tokenAt
  rw [dropBytes_append]
  dsimp only
  split
  · obtain ⟨x, xs, rfl⟩ := List.exists_cons_of_ne_nil h
    exact List.cons_ne_nil x _
  · next hne => exact fun hnil => hne (List.isEmpty_iff.mpr hnil)

lemma length_tokenAt_le (cs : List Char) (offset : Nat) : (tokenAt cs offset).length ≤ 16 := by
  unfold tokenAt
  dsimp only
  split
  · exact (List.length_take_le 1 _).trans (by decide)
  · exact List.length_take_le 16 _

/-- A token has no blank beside other characters. -/
lemma tokenAt_ne {w : List Char} (hw : ∃ c ∈ w, Text.isBlank c = true) (hl : 1 < w.length) (cs : List Char)
    (offset : Nat) : tokenAt cs offset ≠ w := by
  rintro rfl
  obtain ⟨c, hc, blank⟩ := hw
  unfold tokenAt at hc hl
  dsimp only at hc hl
  split at hc
  · next hempty =>
    rw [if_pos hempty] at hl
    exact absurd (List.length_take_le 1 _) (Nat.not_le_of_lt hl)
  · have word := List.mem_takeWhile_imp (List.mem_of_mem_take hc)
    simp [blank] at word

/-- What a failure says of the text in which it arises, at the place before `back`: it is a syntax error, its position
starts there, between characters of the source, and ends in the text, and its token is `end of input` at the end of
the text and else what stands there, up to sixteen characters. -/
structure Site.Points (site : Site) (front back : List Char) (f : Failure) (token : String) (p : Position) : Prop where
  cause : ∃ fault, f.cause = .parse fault token
  raised : f.Raised site.source
  position : f.position = some p
  start : p.span.start = site.absolute (utf8Length front)
  stop : p.span.stop ≤ site.absolute (utf8Length (front ++ back))
  atEnd : token = "end of input" ↔ back = []
  shown : back ≠ [] → token.toList <+: back ∧ 0 < token.length ∧ token.length ≤ 16

/-- The failure for a text that is refused points to the furthest place that was reached. -/
theorem Site.points_refused {site : Site} {quoted : Bool} (hm : site.Mapped quoted text) {refusal : Refusal}
    (h : readTree text = .error refusal) :
    ∃ front back token p, text = front ++ back ∧ site.Points front back (site.refused text refusal) token p := by
  obtain ⟨front, back, ht, ho⟩ := exists_append_of_refusal h
  unfold Site.refused
  dsimp only
  rw [ho]
  have length : utf8Length text = utf8Length front + utf8Length back := by rw [ht, utf8Length_append]
  split
  · next past =>
    have nothing : back = [] := by
      cases back with
      | nil => rfl
      | cons x xs =>
        have := x.utf8Size_pos
        rw [utf8Length_cons] at length
        omega
    have exact_ := hm.exact_positionOf ht ht (Nat.le_refl _)
    refine ⟨front, back, "end of input", _, ht, ⟨⟨_, rfl⟩, Failure.raised_at exact_ _, rfl, rfl, ?_, ?_, ?_⟩⟩
    · exact hm.regular.absolute_le (by rw [utf8Length_append]; omega) (by rw [ht])
    · exact ⟨fun _ => nothing, fun _ => rfl⟩
    · exact fun hne => absurd nothing hne
  · next inside =>
    have some_ : back ≠ [] := by
      rintro rfl
      rw [utf8Length_nil] at length
      omega
    have spaced : ∃ c ∈ "end of input".toList, Text.isBlank c = true := ⟨' ', by decide, by decide⟩
    have token := tokenAt_isPrefix front back
    have filled := tokenAt_ne_nil front some_
    have short := length_tokenAt_le (front ++ back) (utf8Length front)
    have other := tokenAt_ne spaced (by decide) (front ++ back) (utf8Length front)
    rw [← ht] at token filled short other
    obtain ⟨after, hafter⟩ := token
    have ht' : text = (front ++ tokenAt text (utf8Length front)) ++ after := by
      rw [List.append_assoc, hafter]
      exact ht
    have within : utf8Length (front ++ tokenAt text (utf8Length front)) ≤ utf8Length text := by
      conv_rhs => rw [ht', utf8Length_append]
      exact Nat.le_add_right _ _
    rw [← utf8Length_append, Nat.min_eq_left within]
    have exact_ := hm.exact_positionOf ht ht' (by rw [utf8Length_append]; exact Nat.le_add_right _ _)
    refine ⟨front, back, _, _, ht, ⟨⟨_, rfl⟩, Failure.raised_at exact_ _, rfl, rfl, ?_, ?_, fun _ => ⟨?_, ?_, ?_⟩⟩⟩
    · rw [← ht]
      exact hm.regular.absolute_le within (Nat.le_refl _)
    · refine ⟨fun heq => absurd ?_ other, fun hnil => absurd hnil some_⟩
      rw [← heq, String.toList_ofList]
    · rw [String.toList_ofList]
      exact ⟨after, hafter⟩
    · rw [String.length_ofList]
      exact List.length_pos_of_ne_nil filled
    · rw [String.length_ofList]
      exact short

end Stencil
