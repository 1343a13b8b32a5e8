import Stencil.Proofs.Reading.Depth

/-!
# What stands around what is read

Reading looks at what is left of a text, and not at how much came before it; and it looks no further than the end of
what it reads and a little beyond. Main statements: `Rule.goes_reading_shift`, a rule reads the same behind other text,
and `Peg.Derives.extend`, what is derived before a last character is derived also where the text goes on after that.
-/

namespace Stencil

variable {ρ : Type}

lemma Cursor.repeated_of_none {step : Cursor → Option Cursor} {c : Cursor} (h : step c = none) (bound : List Char) :
    repeated step bound c = c := by
  cases bound with
  | nil => rfl
  | cons x bound => rw [repeated, h]

lemma Cursor.repeated_of_some {step : Cursor → Option Cursor} {c d : Cursor} (h : step c = some d) (x : Char)
    (bound : List Char) : repeated step (x :: bound) c = repeated step bound d := by
  rw [repeated, h]

/-! ### Where matchers go -/

/-- The place up to which a matcher reads, whatever was tried before. -/
def Matcher.goes (m : Matcher ρ) (c : Cursor) : Option Cursor := (m c .none).1.map Prod.fst

namespace Matcher

variable {m n : Matcher ρ} {c d : Cursor} {ts : List (Tree ρ)}

lemma Steady.map_fst (hm : m.Steady) (c : Cursor) (a : Attempts ρ) : (m c a).1.map Prod.fst = m.goes c := by
  rw [goes, hm c a .none]

lemma Steady.reads_of_goes (hm : m.Steady) (h : m.goes c = some d) : ∃ ts, m.Reads c d ts := by
  obtain ⟨⟨e, ts⟩, read, rfl⟩ := Option.map_eq_some_iff.mp h
  exact ⟨ts, fun a => (hm c a .none).trans read⟩

lemma goes_token (p : Pattern) (c : Cursor) : (token p : Matcher ρ).goes c = p.run c := by
  rw [goes, token, Option.map_map]
  exact Option.map_id'

lemma goes_seq (hn : n.Steady) (c : Cursor) : (m.seq n).goes c = (m.goes c).bind n.goes := by
  unfold goes Matcher.seq
  cases m c .none with
  | mk read a =>
    cases read with
    | none => rfl
    | some r =>
      obtain ⟨d, ts⟩ := r
      show _ = n.goes d
      rw [← hn.map_fst d a]
      dsimp only
      cases n d a with
      | mk read b =>
        cases read with
        | none => rfl
        | some r => rfl

lemma goes_alt (hn : n.Steady) (c : Cursor) : (m.alt n).goes c = (m.goes c).or (n.goes c) := by
  unfold goes Matcher.alt
  cases m c .none with
  | mk read a =>
    cases read with
    | none => exact hn.map_fst c a
    | some r => rfl

lemma goes_opt (c : Cursor) : m.opt.goes c = some ((m.goes c).getD c) := by
  unfold goes Matcher.opt
  cases m c .none with
  | mk read a =>
    cases read with
    | none => rfl
    | some r => rfl

lemma goes_rule (r : ρ) (c : Cursor) : (m.rule r).goes c = m.goes c := by
  unfold goes Matcher.rule
  cases m c .none with
  | mk read a =>
    cases read with
    | none => rfl
    | some r => rfl

lemma goes_repeated (hm : m.Steady) (bound : List Char) (c : Cursor) :
    (m.repeated bound).goes c = some (Cursor.repeated m.goes bound c) := by
  induction bound generalizing c with
  | nil => rfl
  | cons x bound ih =>
    rw [repeated_cons, goes_opt, goes_seq (hm.repeated bound)]
    cases here : m.goes c with
    | none =>
      rw [Cursor.repeated_of_none here]
      rfl
    | some d =>
      rw [Cursor.repeated_of_some here, Option.bind_some, ih]
      rfl

end Matcher

/-! ### What stands before -/

/-- The same rest of a text, with so much more before it. -/
def Cursor.shift (k : Nat) (c : Cursor) : Cursor := ⟨c.offset + k, c.rest⟩

lemma Cursor.next?_shift (k : Nat) (c : Cursor) (p : Char → Bool) :
    (c.shift k).next? p = (c.next? p).map (shift k) := by
  obtain ⟨o, rest⟩ := c
  cases rest with
  | nil => rfl
  | cons x xs =>
    simp only [next?, shift]
    split
    · simp only [Option.map_some, shift, Option.some.injEq, mk.injEq, and_true]
      omega
    · rfl

lemma Cursor.word?_shift (k : Nat) (c : Cursor) (w : List Char) : (c.shift k).word? w = (c.word? w).map (shift k) := by
  induction w generalizing c with
  | nil => rfl
  | cons x w ih =>
    rw [word?, word?, next?_shift]
    cases c.next? (· == x) with
    | none => rfl
    | some d => exact ih d

lemma Cursor.repeated_shift {k : Nat} {step : Cursor → Option Cursor}
    (hs : ∀ c, step (c.shift k) = (step c).map (shift k)) (bound : List Char) (c : Cursor) :
    repeated step bound (c.shift k) = (repeated step bound c).shift k := by
  induction bound generalizing c with
  | nil => rfl
  | cons x bound ih =>
    rw [repeated, repeated, hs]
    cases step c with
    | none => rfl
    | some d => exact ih d

lemma Pattern.run_shift (k : Nat) (p : Pattern) (c : Cursor) : p.run (c.shift k) = (p.run c).map (Cursor.shift k) := by
  induction p generalizing c with
  | word w => exact Cursor.word?_shift k c w
  | one p => exact Cursor.next?_shift k c p
  | seq p q ihp ihq =>
    rw [run, run, ihp]
    cases p.run c with
    | none => rfl
    | some d => exact ihq d
  | alt p q ihp ihq =>
    rw [run, run, ihp]
    cases p.run c with
    | none => exact ihq c
    | some d => rfl
  | many p ih => exact congrArg some (Cursor.repeated_shift ih c.rest c)
  | opt p ih =>
    rw [run, run, ih]
    cases p.run c with
    | none => rfl
    | some d => rfl
  | absent p ih =>
    rw [run, run, ih]
    cases p.run c with
    | none => rfl
    | some d => rfl

lemma Peg.goes_matcher_shift {call : ρ → Matcher ρ} {k : Nat} (steady : ∀ r, (call r).Steady)
    (hr : ∀ r c, (call r).goes (c.shift k) = ((call r).goes c).map (Cursor.shift k)) (g : Peg ρ) (c : Cursor) :
    (g.matcher call).goes (c.shift k) = ((g.matcher call).goes c).map (Cursor.shift k) := by
  induction g generalizing c with
  | token p =>
    rw [Peg.matcher, Matcher.goes_token, Matcher.goes_token]
    exact p.run_shift k c
  | seq g h ihg ihh =>
    rw [Peg.matcher, Matcher.goes_seq (Peg.matcher_steady steady h), Matcher.goes_seq (Peg.matcher_steady steady h),
      ihg]
    cases (g.matcher call).goes c with
    | none => rfl
    | some d => exact ihh d
  | alt g h ihg ihh =>
    rw [Peg.matcher, Matcher.goes_alt (Peg.matcher_steady steady h), Matcher.goes_alt (Peg.matcher_steady steady h),
      ihg, ihh]
    cases (g.matcher call).goes c with
    | none => rfl
    | some d => rfl
  | many g ih =>
    have here := Matcher.goes_repeated (Peg.matcher_steady steady g) c.rest
    exact (here (c.shift k)).trans ((congrArg some (Cursor.repeated_shift ih c.rest c)).trans
      (congrArg (Option.map (Cursor.shift k)) (here c)).symm)
  | opt g ih =>
    rw [Peg.matcher, Matcher.goes_opt, Matcher.goes_opt, ih]
    cases (g.matcher call).goes c with
    | none => rfl
    | some d => rfl
  | rule r => exact hr r c

/-- A rule reads the same wherever the rest of the text starts. -/
theorem Grammar.goes_matcher_shift (grammar : Grammar ρ) (k depth : Nat) (r : ρ) (c : Cursor) :
    (grammar.matcher depth r).goes (c.shift k) = ((grammar.matcher depth r).goes c).map (Cursor.shift k) := by
  induction depth generalizing r c with
  | zero => rfl
  | succ depth ih =>
    unfold Grammar.matcher
    rw [Matcher.goes_rule, Matcher.goes_rule]
    cases grammar r with
    | word p =>
      rw [Peg.Body.matcher, Matcher.goes_token, Matcher.goes_token]
      exact p.run_shift k c
    | phrase g => exact Peg.goes_matcher_shift (grammar.matcher_steady depth) ih g c

/-- A rule reads the same behind other text. -/
theorem Rule.goes_reading_shift (k : Nat) (r : Rule) (c : Cursor) :
    r.reading.goes (c.shift k) = (r.reading.goes c).map (Cursor.shift k) := by
  have same := body.goes_matcher_shift k (openRules c.rest) r c
  unfold Matcher.goes at same ⊢
  unfold reading
  exact same

/-! ### What comes after -/

/-- The same place, with more text after the end. -/
def Cursor.extend (more : List Char) (c : Cursor) : Cursor := ⟨c.offset, c.rest ++ more⟩

/-- A place somewhere before a character that ends the text. -/
def Cursor.Before (x : Char) (c : Cursor) : Prop := ∃ front, c.rest = front ++ [x]

namespace Cursor

variable {x : Char} {more : List Char} {c d : Cursor}

lemma Before.later {w : List Char} (h : c.Before x) (hr : c.Reaches d w) (hd : d.rest ≠ []) : d.Before x := by
  obtain ⟨front, hf⟩ := h
  rcases List.append_eq_append_iff.mp (hr.1.symm.trans hf) with ⟨between, -, rest⟩ | ⟨between, -, rest⟩
  · exact ⟨between, rest⟩
  · cases between with
    | nil => exact ⟨[], rest.symm⟩
    | cons y between =>
      obtain ⟨-, nothing⟩ := List.cons.inj rest
      exact absurd (List.append_eq_nil_iff.mp nothing.symm).2 hd

lemma Reaches.extend {w : List Char} (h : c.Reaches d w) (more : List Char) :
    (c.extend more).Reaches (d.extend more) w :=
  ⟨by show c.rest ++ more = w ++ (d.rest ++ more); rw [h.1, List.append_assoc], h.2⟩

/-- Before a character that a step does not take, it takes the same however the text goes on. -/
lemma next?_extend {p : Char → Bool} (hp : p x = false) (hc : c.Before x) :
    (c.extend more).next? p = (c.next? p).map (extend more) ∧ ∀ d, c.next? p = some d → d.Before x := by
  obtain ⟨o, rest⟩ := c
  obtain ⟨front, rfl⟩ := hc
  cases front with
  | nil => simp [next?, extend, hp]
  | cons y front =>
    simp only [next?, extend, List.cons_append]
    split
    · refine ⟨rfl, fun d hd => ?_⟩
      obtain rfl := Option.some.inj hd
      exact ⟨front, rfl⟩
    · exact ⟨rfl, fun d hd => absurd hd.symm (Option.some_ne_none d)⟩

lemma word?_extend {w : List Char} (hw : x ∉ w) (hc : c.Before x) :
    (c.extend more).word? w = (c.word? w).map (extend more) ∧ ∀ d, c.word? w = some d → d.Before x := by
  induction w generalizing c with
  | nil =>
    refine ⟨rfl, fun d hd => ?_⟩
    obtain rfl := Option.some.inj hd
    exact hc
  | cons y w ih =>
    obtain ⟨other, hw⟩ := List.ne_and_not_mem_of_not_mem_cons hw
    obtain ⟨same, before⟩ := @next?_extend x more c (· == y) (beq_false_of_ne other) hc
    rw [word?, word?, same]
    cases here : c.next? (· == y) with
    | none => exact ⟨rfl, fun d hd => absurd hd.symm (Option.some_ne_none d)⟩
    | some d => exact ih hw (before d here)

lemma repeated_extend {step : Cursor → Option Cursor} (hs : ∀ {c : Cursor}, c.Before x →
      step (c.extend more) = (step c).map (extend more) ∧ ∀ d, step c = some d → d.Before x) (hc : c.Before x)
    (bound : List Char) : repeated step bound (c.extend more) = (repeated step bound c).extend more ∧
      (repeated step bound c).Before x := by
  induction bound generalizing c with
  | nil => exact ⟨rfl, hc⟩
  | cons y bound ih =>
    obtain ⟨same, before⟩ := hs hc
    rw [repeated, repeated, same]
    cases here : step c with
    | none => exact ⟨rfl, hc⟩
    | some d => exact ih (before d here)

/-- As many rounds as there are characters are enough for a repetition. -/
lemma repeated_eq {step : Cursor → Option Cursor} (hs : ∀ c d, step c = some d → ∃ w, c.Reaches d w)
    {bound bound' : List Char} (hb : c.rest.length ≤ bound.length) (hb' : c.rest.length ≤ bound'.length) :
    repeated step bound c = repeated step bound' c := by
  have still {c : Cursor} (h : step c = some c) (bound : List Char) : repeated step bound c = c := by
    induction bound with
    | nil => rfl
    | cons y bound ih => rw [repeated_of_some h, ih]
  induction bound generalizing c bound' with
  | nil =>
    have nothing : c.rest = [] := List.eq_nil_of_length_eq_zero (Nat.le_zero.mp hb)
    cases here : step c with
    | none => rw [repeated_of_none here, repeated_of_none here]
    | some d =>
      obtain ⟨w, hw⟩ := hs c d here
      have empty : w = [] := (List.append_eq_nil_iff.mp (hw.1.symm.trans nothing)).1
      rw [empty] at hw
      obtain rfl := hw.eq_of_nil
      rw [still here, still here]
  | cons y bound ih =>
    cases here : step c with
    | none => rw [repeated_of_none here, repeated_of_none here]
    | some d =>
      obtain ⟨w, hw⟩ := hs c d here
      cases w with
      | nil =>
        obtain rfl := hw.eq_of_nil
        rw [still here, still here]
      | cons z w =>
        have rest := hw.1
        cases bound' with
        | nil =>
          rw [rest] at hb'
          cases hb'
        | cons y' bound' =>
          rw [repeated_of_some here, repeated_of_some here]
          rw [rest, List.length_append, List.length_cons, List.length_cons] at hb hb'
          exact ih (by omega) (by omega)

end Cursor

namespace Pattern

variable {x : Char} {more : List Char} {c d : Cursor} {p : Pattern}

/-- Whether a pattern neither takes a character nor looks behind it. -/
def avoids (x : Char) : Pattern → Bool
  | word w => !w.contains x
  | one p => !p x
  | seq p q => p.avoids x && q.avoids x
  | alt p q => p.avoids x && q.avoids x
  | many p => p.avoids x
  | opt p => p.avoids x
  | absent p => p.avoids x

lemma run_extend (hp : p.avoids x) (hc : c.Before x) :
    p.run (c.extend more) = (p.run c).map (Cursor.extend more) ∧ ∀ d, p.run c = some d → d.Before x := by
  induction p generalizing c with
  | word w =>
    refine Cursor.word?_extend (fun hx => ?_) hc
    rw [avoids, List.contains_iff_mem.mpr hx] at hp
    cases hp
  | one p => exact Cursor.next?_extend (Bool.not_eq_true' _ |>.mp hp) hc
  | seq p q ihp ihq =>
    obtain ⟨first, second⟩ := (Bool.and_eq_true _ _).mp hp
    obtain ⟨same, before⟩ := ihp first hc
    rw [run, run, same]
    cases here : p.run c with
    | none => exact ⟨rfl, fun d hd => absurd hd.symm (Option.some_ne_none d)⟩
    | some d => exact ihq second (before d here)
  | alt p q ihp ihq =>
    obtain ⟨first, second⟩ := (Bool.and_eq_true _ _).mp hp
    obtain ⟨same, before⟩ := ihp first hc
    rw [run, run, same]
    cases here : p.run c with
    | none => exact ihq second hc
    | some d =>
      refine ⟨rfl, fun e he => ?_⟩
      obtain rfl := Option.some.inj he
      exact before d here
  | many p ih =>
    obtain ⟨same, before⟩ := Cursor.repeated_extend (fun {c} hc => ih hp hc) hc c.rest
    have bound : Cursor.repeated p.run (c.rest ++ more) (c.extend more) =
        (Cursor.repeated p.run c.rest c).extend more := by
      obtain ⟨longer, -⟩ := @Cursor.repeated_extend x more c p.run (fun {c} hc => ih hp hc) hc (c.rest ++ more)
      rw [longer, Cursor.repeated_eq (fun _ _ => run_reaches) _ (Nat.le_refl _)]
      rw [List.length_append]
      exact Nat.le_add_right _ _
    refine ⟨congrArg some bound, fun d hd => ?_⟩
    obtain rfl := Option.some.inj hd
    exact before
  | opt p ih =>
    obtain ⟨same, before⟩ := ih hp hc
    rw [run, run, same]
    cases here : p.run c with
    | none =>
      refine ⟨rfl, fun e he => ?_⟩
      obtain rfl := Option.some.inj he
      exact hc
    | some d =>
      refine ⟨rfl, fun e he => ?_⟩
      obtain rfl := Option.some.inj he
      exact before d here
  | absent p ih =>
    obtain ⟨same, -⟩ := ih hp hc
    rw [run, run, same]
    cases p.run c with
    | none =>
      refine ⟨rfl, fun e he => ?_⟩
      obtain rfl := Option.some.inj he
      exact hc
    | some d => exact ⟨rfl, fun d hd => absurd hd.symm (Option.some_ne_none d)⟩

/-- What a pattern reads before a last character, it reads however the text goes on after that. -/
def Lasts (x : Char) (p : Pattern) : Prop := ∀ {c d : Cursor} (more : List Char), c.Before x → d.rest ≠ [] →
  p.run c = some d → p.run (c.extend more) = some (d.extend more)

lemma lasts_of_avoids (hp : p.avoids x) : p.Lasts x := by
  intro c d more hc _ h
  rw [(run_extend hp hc).1, h]
  rfl

lemma lasts_word (x : Char) (w : List Char) : (word w).Lasts x := by
  intro c d more _ _ h
  exact run_word ((Cursor.word?_reaches h).extend more)

/-- One character of the content of a string: two that stand for one, or any but the quote. -/
def quoted (u v quote : Char) : Pattern := .alt (.word [u, v]) (.seq (.absent (.word [quote])) .any)

lemma quoted_extend (u v quote : Char) {y z : Char} {zs : List Char} (hc : c.rest = y :: z :: zs) (more : List Char) :
    (quoted u v quote).run (c.extend more) = ((quoted u v quote).run c).map (Cursor.extend more) := by
  obtain ⟨o, rest⟩ := c
  obtain rfl : rest = _ := hc
  by_cases hq : y = quote
  · subst hq
    by_cases hu : y = u
    · by_cases hv : z = v <;> simp [quoted, run, any, Cursor.word?, Cursor.next?, Cursor.extend, hu, hv]
    · simp [quoted, run, Cursor.word?, Cursor.next?, Cursor.extend, hu]
  · by_cases hu : y = u
    · subst hu
      by_cases hv : z = v <;> simp [quoted, run, any, Cursor.word?, Cursor.next?, Cursor.extend, hq, hv]
    · simp [quoted, run, any, Cursor.word?, Cursor.next?, Cursor.extend, hu, hq]

lemma quoted_last {u v quote : Char} (hc : c.rest = [x]) (hq : x ≠ quote) :
    (quoted u v quote).run c = some ⟨c.offset + x.utf8Size, []⟩ := by
  by_cases hu : x = u
  · subst hu
    simp [quoted, run, any, Cursor.word?, Cursor.next?, hc, hq]
  · simp [quoted, run, any, Cursor.word?, Cursor.next?, hc, hu, hq]

lemma length_lt_of_quoted {u v quote : Char} (h : (quoted u v quote).run c = some d) :
    d.rest.length < c.rest.length := by
  unfold quoted run at h
  split at h
  · next e he =>
    obtain rfl := Option.some.inj h
    have read := (Cursor.word?_reaches he).1
    rw [read, List.length_append]
    exact Nat.lt_add_of_pos_left (Nat.succ_pos _)
  · obtain ⟨e, absent, h⟩ := Option.bind_eq_some_iff.mp h
    obtain rfl := eq_of_run_absent absent
    obtain ⟨y, -, read⟩ := Cursor.next?_reaches h
    rw [read.1, List.length_append]
    exact Nat.lt_add_of_pos_left (Nat.succ_pos _)

/-- The content of a string that is over before the last character is not changed by what comes after that. -/
lemma lasts_quoted {u v quote : Char} (hq : x ≠ quote) : (many (quoted u v quote)).Lasts x := by
  have stays {c : Cursor} (bound : List Char) (hc : c.rest = []) :
      (Cursor.repeated (quoted u v quote).run bound c).rest = [] := by
    obtain ⟨w, hw⟩ := Cursor.repeated_reaches (fun _ _ => run_reaches) bound c
    exact (List.append_eq_nil_iff.mp (hw.1.symm.trans hc)).2
  have rounds {c : Cursor} (more bound : List Char) (hc : c.Before x) (hb : c.rest.length ≤ bound.length)
      (hr : (Cursor.repeated (quoted u v quote).run bound c).rest ≠ []) :
      Cursor.repeated (quoted u v quote).run bound (c.extend more) =
        (Cursor.repeated (quoted u v quote).run bound c).extend more := by
    induction bound generalizing c with
    | nil => exact absurd (List.eq_nil_of_length_eq_zero (Nat.le_zero.mp hb)) hr
    | cons b bound ih =>
      obtain ⟨front, hf⟩ := hc
      cases front with
      | nil =>
        -- The last character would be taken, and nothing would be left.
        rw [Cursor.repeated_of_some (quoted_last hf hq)] at hr
        exact absurd (stays bound rfl) hr
      | cons y front =>
        obtain ⟨z, zs, hz⟩ :=
          List.exists_cons_of_ne_nil (List.append_ne_nil_of_right_ne_nil front (List.cons_ne_nil x []))
        have two : c.rest = y :: z :: zs := by rw [hf, List.cons_append, hz]
        have same := quoted_extend u v quote two more
        cases here : (quoted u v quote).run c with
        | none =>
          rw [here] at same
          rw [Cursor.repeated_of_none here, Cursor.repeated_of_none same]
        | some d =>
          rw [here] at same
          rw [Cursor.repeated_of_some here] at hr ⊢
          rw [Cursor.repeated_of_some same]
          obtain ⟨w, hw⟩ := run_reaches here
          have shorter := length_lt_of_quoted here
          have left : d.rest ≠ [] := fun nothing => hr (stays bound nothing)
          refine ih (Cursor.Before.later ⟨y :: front, hf⟩ hw left) ?_ hr
          rw [List.length_cons] at hb
          omega
  intro c d more hc hd h
  obtain rfl := Option.some.inj h
  have room : c.rest.length ≤ (c.rest ++ more).length := by
    rw [List.length_append]
    exact Nat.le_add_right _ _
  have same : Cursor.repeated (quoted u v quote).run (c.rest ++ more) c =
      Cursor.repeated (quoted u v quote).run c.rest c :=
    Cursor.repeated_eq (fun _ _ => run_reaches) room (Nat.le_refl _)
  have longer := rounds more (c.rest ++ more) hc room (same ▸ hd)
  rw [same] at longer
  exact congrArg some longer

end Pattern

namespace Peg

variable {x : Char} {more : List Char} {c d : Cursor} {ts : List (Tree ρ)}

/-- Whether the patterns of an expression avoid a character or are words, and its rules are among some. -/
def within [DecidableEq ρ] (x : Char) (rs : List ρ) : Peg ρ → Bool
  | token (.word _) => true
  | token p => p.avoids x
  | seq g h => g.within x rs && h.within x rs
  | alt g h => g.within x rs && h.within x rs
  | many g => g.within x rs
  | opt g => g.within x rs
  | rule r => r ∈ rs

/-- What is derived before a last character is derived however the text goes on after that. -/
theorem Derives.extend [DecidableEq ρ] {grammar : Grammar ρ} {rs : List ρ}
    (words : ∀ r ∈ rs, ∀ p, grammar r = .word p → p.Lasts x)
    (phrases : ∀ r ∈ rs, ∀ g, grammar r = .phrase g → g.within x rs) {g : Peg ρ} (hd : Derives grammar g c d ts)
    (hg : g.within x rs) (hc : c.Before x) (hr : d.rest ≠ []) (more : List Char) :
    ∃ us, Derives grammar g (c.extend more) (d.extend more) us := by
  have middle {c d e : Cursor} {g h : Peg ρ} {ts us : List (Tree ρ)} (hd : Derives grammar g c d ts)
      (he : Derives grammar h d e us) (hc : c.Before x) (hr : e.rest ≠ []) : d.rest ≠ [] ∧ d.Before x := by
    obtain ⟨w, hw⟩ := hd.reaches
    obtain ⟨w', hw'⟩ := he.reaches
    have left : d.rest ≠ [] := by
      rw [hw'.1]
      exact List.append_ne_nil_of_right_ne_nil _ hr
    exact ⟨left, hc.later hw left⟩
  induction hd with
  | @token p c d h =>
    refine ⟨[], .token ?_⟩
    cases p with
    | word w => exact Pattern.lasts_word x w more hc hr h
    | _ => exact Pattern.lasts_of_avoids hg more hc hr h
  | seq first second ihf ihs =>
    obtain ⟨hf, hs⟩ := (Bool.and_eq_true _ _).mp hg
    obtain ⟨left, before⟩ := middle first second hc hr
    obtain ⟨us, first⟩ := ihf hf hc left
    obtain ⟨vs, second⟩ := ihs hs before hr
    exact ⟨us ++ vs, .seq first second⟩
  | left _ ih =>
    obtain ⟨us, h⟩ := ih ((Bool.and_eq_true _ _).mp hg).1 hc hr
    exact ⟨us, .left h⟩
  | right _ ih =>
    obtain ⟨us, h⟩ := ih ((Bool.and_eq_true _ _).mp hg).2 hc hr
    exact ⟨us, .right h⟩
  | done => exact ⟨[], .done⟩
  | more first second ihf ihs =>
    obtain ⟨left, before⟩ := middle first second hc hr
    obtain ⟨us, first⟩ := ihf hg hc left
    obtain ⟨vs, second⟩ := ihs hg before hr
    exact ⟨us ++ vs, .more first second⟩
  | skipped => exact ⟨[], .skipped⟩
  | taken _ ih =>
    obtain ⟨us, h⟩ := ih hg hc hr
    exact ⟨us, .taken h⟩
  | word hw h => exact ⟨_, .word hw (words _ (of_decide_eq_true hg) _ hw more hc hr h)⟩
  | phrase hp _ ih =>
    obtain ⟨us, h⟩ := ih (phrases _ (of_decide_eq_true hg) _ hp) hc hr
    exact ⟨_, .phrase hp h⟩

end Peg

end Stencil
