import Stencil.Proofs.Reading.Expressions

/-!
# How deep reading goes

Rules are ranked: before a rule has read a character, it calls only rules of a lower rank. There are fewer than eight
ranks, so that a bound of eight open rules for every character is never met. Main statements:
`Rule.matcher_eq_of_rank_lt`, bounds that are large enough come to the same, and `Rule.reading_eq`, reading without a
bound goes by the bodies of the rules.
-/

namespace Stencil

variable {ρ : Type}

/-! ### Matchers that agree -/

/-- A matcher goes on at a later place, or where it was. -/
lemma Matcher.Sound.eq_or_lt {m : Matcher ρ} (hm : m.Sound) {c d : Cursor} {a b : Attempts ρ} {ts : List (Tree ρ)}
    (h : m c a = (some (d, ts), b)) : d = c ∨ d.rest.length < c.rest.length := by
  obtain ⟨w, hw⟩ := hm c a d ts b h
  cases w with
  | nil => exact .inl hw.eq_of_nil.symm
  | cons x w =>
    right
    rw [hw.1, List.length_append, List.length_cons]
    omega

namespace Matcher

variable {m m' n n' : Matcher ρ} {c : Cursor}

lemma seq_congr (hm : m c = m' c) (hn : ∀ {a d ts b}, m c a = (some (d, ts), b) → n d = n' d) :
    m.seq n c = m'.seq n' c := by
  funext a
  unfold Matcher.seq
  rw [← hm]
  cases h : m c a with
  | mk read b =>
    cases read with
    | none => rfl
    | some r =>
      obtain ⟨d, ts⟩ := r
      dsimp only
      rw [hn h]

lemma alt_congr (hm : m c = m' c) (hn : n c = n' c) : m.alt n c = m'.alt n' c := by
  funext a
  unfold Matcher.alt
  rw [← hm, ← hn]

lemma opt_congr (hm : m c = m' c) : m.opt c = m'.opt c := by
  funext a
  unfold Matcher.opt
  rw [← hm]

lemma rule_congr (hm : m c = m' c) (r : ρ) : m.rule r c = m'.rule r c := by
  funext a
  unfold Matcher.rule
  rw [← hm]

lemma repeated_cons_congr {bound : List Char} (hm : m c = m' c)
    (hn : ∀ {a d ts b}, m c a = (some (d, ts), b) → m.repeated bound d = m'.repeated bound d) (x : Char) :
    m.repeated (x :: bound) c = m'.repeated (x :: bound) c := by
  rw [repeated_cons, repeated_cons]
  exact opt_congr (seq_congr hm hn)

lemma repeated_nil_congr (hm : m c = m' c) : m.repeated [] c = m'.repeated [] c := by
  funext a
  unfold Matcher.repeated
  rw [← hm]

/-- Matchers that agree wherever no more than so much is left agree there when they are repeated. -/
lemma repeated_congr {k : Nat} (sound : m.Sound) (hm : ∀ d : Cursor, d.rest.length ≤ k → m d = m' d)
    (bound : List Char) (hc : c.rest.length ≤ k) : m.repeated bound c = m'.repeated bound c := by
  induction bound generalizing c with
  | nil => exact repeated_nil_congr (hm c hc)
  | cons x bound ih =>
    refine repeated_cons_congr (hm c hc) (fun read => ih ?_) x
    rcases sound.eq_or_lt read with rfl | shorter
    · exact hc
    · exact (Nat.le_of_lt shorter).trans hc

end Matcher

namespace Peg

variable {call call' : ρ → Matcher ρ}

/-- Expressions agree where their rules agree from there on. -/
lemma matcher_congr {k : Nat} (sound : ∀ r, (call r).Sound)
    (hr : ∀ r (d : Cursor), d.rest.length ≤ k → call r d = call' r d) (g : Peg ρ) {c : Cursor}
    (hc : c.rest.length ≤ k) : g.matcher call c = g.matcher call' c := by
  induction g generalizing c with
  | token p => rfl
  | seq g h ihg ihh =>
    refine Matcher.seq_congr (ihg hc) fun read => ihh ?_
    rcases (Peg.matcher_sound sound g).eq_or_lt read with rfl | shorter
    · exact hc
    · exact (Nat.le_of_lt shorter).trans hc
  | alt g h ihg ihh => exact Matcher.alt_congr (ihg hc) (ihh hc)
  | many g ih => exact Matcher.repeated_congr (Peg.matcher_sound sound g) (fun d hd => ih hd) c.rest hc
  | opt g ih => exact Matcher.opt_congr (ih hc)
  | rule r => exact hr r c hc

/-- Whether an expression calls only rules of a kind before it has read a character. -/
def starts (rules : ρ → Option (List Char)) (kind : ρ → Bool) : Peg ρ → Bool
  | token _ => true
  | seq g h => g.starts rules kind && ((g.openers rules).isSome || h.starts rules kind)
  | alt g h => g.starts rules kind && h.starts rules kind
  | many g => g.starts rules kind
  | opt g => g.starts rules kind
  | rule r => kind r

/-- Expressions agree at a place where the rules agree that they may start with, if all rules agree at later places. -/
lemma matcher_congr_at {grammar : Grammar ρ} {kind : ρ → Bool} {k : Nat} {c : Cursor}
    (derived : ∀ r, (call r).Derived grammar (.rule r)) (sound : ∀ r, (call r).Sound)
    (here : ∀ r, kind r → call r c = call' r c)
    (later : ∀ r (d : Cursor), d.rest.length < c.rest.length → call r d = call' r d) {g : Peg ρ}
    (hg : g.starts (grammar.openers k) kind) : g.matcher call c = g.matcher call' c := by
  have after (h : Peg ρ) {d : Cursor} (shorter : d.rest.length < c.rest.length) :
      h.matcher call d = h.matcher call' d :=
    matcher_congr sound (fun r e he => later r e (Nat.lt_of_le_of_lt he shorter)) h (Nat.le_refl _)
  induction g with
  | token p => rfl
  | seq g h ihg ihh =>
    obtain ⟨first, second⟩ := (Bool.and_eq_true _ _).mp hg
    refine Matcher.seq_congr (ihg first) fun read => ?_
    rcases (Peg.matcher_sound sound g).eq_or_lt read with rfl | shorter
    · rcases (Bool.or_eq_true _ _).mp second with opens | second
      · obtain ⟨cs, ho⟩ := Option.isSome_iff_exists.mp opens
        exact absurd ((derived_matcher derived g read).opened ho).lt (Nat.lt_irrefl _)
      · exact ihh second
    · exact after h shorter
  | alt g h ihg ihh =>
    obtain ⟨first, second⟩ := (Bool.and_eq_true _ _).mp hg
    exact Matcher.alt_congr (ihg first) (ihh second)
  | many g ih =>
    have rounds (bound : List Char) : (g.matcher call).repeated bound c = (g.matcher call').repeated bound c := by
      induction bound with
      | nil => exact Matcher.repeated_nil_congr (ih hg)
      | cons x bound rest =>
        refine Matcher.repeated_cons_congr (ih hg) (fun read => ?_) x
        rcases (Peg.matcher_sound sound g).eq_or_lt read with rfl | shorter
        · exact rest
        · exact Matcher.repeated_congr (Peg.matcher_sound sound g)
            (fun e he => after g (Nat.lt_of_le_of_lt he shorter)) bound (Nat.le_refl _)
    exact rounds c.rest
  | opt g ih => exact Matcher.opt_congr (ih hg)
  | rule r => exact here r hg

end Peg

/-! ### Ranks -/

namespace Rule

/-- A rule calls rules of a lower rank only, until it has read a character. -/
def rank : Rule → Nat
  | template => 3
  | block | macroArgs | mapEntry | macroParam => 2
  | ifDirective | foreachDirective | macroDirective | blockMacroCall | elseifBranch | elseBranch | namedArg
  | positionalArg | expr => 1
  | _ => 0

lemma rank_lt (r : Rule) : r.rank < 8 := by
  cases r <;> decide

lemma starts_lower {r : Rule} {g : Peg Rule} (h : body r = .phrase g) :
    g.starts (body.openers 3) fun q => q.rank < r.rank := by
  have checked : ∀ r ∈ Rule.all,
      (match body r with
        | .word _ => true
        | .phrase g => g.starts (body.openers 3) fun q => q.rank < r.rank) = true := by
    decide +kernel
  have this := checked r r.mem_all
  rwa [h] at this

/-- Bounds on how many rules are open come to the same where they are large enough for what is left of the text. -/
theorem matcher_eq_of_rank_lt {m n : Nat} {r : Rule} {c : Cursor} (hm : 8 * c.rest.length + r.rank < m)
    (hn : 8 * c.rest.length + r.rank < n) : body.matcher m r c = body.matcher n r c := by
  induction m generalizing n r c with
  | zero => cases hm
  | succ m ih =>
    cases n with
    | zero => cases hn
    | succ n =>
      refine Matcher.rule_congr ?_ r
      cases hb : body r with
      | word p => rfl
      | phrase g =>
        refine Peg.matcher_congr_at (Grammar.derives_of_matcher body m) (body.matcher_sound m) (fun q lower => ?_)
          (fun q d shorter => ?_) (starts_lower hb)
        · have lower : q.rank < r.rank := of_decide_eq_true lower
          exact ih (by omega) (by omega)
        · have bounded := q.rank_lt
          exact ih (by omega) (by omega)

/-! ### Reading without a bound -/

/-- Reading by a rule, with as many rules open as it takes. -/
def reading (r : Rule) : Matcher Rule := fun c => body.matcher (openRules c.rest) r c

lemma reading_eq_matcher {r : Rule} {c : Cursor} {depth : Nat} (h : 8 * c.rest.length + 8 ≤ depth) :
    r.reading c = body.matcher depth r c := by
  have bounded := r.rank_lt
  refine matcher_eq_of_rank_lt ?_ (by omega)
  unfold openRules
  omega

lemma sound_reading (r : Rule) : r.reading.Sound := fun c => body.matcher_sound (openRules c.rest) r c

lemma derived_reading (r : Rule) : r.reading.Derived body (.rule r) :=
  fun h => Grammar.derives_of_matcher body _ r h

lemma steady_reading (r : Rule) : r.reading.Steady := fun c => body.matcher_steady (openRules c.rest) r c

lemma matcher_reading {g : Peg Rule} {c : Cursor} {depth : Nat} (h : 8 * c.rest.length + 8 ≤ depth) :
    g.matcher reading c = g.matcher (body.matcher depth) c := by
  refine Peg.matcher_congr sound_reading (fun r d hd => reading_eq_matcher ?_) g (Nat.le_refl _)
  omega

/-- Reading by a rule is reading by its body. -/
theorem reading_eq (r : Rule) : r.reading = .rule r ((body r).matcher reading) := by
  funext c
  obtain ⟨depth, bound, room⟩ : ∃ depth, openRules c.rest = depth + 1 ∧ 8 * c.rest.length + 8 ≤ depth :=
    ⟨8 * c.rest.length + 15, by unfold openRules; omega, by omega⟩
  unfold reading
  rw [bound]
  refine Matcher.rule_congr ?_ r
  cases body r with
  | word p => rfl
  | phrase g => exact (matcher_reading room).symm

end Rule

end Stencil
