import Stencil.Grammar.Pattern

/-!
# Parsing expression grammars

A grammar gives every rule a body: a pattern, or an expression over patterns and rules. Reading a text
by a rule yields the tree of the rules that matched, and keeps, for a text that is refused, which rules
were tried at the furthest place. Main statements: a rule that matches reads a first part of the text,
and what was tried before never changes what matches.
-/

namespace Stencil

/-- A parsing expression over rules `ρ`. -/
inductive Peg (ρ : Type) where
  | token (p : Pattern)
  | seq (g h : Peg ρ)
  /-- The second expression is tried only where the first fails. -/
  | alt (g h : Peg ρ)
  | many (g : Peg ρ)
  | opt (g : Peg ρ)
  | rule (r : ρ)

/-- The body of a rule. A rule with a pattern for a body is one word: nothing inside it is tried on its
own account. -/
inductive Peg.Body (ρ : Type) where
  | word (p : Pattern)
  | phrase (g : Peg ρ)

/-- What a rule matched, from where to where, and what the rules in its body matched, in order. -/
inductive Tree (ρ : Type) where
  | node (rule : ρ) (start stop : Cursor) (children : List (Tree ρ))

namespace Tree

variable {ρ : Type}

def rule : Tree ρ → ρ
  | node r _ _ _ => r

def start : Tree ρ → Cursor
  | node _ c _ _ => c

def stop : Tree ρ → Cursor
  | node _ _ d _ => d

def children : Tree ρ → List (Tree ρ)
  | node _ _ _ ts => ts

def text (t : Tree ρ) : List Char := t.start.upTo t.stop

mutual

/-- Gives a tree a meaning from the bottom up, each node from the meanings of its children. -/
def eval {ε α : Type} (meaning : ρ → Cursor → Cursor → List α → Except ε α) :
    Tree ρ → Except ε α
  | node r c d ts => do meaning r c d (← evalAll meaning ts)

def evalAll {ε α : Type} (meaning : ρ → Cursor → Cursor → List α → Except ε α) :
    List (Tree ρ) → Except ε (List α)
  | [] => return []
  | t :: ts => do return (← eval meaning t) :: (← evalAll meaning ts)

end

end Tree

/-- The rules tried in vain at the furthest place so far, in the order of the trials. -/
structure Attempts (ρ : Type) where
  offset : Nat
  rules : List ρ

namespace Attempts

variable {ρ : Type}

def none : Attempts ρ := ⟨0, []⟩

def countAt (a : Attempts ρ) (offset : Nat) : Nat :=
  if offset = a.offset then a.rules.length else 0

/-- Records that `r` failed at a place where `before` rules were on record when it began. It stands for
all that its body tried there, unless that was one rule only; a place that lies further back is not
recorded. -/
def failed (a : Attempts ρ) (offset before : Nat) (r : ρ) : Attempts ρ :=
  if a.countAt offset = before + 1 then a
  else if offset = a.offset then ⟨offset, a.rules.take before ++ [r]⟩
  else if a.offset < offset then ⟨offset, [r]⟩
  else a

end Attempts

/-- Reads a first part of a text: where it ends and the trees it consists of, if it can be read, and the
attempts on record afterwards. -/
abbrev Matcher (ρ : Type) := Cursor → Attempts ρ → Option (Cursor × List (Tree ρ)) × Attempts ρ

namespace Matcher

variable {ρ : Type}

def fail : Matcher ρ := fun _ a => (none, a)

def token (p : Pattern) : Matcher ρ := fun c a => ((p.run c).map (·, []), a)

def seq (m n : Matcher ρ) : Matcher ρ := fun c a =>
  match m c a with
  | (none, a) => (none, a)
  | (some (d, ts), a) =>
    match n d a with
    | (none, a) => (none, a)
    | (some (e, us), a) => (some (e, ts ++ us), a)

def alt (m n : Matcher ρ) : Matcher ρ := fun c a =>
  match m c a with
  | (none, a) => n c a
  | r => r

def opt (m : Matcher ρ) : Matcher ρ := fun c a =>
  match m c a with
  | (none, a) => (some (c, []), a)
  | r => r

/-- Reads by `m` as often as it succeeds; the characters left at the start bound the rounds. The last
round, which reads nothing more, is on record too. -/
def repeated (m : Matcher ρ) : List Char → Matcher ρ
  | [], c, a => (some (c, []), (m c a).2)
  | _ :: bound, c, a =>
    match m c a with
    | (none, a) => (some (c, []), a)
    | (some (d, ts), a) =>
      match repeated m bound d a with
      | (none, a) => (none, a)
      | (some (e, us), a) => (some (e, ts ++ us), a)

/-- Reads by a rule with the given body and makes a tree of it. -/
def rule (r : ρ) (body : Matcher ρ) : Matcher ρ := fun c a =>
  match body c a with
  | (some (d, ts), b) => (some (d, [.node r c d ts]), b)
  | (none, b) => (none, b.failed c.offset (a.countAt c.offset) r)

end Matcher

def Peg.matcher {ρ : Type} (call : ρ → Matcher ρ) : Peg ρ → Matcher ρ
  | token p => .token p
  | seq g h => .seq (g.matcher call) (h.matcher call)
  | alt g h => .alt (g.matcher call) (h.matcher call)
  | many g => fun c a => Matcher.repeated (g.matcher call) c.rest c a
  | opt g => .opt (g.matcher call)
  | rule r => call r

def Peg.Body.matcher {ρ : Type} (call : ρ → Matcher ρ) : Peg.Body ρ → Matcher ρ
  | word p => .token p
  | phrase g => g.matcher call

abbrev Grammar (ρ : Type) := ρ → Peg.Body ρ

/-- Reads by a rule, with at most `depth` rules open at once. -/
def Grammar.matcher {ρ : Type} (grammar : Grammar ρ) : Nat → ρ → Matcher ρ
  | 0, _ => .fail
  | depth + 1, r => .rule r ((grammar r).matcher (grammar.matcher depth))

/-! ### What a matcher reads -/

namespace Matcher

variable {ρ : Type}

section

variable {m n : Matcher ρ} {c d : Cursor} {ts : List (Tree ρ)} {a b : Attempts ρ}

theorem seq_eq_some (h : m.seq n c a = (some (d, ts), b)) :
    ∃ e us vs a', m c a = (some (e, us), a') ∧ n e a' = (some (d, vs), b) ∧ ts = us ++ vs := by
  unfold seq at h
  split at h
  · cases h
  · next e us a' first =>
    split at h
    · cases h
    · next second =>
      cases h
      exact ⟨e, us, _, a', first, second, rfl⟩

theorem alt_eq_some (h : m.alt n c a = (some (d, ts), b)) :
    m c a = (some (d, ts), b) ∨ ∃ a', n c a' = (some (d, ts), b) := by
  unfold alt at h
  split at h
  · exact .inr ⟨_, h⟩
  · exact .inl h

theorem opt_eq_some (h : m.opt c a = (some (d, ts), b)) : d = c ∧ ts = [] ∨ m c a = (some (d, ts), b) := by
  unfold opt at h
  split at h
  · cases h
    exact .inl ⟨rfl, rfl⟩
  · exact .inr h

/-- Repetition never fails. -/
theorem exists_repeated (m : Matcher ρ) (bound : List Char) (c : Cursor) (a : Attempts ρ) :
    ∃ d ts b, m.repeated bound c a = (some (d, ts), b) := by
  induction bound generalizing c a with
  | nil => exact ⟨c, [], _, rfl⟩
  | cons x bound ih =>
    unfold repeated
    rcases m c a with ⟨_ | ⟨d, ts⟩, b⟩
    · exact ⟨c, [], b, rfl⟩
    · obtain ⟨e, us, b', rest⟩ := ih d b
      exact ⟨e, ts ++ us, b', by simp only [rest]⟩

/-- Repetition reads a first time and goes on, or it reads nothing. -/
theorem repeated_cons (m : Matcher ρ) (x : Char) (bound : List Char) :
    m.repeated (x :: bound) = (m.seq (m.repeated bound)).opt := by
  funext c a
  unfold opt seq
  rw [repeated]
  rcases m c a with ⟨_ | ⟨d, ts⟩, b⟩
  · rfl
  · obtain ⟨e, us, b', rest⟩ := exists_repeated m bound d b
    simp only [rest]

end

/-- Whatever a sound matcher reads is a first part of the text. -/
def Sound (m : Matcher ρ) : Prop :=
  ∀ c a d ts b, m c a = (some (d, ts), b) → ∃ cs, c.Reaches d cs

theorem Sound.token (p : Pattern) : Sound (token p : Matcher ρ) := by
  intro c a d ts b h
  simp only [Matcher.token, Prod.mk.injEq, Option.map_eq_some_iff] at h
  obtain ⟨⟨e, he, rfl, rfl⟩, rfl⟩ := h
  exact Pattern.run_reaches he

theorem Sound.seq {m n : Matcher ρ} (hm : m.Sound) (hn : n.Sound) : (m.seq n).Sound := by
  intro c a d ts b h
  obtain ⟨e, us, vs, a', first, second, -⟩ := seq_eq_some h
  obtain ⟨cs, hcs⟩ := hm _ _ _ _ _ first
  obtain ⟨ds, hds⟩ := hn _ _ _ _ _ second
  exact ⟨cs ++ ds, hcs.trans hds⟩

theorem Sound.alt {m n : Matcher ρ} (hm : m.Sound) (hn : n.Sound) : (m.alt n).Sound := by
  intro c a d ts b h
  rcases alt_eq_some h with read | ⟨a', read⟩
  · exact hm _ _ _ _ _ read
  · exact hn _ _ _ _ _ read

theorem Sound.opt {m : Matcher ρ} (hm : m.Sound) : m.opt.Sound := by
  intro c a d ts b h
  rcases opt_eq_some h with ⟨rfl, -⟩ | read
  · exact ⟨[], .refl d⟩
  · exact hm _ _ _ _ _ read

theorem Sound.repeated {m : Matcher ρ} (hm : m.Sound) (bound : List Char) :
    (m.repeated bound).Sound := by
  induction bound with
  | nil =>
    intro c a d ts b h
    cases h
    exact ⟨[], .refl c⟩
  | cons x bound ih =>
    rw [repeated_cons]
    exact (hm.seq ih).opt

theorem Sound.rule {m : Matcher ρ} (hm : m.Sound) (r : ρ) : (m.rule r).Sound := by
  intro c a d ts b h
  unfold Matcher.rule at h
  split at h
  · next e us b' he =>
    obtain ⟨⟨rfl, rfl⟩, rfl⟩ : (e = d ∧ [Tree.node r c e us] = ts) ∧ b' = b := by simpa using h
    exact hm _ _ _ _ _ he
  · simp at h

end Matcher

/-- An expression reads a first part of the text when the rules do. -/
theorem Peg.matcher_sound {ρ : Type} {call : ρ → Matcher ρ} (h : ∀ r, (call r).Sound) (g : Peg ρ) :
    (g.matcher call).Sound := by
  induction g with
  | token p => exact .token p
  | seq g h ihg ihh => exact ihg.seq ihh
  | alt g h ihg ihh => exact ihg.alt ihh
  | many g ih => exact fun c a d ts b e => ih.repeated c.rest c a d ts b e
  | opt g ih => exact ih.opt
  | rule r => exact h r

/-- A rule reads a first part of the text. -/
theorem Grammar.matcher_sound {ρ : Type} (grammar : Grammar ρ) (depth : Nat) (r : ρ) :
    (grammar.matcher depth r).Sound := by
  induction depth generalizing r with
  | zero => intro c a d ts b h; simp [Grammar.matcher, Matcher.fail] at h
  | succ depth ih =>
    unfold Grammar.matcher
    cases grammar r with
    | word p => exact .rule (.token p) r
    | phrase g => exact .rule (Peg.matcher_sound ih g) r

/-! ### What was tried before does not matter -/

namespace Matcher

variable {ρ : Type}

/-- What a steady matcher reads does not depend on the attempts on record. -/
def Steady (m : Matcher ρ) : Prop := ∀ c a b, (m c a).1 = (m c b).1

theorem Steady.token (p : Pattern) : Steady (token p : Matcher ρ) := fun _ _ _ => rfl

theorem Steady.seq {m n : Matcher ρ} (hm : m.Steady) (hn : n.Steady) : (m.seq n).Steady := by
  intro c a b
  have h := hm c a b
  unfold Matcher.seq
  rcases ha : m c a with ⟨_ | ⟨d, ts⟩, a'⟩ <;> rcases hb : m c b with ⟨_ | ⟨e, us⟩, b'⟩ <;>
    simp only [ha, hb, reduceCtorEq] at h ⊢
  obtain ⟨rfl, rfl⟩ : d = e ∧ ts = us := by simpa using h
  have k := hn d a' b'
  rcases ha : n d a' with ⟨_ | ⟨f, vs⟩, a''⟩ <;> rcases hb : n d b' with ⟨_ | ⟨g, ws⟩, b''⟩ <;>
    simp_all

theorem Steady.alt {m n : Matcher ρ} (hm : m.Steady) (hn : n.Steady) : (m.alt n).Steady := by
  intro c a b
  have h := hm c a b
  unfold Matcher.alt
  rcases ha : m c a with ⟨_ | r, a'⟩ <;> rcases hb : m c b with ⟨_ | r', b'⟩ <;>
    simp only [ha, hb, reduceCtorEq] at h ⊢
  · exact hn c a' b'
  · exact h

theorem Steady.opt {m : Matcher ρ} (hm : m.Steady) : m.opt.Steady := by
  intro c a b
  have h := hm c a b
  unfold Matcher.opt
  rcases ha : m c a with ⟨_ | r, a'⟩ <;> rcases hb : m c b with ⟨_ | r', b'⟩ <;>
    simp only [ha, hb, reduceCtorEq] at h ⊢
  exact h

theorem Steady.repeated {m : Matcher ρ} (hm : m.Steady) (bound : List Char) :
    (m.repeated bound).Steady := by
  induction bound with
  | nil => exact fun _ _ _ => rfl
  | cons x bound ih =>
    rw [repeated_cons]
    exact (hm.seq ih).opt

theorem Steady.rule {m : Matcher ρ} (hm : m.Steady) (r : ρ) : (m.rule r).Steady := by
  intro c a b
  have h := hm c a b
  unfold Matcher.rule
  rcases ha : m c a with ⟨_ | ⟨d, ts⟩, a'⟩ <;> rcases hb : m c b with ⟨_ | ⟨e, us⟩, b'⟩ <;>
    simp_all

end Matcher

/-- An expression is steady when the rules are. -/
theorem Peg.matcher_steady {ρ : Type} {call : ρ → Matcher ρ} (h : ∀ r, (call r).Steady) (g : Peg ρ) :
    (g.matcher call).Steady := by
  induction g with
  | token p => exact .token p
  | seq g h ihg ihh => exact ihg.seq ihh
  | alt g h ihg ihh => exact ihg.alt ihh
  | many g ih => exact fun c a b => ih.repeated c.rest c a b
  | opt g ih => exact ih.opt
  | rule r => exact h r

/-- A rule is steady. -/
theorem Grammar.matcher_steady {ρ : Type} (grammar : Grammar ρ) (depth : Nat) (r : ρ) :
    (grammar.matcher depth r).Steady := by
  induction depth generalizing r with
  | zero => exact fun _ _ _ => rfl
  | succ depth ih =>
    unfold Grammar.matcher
    cases grammar r with
    | word p => exact .rule (.token p) r
    | phrase g => exact .rule (Peg.matcher_steady ih g) r

end Stencil
