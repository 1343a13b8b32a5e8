import Stencil.Proofs.Reading.Plain

/-!
# How expressions are read

The places where an expression is over, the rules of its operands and operators, and things with commas between
them. Main statements: `Rule.reads_expr`, an operand that no operator follows is an expression, and
`Rule.Parted.separated`, things are read one after the other where each is read before a comma.
-/

namespace Stencil

variable {c d e : Cursor} {depth : Nat}

/-! ### Places -/

/-- The blanks that may stand between the words of an expression. -/
def Rule.blankChars : List Char := [' ', '\t', '\r', '\n']

/-- The characters that follow an expression in what it is a part of. -/
def Rule.closers : List Char := [')', ']', '\x7d', ',', ':']

/-- A place where an expression is over: blanks apart, something that closes it is next, or nothing at all. -/
def Cursor.Closes (c : Cursor) : Prop :=
  ∃ d gap, c.Reaches d gap ∧ (∀ x ∈ gap, x ∈ Rule.blankChars) ∧ ∀ x ∈ d.rest.head?, x ∈ Rule.closers

lemma Cursor.Reaches.closes {x : Char} {w : List Char} (h : c.Reaches d (x :: w)) (hx : x ∈ Rule.closers) :
    c.Closes :=
  ⟨c, [], .refl c, nofun, h.head hx⟩

/-- The character after an expression is a blank or closes what the expression is a part of. -/
lemma Cursor.Closes.head (h : c.Closes) {P : Char → Prop} (hp : ∀ x ∈ Rule.blankChars ++ Rule.closers, P x) :
    ∀ x ∈ c.rest.head?, P x := by
  obtain ⟨d, gap, reaches, blank, closer⟩ := h
  intro x hx
  rw [reaches.1] at hx
  cases gap with
  | nil => exact hp x (List.mem_append_right _ (closer x hx))
  | cons y gap =>
    obtain rfl := Option.some.inj hx
    exact hp y (List.mem_append_left _ (blank y (List.mem_cons_self ..)))
namespace Rule

/-! ### The grammar of expressions -/

/-- The blanks between words. -/
def gap : Peg Rule := .token (.many (.one fun c => c == ' ' || c == '\t' || c == '\r' || c == '\n'))

/-- The rules of operands without parentheses. -/
def operands : List Rule := [range, list, map, dqString, sqString, number, boolean, nullLit, reference]

/-- The operators before an operand, each with the blanks after it. -/
def prefixes : Peg Rule := .many (.seq (.choice opNot [opNeg]) gap)

/-- An operand: an expression in parentheses or one of the rules of operands. -/
def operand : Peg Rule :=
  .alt (.seq (.seq (.seq (.seq (.token (.lit "(")) gap) (.rule expr)) gap) (.token (.lit ")")))
    (.choice range operands.tail)

/-- The operators between operands. -/
def operators : Peg Rule :=
  .choice opOr [opAnd, opEq, opNe, opLe, opGe, opLt, opGt, opAdd, opSub, opMul, opDiv, opMod]

/-- An operator after an operand, and the next operand. -/
def step : Peg Rule := .seq (.seq (.seq (.seq gap operators) gap) prefixes) operand

/-- One thing or several with commas between them. -/
def separated (g : Peg Rule) : Peg Rule :=
  .seq g (.many (.seq (.seq (.seq gap (.token (.lit ","))) gap) g))

lemma body_expr : body expr = .phrase (.seq (.seq prefixes operand) (.many step)) := rfl

lemma body_list : body list =
    .phrase (.seq (.seq (.seq (.seq (.token (.lit "[")) gap) (.opt (separated (.rule expr)))) gap)
      (.token (.lit "]"))) := rfl

lemma body_map : body map =
    .phrase (.seq (.seq (.seq (.seq (.token (.lit "\x7b")) gap) (.opt (separated (.rule mapEntry)))) gap)
      (.token (.lit "\x7d"))) := rfl

lemma body_mapEntry : body mapEntry =
    .phrase (.seq (.seq (.seq (.seq (.rule expr) gap) (.token (.lit ":"))) gap) (.rule expr)) := rfl

lemma body_range : body range =
    .phrase (.seq (.seq (.seq (.seq (.seq (.seq (.seq (.seq (.token (.lit "[")) gap) (.rule expr)) gap)
      (.token (.lit ".."))) gap) (.rule expr)) gap) (.token (.lit "]"))) := rfl

lemma body_dqString : body dqString =
    .phrase (.seq (.seq (.token (.lit "\"")) (.rule dqInner)) (.token (.lit "\""))) := rfl

lemma body_sqString : body sqString =
    .phrase (.seq (.seq (.token (.lit "'")) (.rule sqInner)) (.token (.lit "'"))) := rfl

/-! ### Rules that fail -/

/-- An expression fails where the text does not start with one of its openers. -/
lemma fails_of_openers {g : Peg Rule} {n : Nat} {cs : List Char} (ho : g.openers (body.openers n) = some cs)
    (hc : ∀ x ∈ c.rest.head?, x ∉ cs) : (g.matcher (body.matcher depth)).Fails c := by
  have derived : (g.matcher (body.matcher depth)).Derived body g :=
    Peg.derived_matcher (Grammar.derives_of_matcher body depth) g
  refine derived.fails fun d ts hd => ?_
  obtain ⟨⟨x, hx, xs, rest⟩, -⟩ := hd.opened ho
  exact hc x (by rw [rest]; rfl) hx

lemma mem_digits {x : Char} (h : x.isDigit) : x ∈ "0123456789".toList := by
  obtain ⟨low, high⟩ := Char.isDigit_iff_toNat.mp h
  have bounded : ∀ k ≤ '9'.toNat, '0'.toNat ≤ k → Char.ofNat k ∈ "0123456789".toList := by decide
  have found := bounded x.toNat high low
  rwa [Char.ofNat_toNat] at found

/-- A number starts with a minus or a digit. -/
lemma fails_number (hc : ∀ x ∈ c.rest.head?, x ≠ '-' ∧ x.isDigit = false) :
    (body.matcher depth number).Fails c := by
  cases depth with
  | zero => exact fun _ => rfl
  | succ depth =>
    obtain ⟨after, hbody⟩ : ∃ after : Pattern, body number =
        .word (.seq (.seq (.seq (.opt (.lit "-")) (.several (.one Char.isDigit))) after) _) := ⟨_, rfl⟩
    refine fails_word hbody ?_
    have noMinus : (Pattern.lit "-").run c = none :=
      Pattern.run_eq_none rfl fun x hx hm => (hc x hx).1 (List.mem_singleton.mp hm)
    have noDigit : (Pattern.one Char.isDigit).run c = none := Pattern.run_one_eq_none fun x hx => (hc x hx).2
    have noDigits : (Pattern.several (.one Char.isDigit)).run c = none := by
      show ((Pattern.one Char.isDigit).run c).bind _ = none
      rw [noDigit]
      rfl
    show (((some (((Pattern.lit "-").run c).getD c)).bind _).bind _).bind _ = none
    rw [noMinus]
    show (((Pattern.several (.one Char.isDigit)).run c).bind _).bind _ = none
    rw [noDigits]
    rfl

/-! ### Where an expression is over -/

lemma reads_gap {w : List Char} (h : c.Reaches d w) (hw : ∀ x ∈ w, x ∈ blankChars)
    (hd : ∀ x ∈ d.rest.head?, x ∉ blankChars) : (gap.matcher (body.matcher depth)).Reads c d [] := by
  have isBlank (x : Char) : (x == ' ' || x == '\t' || x == '\r' || x == '\n') = true ↔ x ∈ blankChars := by
    simp [blankChars, or_assoc]
  refine Matcher.reads_token (Pattern.run_many_one h (fun x hx => (isBlank x).mpr (hw x hx)) fun x hx => ?_)
  exact Bool.eq_false_iff.mpr fun hb => hd x hx ((isBlank x).mp hb)

lemma reads_no_gap (hc : ∀ x ∈ c.rest.head?, x ∉ blankChars) : (gap.matcher (body.matcher depth)).Reads c c [] :=
  reads_gap (.refl c) nofun hc

/-- Where an expression is over, no operator follows. -/
lemma fails_step (hc : c.Closes) : (step.matcher (body.matcher depth)).Fails c := by
  obtain ⟨d, w, reaches, blank, closer⟩ := hc
  have apart : ∀ x ∈ closers, x ∉ blankChars := forall_mem_of_all (by decide)
  have afterGap : (gap.matcher (body.matcher depth)).Reads c d [] :=
    reads_gap reaches blank fun x hx => apart x (closer x hx)
  obtain ⟨cs, opens, none⟩ : ∃ cs, operators.openers (body.openers 1) = some cs ∧ ∀ x ∈ closers, x ∉ cs :=
    ⟨_, rfl, forall_mem_of_all (by decide)⟩
  have noOperator : (operators.matcher (body.matcher depth)).Fails d :=
    fails_of_openers opens fun x hx => none x (closer x hx)
  exact (afterGap.seq_fails noOperator).seq.seq.seq

/-! ### Operands -/

/-- Whether a rule opens with none of some characters. -/
def opensOff (xs : List Char) (r : Rule) : Bool :=
  match r with
  | number => xs.all fun x => x != '-' && !x.isDigit
  | r => (body.openers 3 r).any fun cs => xs.all fun x => !cs.contains x

lemma fails_of_opensOff {xs : List Char} (hc : ∀ x ∈ c.rest.head?, x ∈ xs) {rs : List Rule}
    (h : rs.all (opensOff xs)) : ∀ r ∈ rs, (body.matcher depth r).Fails c := by
  intro r hr
  have off := List.all_eq_true.mp h r hr
  by_cases hn : r = .number
  · subst hn
    refine fails_number fun x hx => ?_
    have other := List.all_eq_true.mp off x (hc x hx)
    simpa using other
  · obtain ⟨cs, opens, away⟩ : ∃ cs, body.openers 3 r = some cs ∧ (xs.all fun x => !cs.contains x) = true := by
      cases r
      case number => exact absurd rfl hn
      all_goals exact (Option.any_eq_true _ _).mp off
    have single : ((Peg.rule r).matcher (body.matcher depth)).Fails c := by
      refine fails_of_openers opens fun x hx hm => ?_
      have apart := List.all_eq_true.mp away x (hc x hx)
      rw [List.contains_iff_mem.mpr hm] at apart
      cases apart
    exact single

/-- No operator is read where neither of them is. -/
lemma reads_unprefixed (hf : ∀ q ∈ [opNot, opNeg], (body.matcher depth q).Fails c) :
    (prefixes.matcher (body.matcher depth)).Reads c c [] :=
  Matcher.Fails.repeated (Matcher.Fails.seq (Peg.fails_choice hf)) c.rest

/-- The first of the rules of operands that does not fail is read, where there is no parenthesis. -/
lemma reads_operand {r : Rule} {front back : List Rule} {t : Tree Rule} (hs : operands = front ++ r :: back)
    (hf : ∀ q ∈ front, (body.matcher depth q).Fails c) (hp : ∀ x ∈ c.rest.head?, x ∉ ['('])
    (hr : (body.matcher depth r).Reads c d [t]) : (operand.matcher (body.matcher depth)).Reads c d [t] := by
  have noParen : ((Peg.seq (.seq (.seq (.seq (.token (.lit "(")) gap) (.rule expr)) gap)
      (.token (.lit ")"))).matcher (body.matcher depth)).Fails c :=
    @fails_of_openers c depth _ 0 _ rfl hp
  exact .right noParen (Peg.reads_choice hs hf hr)

/-- Operators and an operand that no operator follows are an expression. -/
lemma reads_expr {ts us : List (Tree Rule)} (hp : (prefixes.matcher (body.matcher depth)).Reads c d ts)
    (ho : (operand.matcher (body.matcher depth)).Reads d e us) (he : e.Closes) :
    (body.matcher (depth + 1) expr).Reads c e [.node expr c e (ts ++ us)] := by
  have noStep : ((Peg.many step).matcher (body.matcher depth)).Reads e e [] :=
    Matcher.Fails.repeated (fails_step he) e.rest
  have all := (hp.seq ho).seq noStep
  rw [List.append_nil] at all
  exact reads_phrase body_expr all

/-- An operand that no operator stands before or follows is an expression. -/
lemma reads_sole {r : Rule} {front back : List Rule} {t : Tree Rule} (hs : operands = front ++ r :: back)
    (hf : ∀ q ∈ opNot :: opNeg :: front, (body.matcher depth q).Fails c) (hp : ∀ x ∈ c.rest.head?, x ∉ ['('])
    (hr : (body.matcher depth r).Reads c d [t]) (hd : d.Closes) :
    (body.matcher (depth + 1) expr).Reads c d [.node expr c d [t]] := by
  obtain ⟨noNot, hf⟩ := List.forall_mem_cons.mp hf
  obtain ⟨noNeg, hf⟩ := List.forall_mem_cons.mp hf
  have noPrefix : (prefixes.matcher (body.matcher depth)).Reads c c [] :=
    reads_unprefixed (List.forall_mem_cons.mpr ⟨noNot, List.forall_mem_singleton.mpr noNeg⟩)
  exact reads_expr noPrefix (reads_operand hs hf hp hr) hd

/-- Where no operand starts, there is no expression. -/
lemma fails_expr (hc : ∀ x ∈ c.rest.head?, x ∈ closers) : (body.matcher depth expr).Fails c := by
  cases depth with
  | zero => exact fun _ => rfl
  | succ depth =>
    have noPrefix : (prefixes.matcher (body.matcher depth)).Reads c c [] :=
      reads_unprefixed (fails_of_opensOff hc (by decide))
    have noOperand : ∀ r ∈ operands, (body.matcher depth r).Fails c := fails_of_opensOff hc (by decide)
    have noParen : ∀ x ∈ c.rest.head?, x ∉ ['('] := by
      have other : ∀ x ∈ closers, x ∉ ['('] := forall_mem_of_all (by decide)
      exact fun x hx => other x (hc x hx)
    have nothing : (operand.matcher (body.matcher depth)).Fails c :=
      Matcher.Fails.alt (@fails_of_openers c depth _ 0 _ rfl noParen) (Peg.fails_choice noOperand)
    exact fails_phrase body_expr (noPrefix.seq_fails nothing).seq

/-! ### Things with commas between them -/

lemma intercalate_cons (sep l : List Char) (ls : List (List Char)) :
    sep.intercalate (l :: ls) = l ++ ls.flatMap (sep ++ ·) := by
  induction ls generalizing l with
  | nil => simp [List.intercalate]
  | cons m ls ih =>
    have rest := ih m
    unfold List.intercalate at rest ⊢
    rw [List.intersperse_cons_cons, List.flatten_cons, List.flatten_cons, rest, List.flatMap_cons, List.append_assoc]

/-- What is read of several things, each from its text: before a comma, or before what closes them all. -/
structure Parted {α : Type} (depth : Nat) (g : Peg Rule) (text : α → List Char) (Means : α → Tree Rule → Prop)
    (as : List α) : Prop where
  reads : ∀ a ∈ as, ∀ {c d}, c.Reaches d (text a) → d.Closes →
    ∃ t, (g.matcher (body.matcher depth)).Reads c d [t] ∧ Means a t
  starts : ∀ a ∈ as, ∃ x xs, text a = x :: xs ∧ x ∉ blankChars

section Separated

variable {α : Type} {g : Peg Rule} {text : α → List Char} {Means : α → Tree Rule → Prop} {as : List α}

lemma Parted.tail {a : α} (h : Parted depth g text Means (a :: as)) : Parted depth g text Means as :=
  ⟨fun b hb => h.reads b (List.mem_cons_of_mem _ hb), fun b hb => h.starts b (List.mem_cons_of_mem _ hb)⟩

/-- What follows one of several things closes it. -/
lemma closes_separated {x : Char} {w : List Char} (hx : x ∈ closers)
    (h : c.Reaches d (as.flatMap fun a => ", ".toList ++ text a)) (hd : d.Reaches e (x :: w)) : c.Closes := by
  cases as with
  | nil =>
    obtain rfl := h.eq_of_nil
    exact hd.closes hx
  | cons a as => exact Cursor.Reaches.closes (show c.Reaches d (',' :: _) from h) (by decide)

/-- One round of several things reads a comma, a blank and a thing. -/
lemma Parted.round {a : α} (hp : Parted depth g text Means (a :: as))
    (h : c.Reaches d (", ".toList ++ text a)) (hd : d.Closes) :
    ∃ t, ((Peg.seq (.seq (.seq gap (.token (.lit ","))) gap) g).matcher (body.matcher depth)).Reads c d [t] ∧
      Means a t := by
  obtain ⟨b, hb, hbd⟩ := Cursor.Reaches.split (show c.Reaches d ([','] ++ ([' '] ++ text a)) from h)
  obtain ⟨b', blank, thing⟩ := hbd.split
  obtain ⟨x, xs, hx, visible⟩ := hp.starts a (List.mem_cons_self ..)
  obtain ⟨t, read, means⟩ := hp.reads a (List.mem_cons_self ..) thing hd
  rw [hx] at thing
  have noGap : (gap.matcher (body.matcher depth)).Reads c c [] := reads_no_gap (hb.head (by decide))
  have comma : (Matcher.token (.lit ",") : Matcher Rule).Reads c b [] := Matcher.reads_token (Pattern.run_word hb)
  have oneBlank : (gap.matcher (body.matcher depth)).Reads b b' [] :=
    reads_gap blank (forall_mem_of_all (by decide)) (thing.head visible)
  exact ⟨t, ((noGap.seq comma).seq oneBlank).seq read, means⟩

/-- Things with commas before them are read one after the other, up to what closes them all. -/
lemma Parted.rounds {x : Char} {w : List Char} (hp : Parted depth g text Means as) (hx : x ∈ [']', '\x7d'])
    (h : c.Reaches d (as.flatMap fun a => ", ".toList ++ text a)) (hd : d.Reaches e (x :: w)) :
    ∃ ts, List.Forall₂ Means as ts ∧ ∀ bound : List Char, as.length ≤ bound.length →
      (Matcher.repeated ((Peg.seq (.seq (.seq gap (.token (.lit ","))) gap) g).matcher (body.matcher depth))
        bound).Reads c d ts := by
  induction as generalizing c with
  | nil =>
    obtain rfl := h.eq_of_nil
    have visible : x ∉ blankChars ∧ x ∉ [','] := by
      have apart : ∀ x ∈ [']', '\x7d'], x ∉ blankChars ∧ x ∉ [','] := forall_mem_of_all (by decide)
      exact apart x hx
    have noComma : (Matcher.token (.lit ",") : Matcher Rule).Fails c :=
      Matcher.fails_token (Pattern.run_eq_none rfl (hd.head visible.2))
    have noGap : (gap.matcher (body.matcher depth)).Reads c c [] := reads_no_gap (hd.head visible.1)
    exact ⟨[], .nil, fun bound _ => Matcher.Fails.repeated (noGap.seq_fails noComma).seq.seq bound⟩
  | cons a as ih =>
    obtain ⟨b, here, later⟩ := Cursor.Reaches.split h
    have closer : x ∈ closers := by
      have among : ∀ x ∈ [']', '\x7d'], x ∈ closers := forall_mem_of_all (by decide)
      exact among x hx
    obtain ⟨t, read, means⟩ := hp.round here (closes_separated closer later hd)
    obtain ⟨ts, all, reads⟩ := ih hp.tail later
    refine ⟨t :: ts, .cons means all, fun bound hb => ?_⟩
    cases bound with
    | nil => cases hb
    | cons y bound => exact read.repeated_cons (reads bound (Nat.le_of_succ_le_succ hb)) y

/-- Things with commas between them are read one after the other. -/
lemma Parted.separated {x : Char} {w : List Char} (hp : Parted depth g text Means as)
    (hn : (g.matcher (body.matcher depth)).Fails d) (hx : x ∈ [']', '\x7d'])
    (h : c.Reaches d (", ".toList.intercalate (as.map text))) (hd : d.Reaches e (x :: w)) :
    ∃ ts, ((Peg.opt (separated g)).matcher (body.matcher depth)).Reads c d ts ∧ List.Forall₂ Means as ts := by
  cases as with
  | nil =>
    obtain rfl := h.eq_of_nil
    exact ⟨[], Matcher.Fails.opt hn.seq, .nil⟩
  | cons a as =>
    rw [List.map_cons, intercalate_cons, List.flatMap_map] at h
    obtain ⟨b, here, later⟩ := h.split
    have closer : x ∈ closers := by
      have among : ∀ x ∈ [']', '\x7d'], x ∈ closers := forall_mem_of_all (by decide)
      exact among x hx
    obtain ⟨t, read, means⟩ := hp.reads a (List.mem_cons_self ..) here (closes_separated closer later hd)
    obtain ⟨ts, all, reads⟩ := hp.tail.rounds hx later hd
    have room : as.length ≤ b.rest.length := by
      have pieces : ∀ l ∈ as.map fun a => ", ".toList ++ text a, l ≠ [] :=
        List.forall_mem_map.mpr fun a _ => List.cons_ne_nil _ _
      have total := length_le_flatten pieces
      rw [List.length_map, ← List.flatMap_def] at total
      rw [later.1, List.length_append]
      omega
    exact ⟨t :: ts, Matcher.Reads.opt (read.seq (reads b.rest room)), .cons means all⟩

/-- Before the first of several things, or before what closes them where there is none, there is no blank. -/
lemma Parted.head {x : Char} {w : List Char} (hp : Parted depth g text Means as) (hx : x ∉ blankChars)
    (h : c.Reaches d (", ".toList.intercalate (as.map text))) (hd : d.Reaches e (x :: w)) :
    ∀ y ∈ c.rest.head?, y ∉ blankChars := by
  cases as with
  | nil =>
    obtain rfl := h.eq_of_nil
    exact hd.head hx
  | cons a as =>
    rw [List.map_cons, intercalate_cons] at h
    obtain ⟨y, ys, hy, visible⟩ := hp.starts a (List.mem_cons_self ..)
    rw [hy] at h
    exact Cursor.Reaches.head h visible

/-- Between brackets, things with commas between them are read as the phrase that stands for them. -/
lemma reads_bracketed {r : Rule} {opening closing : String} {x : Char} {a b : Cursor} (hp : Parted depth g text Means as)
    (hr : body r = .phrase (.seq (.seq (.seq (.seq (.token (.lit opening)) gap) (.opt (separated g))) gap)
      (.token (.lit closing))))
    (hn : (g.matcher (body.matcher depth)).Fails a) (hc : closing.toList = [x]) (hx : x ∈ [']', '\x7d'])
    (hb : c.Reaches b opening.toList) (h : b.Reaches a (", ".toList.intercalate (as.map text)))
    (ha : a.Reaches d closing.toList) :
    ∃ ts, (body.matcher (depth + 1) r).Reads c d [.node r c d ts] ∧ List.Forall₂ Means as ts := by
  have opened : (Matcher.token (.lit opening) : Matcher Rule).Reads c b [] :=
    Matcher.reads_token (Pattern.run_word hb)
  have closed : (Matcher.token (.lit closing) : Matcher Rule).Reads a d [] :=
    Matcher.reads_token (Pattern.run_word ha)
  rw [hc] at ha
  have visible : x ∉ blankChars := by
    have apart : ∀ x ∈ [']', '\x7d'], x ∉ blankChars := forall_mem_of_all (by decide)
    exact apart x hx
  have noGap : (gap.matcher (body.matcher depth)).Reads b b [] := reads_no_gap (hp.head visible h ha)
  have noGap' : (gap.matcher (body.matcher depth)).Reads a a [] := reads_no_gap (ha.head visible)
  obtain ⟨ts, read, means⟩ := hp.separated hn hx h ha
  have all := (((opened.seq noGap).seq read).seq noGap').seq closed
  rw [List.append_nil, List.append_nil] at all
  exact ⟨ts, reads_phrase hr all, means⟩

end Separated

end Rule

end Stencil
