import Stencil.Proofs.Reading.Limits

/-!
# Expressions are read as a whole

Where an expression is derived that is over, because something that closes it is next, reading by its rule gets as far:
no choice that is tried first and no further round leads elsewhere. Main statement: `Rule.goes_expr`.
-/

namespace Stencil

variable {g h : Peg Rule} {r : Rule} {p : Pattern} {c d e : Cursor}

namespace Rule

/-! ### Things with commas between them -/

/-- Expressions that start with less than so much left of the text are read as a whole. -/
def Whole (n : Nat) : Prop :=
  ∀ {c d : Cursor}, c.rest.length < n → Spans (.rule expr) c d → d.Ends → goes (.rule expr) c = some d

lemma Whole.mono {m n : Nat} (h : Whole n) (hm : m ≤ n) : Whole m := fun hc => h (Nat.lt_of_lt_of_le hc hm)

/-- Where no operand starts, there is no expression. -/
lemma goes_expr_eq_none (hc : ∀ x ∈ c.rest.head?, x ∈ blankChars ++ closers) : goes (.rule expr) c = none := by
  have noPrefix : goes prefixes c = some c := goes_unprefixed (goes_eq_none_of_opensOff hc (by decide))
  have noParen : ∀ x ∈ c.rest.head?, x ∉ ['('] := by
    have other : ∀ x ∈ blankChars ++ closers, x ∉ ['('] := forall_mem_of_all (by decide)
    exact fun x hx => other x (hc x hx)
  have noOperand : goes operand c = none :=
    (goes_right (@goes_eq_none_of_openers _ c 0 _ rfl noParen) _).trans
      (goes_choice_eq_none (goes_eq_none_of_opensOff hc (by decide)))
  rw [goes_phrase body_expr]
  exact goes_seq_of_none ((goes_after noPrefix _).trans noOperand) _

lemma goes_mapEntry_eq_none (hc : ∀ x ∈ c.rest.head?, x ∈ blankChars ++ closers) : goes (.rule mapEntry) c = none := by
  rw [goes_phrase body_mapEntry]
  exact goes_seq_of_none (goes_seq_of_none (goes_seq_of_none (goes_seq_of_none (goes_expr_eq_none hc) _) _) _) _

lemma head_of_shut (h : c.Shut) : ∀ x ∈ c.rest.head?, x ∈ blankChars ++ closers := by
  obtain ⟨d, gap, reaches, blank, x, hx, next⟩ := h
  have closer : ∀ x ∈ [')', ']', '\x7d'], x ∈ blankChars ++ closers := forall_mem_of_all (by decide)
  exact reaches.head_of_gap blank (fun y hy => List.mem_append_left _ hy) (forall_mem_of_eq_some next (closer x hx))

/-- After the blanks before a bracket there is no other token. -/
lemma goes_gap_token_eq_none {p : Pattern} {cs : List Char} {x : Char} {w : List Char} (hr : c.Reaches d w)
    (hw : ∀ y ∈ w, y ∈ blankChars) (hx : d.rest.head? = some x) (visible : x ∉ blankChars) (ho : p.openers = some cs)
    (other : x ∉ cs) : goes (.seq gap (.token p)) c = none :=
  (goes_after (goes_gap hr hw (forall_mem_of_eq_some hx visible)) _).trans
    ((goes_token p d).trans (Pattern.run_eq_none ho (forall_mem_of_eq_some hx other)))

section Separated

variable {n : Nat} (hg : ∀ {a b : Cursor}, a.rest.length < n → Spans g a b → b.Ends → goes g a = some b)
include hg

/-- Things with commas between them are read as a whole where each of them is. -/
lemma goes_separated (h : Spans (separated g) c d) (hc : c.rest.length < n) (hd : d.Shut) :
    goes (separated g) c = some d := by
  obtain ⟨e, first, rounds⟩ := spans_seq.mp h
  have later : e.rest.length < n →
      goes (.many (.seq (.seq (.seq gap (.token (.lit ","))) gap) g)) e = some d ∧ e.Ends := by
    refine rounds.rounds (P := fun b => b.rest.length < n →
      goes (.many (.seq (.seq (.seq gap (.token (.lit ","))) gap) g)) b = some d ∧ b.Ends) (fun _ => ⟨?_, hd.ends⟩)
      fun {b a} round later room => ?_
    · obtain ⟨f, w, reach, blank, x, hx, next⟩ := hd
      have other : ∀ x ∈ [')', ']', '\x7d'], x ∉ blankChars ∧ x ∉ [','] := forall_mem_of_all (by decide)
      exact goes_done (goes_seq_of_none (goes_seq_of_none
        (goes_gap_token_eq_none reach blank next (other x hx).1 rfl (other x hx).2) _) _)
    · obtain ⟨b₃, before, thing⟩ := spans_seq.mp round
      obtain ⟨b₂, before, blanks⟩ := spans_seq.mp before
      obtain ⟨b₁, blanks', comma⟩ := spans_seq.mp before
      have taken := (@Spans.opened _ b₁ b₂ 0 _ comma rfl).2
      have before := blanks'.length_le
      have after := blanks.length_le
      have shorter := thing.length_le
      obtain ⟨reads, ends⟩ := later (by omega)
      have one : goes (.seq (.seq (.seq gap (.token (.lit ","))) gap) g) b = some a :=
        goes_both (goes_both (goes_both blanks'.goes_token comma.goes_token) blanks.goes_token)
          (hg (by omega) thing ends)
      exact ⟨(goes_more one (by omega)).trans reads, ends_of_gap blanks' comma rfl (by decide)⟩
  obtain ⟨reads, ends⟩ := later (Nat.lt_of_le_of_lt first.length_le hc)
  exact goes_both (hg hc first ends) reads

/-- Also where there may be none, if nothing is one that starts with a blank or a bracket. -/
lemma goes_opt_separated (none : ∀ {a : Cursor}, (∀ x ∈ a.rest.head?, x ∈ blankChars ++ closers) → goes g a = none)
    (h : Spans (.opt (separated g)) c d) (hc : c.rest.length < n) (hd : d.Shut) :
    goes (.opt (separated g)) c = some d := by
  rcases spans_opt.mp h with rfl | some
  · exact goes_skipped (goes_seq_of_none (none (head_of_shut hd)) _)
  · exact goes_taken (goes_separated hg some hc hd)

end Separated

/-! ### Lists, maps and ranges -/

/-- What stands between brackets is read as a whole where it would be in front of a closing one. -/
lemma goes_bracketed {p : Pattern} {cs : List Char} {s : String} {x : Char} {xs : List Char} (hp : p.openers = some cs)
    (hs : s.toList = x :: xs) (hx : x ∈ [')', ']', '\x7d'])
    (inside : ∀ {a b : Cursor}, a.rest.length < c.rest.length → Spans g a b → b.Shut → goes g a = some b)
    (h : Spans (.seq (.seq (.seq (.seq (.token p) gap) g) gap) (.token (.lit s))) c d) :
    goes (.seq (.seq (.seq (.seq (.token p) gap) g) gap) (.token (.lit s))) c = some d := by
  obtain ⟨c₄, h, close⟩ := spans_seq.mp h
  obtain ⟨c₃, h, gap₂⟩ := spans_seq.mp h
  obtain ⟨c₂, h, inner⟩ := spans_seq.mp h
  obtain ⟨c₁, start, gap₁⟩ := spans_seq.mp h
  have taken := (@Spans.opened _ c c₁ 0 _ start hp).2
  have read := inside (Nat.lt_of_le_of_lt gap₁.length_le taken) inner (shut_of_gap gap₂ close hs hx)
  exact goes_both (goes_both (goes_both (goes_both start.goes_token gap₁.goes_token) read) gap₂.goes_token)
    close.goes_token

lemma ends_of_dots (hg : Spans gap c d) (h : Spans (.token (.lit "..")) d e) : c.Ends := by
  obtain ⟨w, reach, blank⟩ := reaches_of_spans_gap hg
  have read : d.rest = ['.', '.'] ++ e.rest := (Cursor.word?_reaches (spans_token.mp h)).1
  exact ⟨d, w, reach, blank, .inr ⟨e.rest, read.symm⟩⟩

lemma goes_range (whole : Whole c.rest.length) (h : Spans (.rule range) c d) : goes (.rule range) c = some d := by
  obtain ⟨c₈, h, close⟩ := spans_seq.mp ((spans_phrase body_range).mp h)
  obtain ⟨c₇, h, gap₄⟩ := spans_seq.mp h
  obtain ⟨c₆, h, upper⟩ := spans_seq.mp h
  obtain ⟨c₅, h, gap₃⟩ := spans_seq.mp h
  obtain ⟨c₄, h, dots⟩ := spans_seq.mp h
  obtain ⟨c₃, h, gap₂⟩ := spans_seq.mp h
  obtain ⟨c₂, h, lower⟩ := spans_seq.mp h
  obtain ⟨c₁, start, gap₁⟩ := spans_seq.mp h
  have taken := (@Spans.opened _ c c₁ 0 _ start rfl).2
  have le₁ := gap₁.length_le
  have le₂ := lower.length_le
  have le₃ := gap₂.length_le
  have le₄ := dots.length_le
  have le₅ := gap₃.length_le
  have first : goes (.rule expr) c₂ = some c₃ := whole (by omega) lower (ends_of_dots gap₂ dots)
  have second : goes (.rule expr) c₆ = some c₇ :=
    whole (by omega) upper (ends_of_gap gap₄ close rfl (by decide))
  rw [goes_phrase body_range]
  exact goes_both (goes_both (goes_both (goes_both (goes_both (goes_both (goes_both (goes_both start.goes_token
    gap₁.goes_token) first) gap₂.goes_token) dots.goes_token) gap₃.goes_token) second) gap₄.goes_token) close.goes_token

/-- After a thing in a list it is over, and no two dots follow. -/
lemma goes_dots_eq_none (h : Spans (.many (.seq (.seq (.seq gap (.token (.lit ","))) gap) (.rule expr))) c d)
    (gap_ : Spans gap d e) {f : Cursor} (close : Spans (.token (.lit "]")) e f) :
    c.Ends ∧ goes (.seq gap (.token (.lit ".."))) c = none := by
  refine h.rounds (P := fun b => b.Ends ∧ goes (.seq gap (.token (.lit ".."))) b = none)
    ⟨ends_of_gap gap_ close rfl (by decide), ?_⟩ fun {b a} round _ => ?_
  · obtain ⟨w, reach, blank⟩ := reaches_of_spans_gap gap_
    exact goes_gap_token_eq_none reach blank (head_of_spans_lit rfl close) (by decide) rfl (by decide)
  · obtain ⟨b₃, round, -⟩ := spans_seq.mp round
    obtain ⟨b₂, round, -⟩ := spans_seq.mp round
    obtain ⟨b₁, blanks, comma⟩ := spans_seq.mp round
    obtain ⟨w, reach, blank⟩ := reaches_of_spans_gap blanks
    exact ⟨ends_of_gap blanks comma rfl (by decide),
      goes_gap_token_eq_none reach blank (head_of_spans_lit rfl comma) (by decide) rfl (by decide)⟩

/-- What is derived as a list is read as one, and is no range: no two dots follow the first thing in it. -/
lemma goes_list (whole : Whole c.rest.length) (h : Spans (.rule list) c d) :
    goes (.rule list) c = some d ∧ goes (.rule range) c = none := by
  obtain ⟨c₄, h, close⟩ := spans_seq.mp ((spans_phrase body_list).mp h)
  obtain ⟨c₃, h, gap₂⟩ := spans_seq.mp h
  obtain ⟨c₂, h, items⟩ := spans_seq.mp h
  obtain ⟨c₁, start, gap₁⟩ := spans_seq.mp h
  have taken := (@Spans.opened _ c c₁ 0 _ start rfl).2
  have room : c₂.rest.length < c.rest.length := Nat.lt_of_le_of_lt gap₁.length_le taken
  have shut : c₃.Shut := shut_of_gap gap₂ close rfl (by decide)
  have begin_ : goes (.seq (.token (.lit "[")) gap) c = some c₂ := goes_both start.goes_token gap₁.goes_token
  constructor
  · have inside := goes_opt_separated whole goes_expr_eq_none items room shut
    rw [goes_phrase body_list]
    exact goes_both (goes_both (goes_both begin_ inside) gap₂.goes_token) close.goes_token
  · have noDots :
        goes (.seq (.seq (.seq (.seq (.token (.lit "[")) gap) (.rule expr)) gap) (.token (.lit ".."))) c = none := by
      rcases spans_opt.mp items with rfl | items
      · have noExpr := goes_expr_eq_none (head_of_shut shut)
        exact goes_seq_of_none (goes_seq_of_none ((goes_after begin_ _).trans noExpr) _) _
      · obtain ⟨e, first, rounds⟩ := spans_seq.mp items
        obtain ⟨ends, after⟩ := goes_dots_eq_none rounds gap₂ close
        rw [goes_seq, goes_after (goes_both begin_ (whole room first ends)), ← goes_seq]
        exact after
    rw [goes_phrase body_range]
    exact goes_seq_of_none (goes_seq_of_none (goes_seq_of_none (goes_seq_of_none noDots _) _) _) _

lemma goes_mapEntry {n : Nat} (whole : Whole n) (hc : c.rest.length < n) (h : Spans (.rule mapEntry) c d)
    (hd : d.Ends) : goes (.rule mapEntry) c = some d := by
  obtain ⟨c₄, h, value⟩ := spans_seq.mp ((spans_phrase body_mapEntry).mp h)
  obtain ⟨c₃, h, gap₂⟩ := spans_seq.mp h
  obtain ⟨c₂, h, colon⟩ := spans_seq.mp h
  obtain ⟨c₁, key, gap₁⟩ := spans_seq.mp h
  have le₁ := key.length_le
  have le₂ := gap₁.length_le
  have le₃ := colon.length_le
  have le₄ := gap₂.length_le
  have first : goes (.rule expr) c = some c₁ := whole hc key (ends_of_gap gap₁ colon rfl (by decide))
  have second : goes (.rule expr) c₄ = some d := whole (by omega) value hd
  rw [goes_phrase body_mapEntry]
  exact goes_both (goes_both (goes_both (goes_both first gap₁.goes_token) colon.goes_token) gap₂.goes_token) second

lemma goes_map (whole : Whole c.rest.length) (h : Spans (.rule map) c d) : goes (.rule map) c = some d := by
  rw [goes_phrase body_map]
  refine goes_bracketed rfl rfl (by decide) (fun room entries shut => ?_) ((spans_phrase body_map).mp h)
  exact goes_opt_separated (fun hc => goes_mapEntry whole hc) goes_mapEntry_eq_none entries room shut

/-! ### References -/

/-- What may follow the name of a reference. -/
def suffix : Peg Rule := .choice methodCall [property, index]

lemma body_reference : body reference =
    .phrase (.seq (.seq (.token (.lit "$")) (.opt (.rule quiet))) (.alt (.rule formal) (.seq (.rule ident) (.many suffix)))) :=
  rfl

lemma body_formal : body formal =
    .phrase (.seq (.seq (.seq (.token (.lit "\x7b")) (.rule ident)) (.many suffix)) (.token (.lit "\x7d"))) := rfl

lemma body_methodCall : body methodCall =
    .phrase (.seq (.seq (.seq (.seq (.seq (.seq (.token (.lit ".")) (.rule ident)) (.token (.lit "("))) gap)
      (.opt (separated (.rule expr)))) gap) (.token (.lit ")"))) := rfl

lemma body_property : body property = .phrase (.seq (.token (.lit ".")) (.rule ident)) := rfl

lemma body_index : body index =
    .phrase (.seq (.seq (.seq (.seq (.token (.lit "[")) gap) (.rule expr)) gap) (.token (.lit "]"))) := rfl

/-- A name starts with a letter or an underscore. -/
lemma head_of_ident (h : Spans (.rule ident) c d) :
    ∃ x, c.rest.head? = some x ∧ (x.isAlpha || x == '_') = true ∧ d.rest.length < c.rest.length := by
  obtain ⟨later, hb⟩ : ∃ later : Pattern, body ident = .word (.seq (.one fun c => c.isAlpha || c == '_') later) :=
    ⟨_, rfl⟩
  obtain ⟨e, first, others⟩ := Option.bind_eq_some_iff.mp ((spans_word hb).mp h)
  obtain ⟨x, hx, read⟩ := Cursor.next?_reaches first
  obtain ⟨w, rest⟩ := Pattern.run_reaches others
  refine ⟨x, by rw [read.1]; rfl, hx, ?_⟩
  rw [read.1, rest.1, List.length_append, List.length_append, List.length_singleton]
  omega

/-- A name starts with nothing but a letter or a low line. -/
lemma apart_of_ident (h : Spans (.rule ident) c d) {xs : List Char} (off : xs.all fun x => !(x.isAlpha || x == '_')) :
    ∀ x ∈ c.rest.head?, x ∉ xs := by
  obtain ⟨x, head, letter, -⟩ := head_of_ident h
  refine forall_mem_of_eq_some head fun hx => ?_
  have other := List.all_eq_true.mp off x hx
  rw [letter] at other
  cases other

/-- Where no name starts, none is read. -/
lemma goes_ident_eq_none (hc : ∀ x ∈ c.rest.head?, (x.isAlpha || x == '_') = false) : goes (.rule ident) c = none := by
  refine goes_eq_none fun d h => ?_
  obtain ⟨x, head, letter, -⟩ := head_of_ident h
  rw [hc x head] at letter
  cases letter

/-- Where an operand is over, no suffix follows. -/
lemma goes_suffix_eq_none (hc : c.Past) : goes suffix c = none := by
  rcases hc with away | ⟨rest, dots⟩
  · have others : ∀ q ∈ [methodCall, property, index], goes (.rule q) c = none := by
      have among : ∀ q ∈ [methodCall, property, index],
          ((body.openers 1 q).any fun cs => cs.all (['(', '[', '.'].contains ·)) = true := by
        decide +kernel
      intro q hq
      obtain ⟨cs, ho, inside⟩ := (Option.any_eq_true _ _).mp (among q hq)
      refine goes_eq_none_of_openers (show (Peg.rule q).openers (body.openers 1) = some cs from ho) fun x hx hm => ?_
      exact away x hx (List.contains_iff_mem.mp (List.all_eq_true.mp inside x hm))
    exact goes_choice_eq_none others
  · obtain ⟨o, c⟩ := c
    obtain rfl : _ = c := dots
    have dot : goes (.token (.lit ".")) ⟨o, '.' :: '.' :: rest⟩ = some ⟨o + 1, '.' :: rest⟩ := rfl
    have noName : goes (.rule ident) ⟨o + 1, '.' :: rest⟩ = none :=
      goes_ident_eq_none (forall_mem_of_eq_some rfl (by decide))
    have noSuffix : goes (.seq (.token (.lit ".")) (.rule ident)) ⟨o, '.' :: '.' :: rest⟩ = none :=
      (goes_after dot _).trans noName
    have noCall : goes (.rule methodCall) ⟨o, '.' :: '.' :: rest⟩ = none := by
      rw [goes_phrase body_methodCall]
      exact goes_seq_of_none (goes_seq_of_none (goes_seq_of_none (goes_seq_of_none
        (goes_seq_of_none noSuffix _) _) _) _) _
    have noProperty : goes (.rule property) ⟨o, '.' :: '.' :: rest⟩ = none :=
      (goes_phrase body_property _).trans noSuffix
    have noIndex : goes (.rule index) ⟨o, '.' :: '.' :: rest⟩ = none :=
      @goes_eq_none_of_openers _ _ 1 _ rfl (forall_mem_of_eq_some rfl (by decide))
    exact (goes_right noCall _).trans ((goes_right noProperty _).trans noIndex)

lemma goes_methodCall (whole : Whole c.rest.length) (h : Spans (.rule methodCall) c d) :
    goes (.rule methodCall) c = some d := by
  obtain ⟨c₆, h, close⟩ := spans_seq.mp ((spans_phrase body_methodCall).mp h)
  obtain ⟨c₅, h, gap₂⟩ := spans_seq.mp h
  obtain ⟨c₄, h, args⟩ := spans_seq.mp h
  obtain ⟨c₃, h, gap₁⟩ := spans_seq.mp h
  obtain ⟨c₂, h, start⟩ := spans_seq.mp h
  obtain ⟨c₁, dot, name⟩ := spans_seq.mp h
  have taken := (@Spans.opened _ c c₁ 0 _ dot rfl).2
  have le₁ := name.length_le
  have le₂ := start.length_le
  have le₃ := gap₁.length_le
  have inside := goes_opt_separated whole goes_expr_eq_none args (by omega) (shut_of_gap gap₂ close rfl (by decide))
  rw [goes_phrase body_methodCall]
  exact goes_both (goes_both (goes_both (goes_both (goes_both (goes_both dot.goes_token (name.goes_word rfl))
    start.goes_token) gap₁.goes_token) inside) gap₂.goes_token) close.goes_token

lemma goes_index (whole : Whole c.rest.length) (h : Spans (.rule index) c d) : goes (.rule index) c = some d := by
  rw [goes_phrase body_index]
  exact goes_bracketed rfl rfl (by decide) (fun room inner shut => whole room inner shut.ends)
    ((spans_phrase body_index).mp h)

/-- A property that no parenthesis follows is not the start of a call. -/
lemma goes_property (h : Spans (.rule property) c d) (hd : ∀ x ∈ d.rest.head?, x ≠ '(') :
    goes (.rule property) c = some d ∧ goes (.rule methodCall) c = none := by
  obtain ⟨c₁, dot, name⟩ := spans_seq.mp ((spans_phrase body_property).mp h)
  have read : goes (.seq (.token (.lit ".")) (.rule ident)) c = some d := goes_both dot.goes_token (name.goes_word rfl)
  have noArgs : goes (.token (.lit "(")) d = none :=
    (goes_token _ d).trans (Pattern.run_eq_none rfl fun x hx hm => hd x hx (List.mem_singleton.mp hm))
  refine ⟨(goes_phrase body_property c).trans read, ?_⟩
  rw [goes_phrase body_methodCall]
  exact goes_seq_of_none (goes_seq_of_none (goes_seq_of_none (goes_seq_of_none
    ((goes_after read _).trans noArgs) _) _) _) _

/-- The suffixes of a reference are read up to where it is over. -/
lemma goes_suffixes {n : Nat} (whole : Whole n) (h : Spans (.many suffix) c d) (hc : c.rest.length ≤ n) (hd : d.Past) :
    goes (.many suffix) c = some d := by
  have all : c.rest.length ≤ n → goes (.many suffix) c = some d ∧ ∀ x ∈ c.rest.head?, x ≠ '(' := by
    refine h.rounds (P := fun b => b.rest.length ≤ n → goes (.many suffix) b = some d ∧ ∀ x ∈ b.rest.head?, x ≠ '(')
      (fun _ => ⟨goes_done (goes_suffix_eq_none hd), ?_⟩) fun {b a} round later room => ?_
    · rcases hd with away | ⟨rest, dots⟩
      · exact fun x hx he => away x hx (by rw [he]; decide)
      · exact forall_mem_of_eq_some (by rw [← dots]; rfl) (by decide : '.' ≠ '(')
    · have shorter := (@Spans.opened _ b a 1 _ round rfl).2
      obtain ⟨reads, next⟩ := later (by omega)
      have one : goes suffix b = some a := by
        rcases spans_alt.mp round with call | round
        · exact goes_left (goes_methodCall (whole.mono room) call) _
        · rcases spans_alt.mp round with property | index
          · obtain ⟨read, noCall⟩ := goes_property property next
            exact (goes_right noCall _).trans (goes_left read _)
          · have others := goes_eq_none_of_opensOff (@Spans.among _ b a 1 ['['] index rfl)
              (show [methodCall, property].all (opensOff ['[']) from by decide)
            exact (goes_right (others methodCall (by decide)) _).trans
              ((goes_right (others property (by decide)) _).trans (goes_index (whole.mono room) index))
      have other : ∀ x ∈ ['.', '.', '['], x ≠ '(' := forall_mem_of_all (by decide)
      exact ⟨(goes_more one shorter).trans reads, fun x hx => other x (@Spans.among _ b a 1 _ round rfl x hx)⟩
  exact (all hc).1

lemma goes_formal (whole : Whole c.rest.length) (h : Spans (.rule formal) c d) : goes (.rule formal) c = some d := by
  obtain ⟨c₃, h, close⟩ := spans_seq.mp ((spans_phrase body_formal).mp h)
  obtain ⟨c₂, h, suffixes⟩ := spans_seq.mp h
  obtain ⟨c₁, start, name⟩ := spans_seq.mp h
  have past : c₃.Past := .inl (forall_mem_of_eq_some (head_of_spans_lit rfl close) (by decide))
  have room : c₂.rest.length ≤ c.rest.length := name.length_le.trans start.length_le
  rw [goes_phrase body_formal]
  exact goes_both (goes_both (goes_both start.goes_token (name.goes_word rfl)) (goes_suffixes whole suffixes room past))
    close.goes_token

lemma goes_reference (whole : Whole c.rest.length) (h : Spans (.rule reference) c d) (hd : d.Past) :
    goes (.rule reference) c = some d := by
  obtain ⟨c₂, h, path⟩ := spans_seq.mp ((spans_phrase body_reference).mp h)
  obtain ⟨c₁, mark, loud⟩ := spans_seq.mp h
  have le₁ := mark.length_le
  have le₂ := loud.length_le
  have room : c₂.rest.length ≤ c.rest.length := by omega
  have reads : goes (.alt (.rule formal) (.seq (.rule ident) (.many suffix))) c₂ = some d ∧
      ∀ x ∈ c₂.rest.head?, x ∉ ['!'] := by
    rcases spans_alt.mp path with formal | plain
    · have other : ∀ x ∈ ['\x7b'], x ∉ ['!'] := forall_mem_of_all (by decide)
      exact ⟨goes_left (goes_formal (whole.mono room) formal) _,
        fun x hx => other x (@Spans.among _ c₂ d 1 _ formal rfl x hx)⟩
    · obtain ⟨c₃, name, suffixes⟩ := spans_seq.mp plain
      have le₃ := name.length_le
      have noBrace : goes (.rule formal) c₂ = none :=
        @goes_eq_none_of_openers _ c₂ 1 ['\x7b'] rfl (apart_of_ident name (by decide))
      exact ⟨(goes_right noBrace _).trans (goes_both (name.goes_word rfl)
        (goes_suffixes whole suffixes (by omega) hd)), apart_of_ident name (by decide)⟩
  have loudness : goes (.opt (.rule quiet)) c₁ = some c₂ := by
    rcases spans_opt.mp loud with rfl | quiet
    · exact goes_skipped ((goes_word rfl _).trans (Pattern.run_eq_none rfl reads.2))
    · exact goes_taken (quiet.goes_word rfl)
  rw [goes_phrase body_reference]
  exact goes_both (goes_both mark.goes_token loudness) reads.1

/-! ### Expressions -/

/-- The text of a string is what stands between its quotes. -/
lemma goes_between {content : Rule} {p : Pattern} {mark : String} (hb : body r =
      .phrase (.seq (.seq (.token (.lit mark)) (.rule content)) (.token (.lit mark)))) (hp : body content = .word p)
    (h : Spans (.rule r) c d) : goes (.rule r) c = some d := by
  obtain ⟨c₂, h, close⟩ := spans_seq.mp ((spans_phrase hb).mp h)
  obtain ⟨c₁, start, inside⟩ := spans_seq.mp h
  rw [goes_phrase hb]
  exact goes_both (goes_both start.goes_token (inside.goes_word hp)) close.goes_token

/-- What an operand starts with tells which of its rules is read: those before it start with something else. -/
lemma goes_operand_of_head {xs : List Char} {s : Rule} {front back : List Rule} (split : operands = front ++ s :: back)
    (first : ∀ x ∈ c.rest.head?, x ∈ xs) (noParen : '(' ∉ xs) (off : front.all (opensOff xs))
    (read : goes (.rule s) c = some d) : goes operand c = some d := by
  have apart : goes (.seq (.seq (.seq (.seq (.token (.lit "(")) gap) (.rule expr)) gap) (.token (.lit ")"))) c = none := by
    refine @goes_eq_none_of_openers _ c 0 ['('] rfl fun x hx hm => ?_
    obtain rfl := List.mem_singleton.mp hm
    exact noParen (first _ hx)
  exact (goes_right apart _).trans (goes_choice split (goes_eq_none_of_opensOff first off) read)

/-- An operand is read as a whole where the expressions in it are. -/
lemma goes_operand (whole : Whole c.rest.length) (h : Spans operand c d) (hd : d.Past) : goes operand c = some d := by
  rcases spans_alt.mp h with paren | other
  · exact goes_left (goes_bracketed rfl rfl (by decide) (fun room inner shut => whole room inner shut.ends) paren) _
  · obtain ⟨s, hs, hr⟩ := spans_choice other
    have among : s ∈ [range, list, map, dqString, sqString, number, boolean, nullLit, reference] := hs
    simp only [List.mem_cons, List.not_mem_nil, or_false] at among
    rcases among with rfl | rfl | rfl | rfl | rfl | rfl | rfl | rfl | rfl
    · exact goes_operand_of_head (show operands = [] ++ range :: _ from rfl) (@Spans.among _ c d 1 _ hr rfl) (by decide)
        (by decide) (goes_range whole hr)
    · -- A list starts like a range, which is tried first.
      obtain ⟨read, noRange⟩ := goes_list whole hr
      have other : ∀ x ∈ ['['], x ∉ ['('] := forall_mem_of_all (by decide)
      have noParen : ∀ x ∈ c.rest.head?, x ∉ ['('] := fun x hx => other x (@Spans.among _ c d 1 _ hr rfl x hx)
      exact (goes_right (@goes_eq_none_of_openers _ c 0 _ rfl noParen) _).trans
        ((goes_right noRange _).trans (goes_left read _))
    · exact goes_operand_of_head (show operands = [range, list] ++ map :: _ from rfl) (@Spans.among _ c d 1 _ hr rfl)
        (by decide) (by decide) (goes_map whole hr)
    · exact goes_operand_of_head (show operands = [range, list, map] ++ dqString :: _ from rfl)
        (@Spans.among _ c d 1 _ hr rfl) (by decide) (by decide) (goes_between body_dqString rfl hr)
    · exact goes_operand_of_head (show operands = [range, list, map, dqString] ++ sqString :: _ from rfl)
        (@Spans.among _ c d 1 _ hr rfl) (by decide) (by decide) (goes_between body_sqString rfl hr)
    · have first : ∀ x ∈ c.rest.head?, x ∈ "-0123456789".toList := by
        obtain ⟨e, w, reach, rfl | rfl, ⟨x, hx, head⟩, -⟩ := spans_number hr
        · obtain rfl := reach.eq_of_nil
          exact forall_mem_of_eq_some head (List.mem_cons_of_mem _ hx)
        · exact reach.head List.mem_cons_self
      exact goes_operand_of_head (show operands = [range, list, map, dqString, sqString] ++ number :: _ from rfl) first
        (by decide) (by decide) (hr.goes_word rfl)
    · exact goes_operand_of_head (show operands = [range, list, map, dqString, sqString, number] ++ boolean :: _ from rfl)
        (@Spans.among _ c d 1 _ hr rfl) (by decide) (by decide) (hr.goes_word rfl)
    · exact goes_operand_of_head
        (show operands = [range, list, map, dqString, sqString, number, boolean] ++ nullLit :: _ from rfl)
        (@Spans.among _ c d 1 _ hr rfl) (by decide) (by decide) (hr.goes_word rfl)
    · exact goes_operand_of_head
        (show operands = [range, list, map, dqString, sqString, number, boolean, nullLit] ++ reference :: _ from rfl)
        (@Spans.among _ c d 1 _ hr rfl) (by decide) (by decide) (goes_reference whole hr hd)

/-- Operators and an operand start neither with an equals sign nor like a suffix. -/
lemma head_of_prefixes (hp : Spans prefixes c e) (ho : Spans operand e d) : ∀ x ∈ c.rest.head?, x ≠ '=' := by
  have first : ∃ x ∈ '!' :: operandOpeners, c.rest.head? = some x := by
    obtain ⟨x, hx, head⟩ := opens_operand ho
    refine hp.rounds (P := fun b => ∃ x ∈ '!' :: operandOpeners, b.rest.head? = some x)
      ⟨x, List.mem_cons_of_mem _ hx, head⟩ fun {b a} round _ => ?_
    obtain ⟨⟨y, hy, start⟩, -⟩ := @Spans.opened _ b a 1 _ round rfl
    have among : ∀ y ∈ ['!', 'n', '-'], y ∈ '!' :: operandOpeners := forall_mem_of_all (by decide)
    exact ⟨y, among y hy, start⟩
  have other : ∀ x ∈ '!' :: operandOpeners, x ≠ '=' := forall_mem_of_all (by decide)
  obtain ⟨x, hx, head⟩ := first
  exact forall_mem_of_eq_some head (other x hx)

/-- Operators and operands after an operand are read up to where the expression is over. -/
lemma goes_steps {n : Nat} (whole : Whole n) (h : Spans (.many step) c d) (hc : c.rest.length ≤ n) (hd : d.Ends) :
    goes (.many step) c = some d ∧ c.Past := by
  have all : c.rest.length ≤ n → goes (.many step) c = some d ∧ c.Past := by
    refine h.rounds (P := fun b => b.rest.length ≤ n → goes (.many step) b = some d ∧ b.Past)
      (fun _ => ⟨goes_done (goes_step_eq_none hd), hd.past⟩) fun {b a} round later room => ?_
    obtain ⟨b₄, round, operand_⟩ := spans_seq.mp round
    obtain ⟨b₃, round, pre⟩ := spans_seq.mp round
    obtain ⟨b₂, round, gap₂⟩ := spans_seq.mp round
    obtain ⟨b₁, gap₁, op⟩ := spans_seq.mp round
    obtain ⟨⟨x, hx, start⟩, taken⟩ := @Spans.opened _ b₁ b₂ 1 _ op rfl
    have le₁ := gap₁.length_le
    have le₂ := gap₂.length_le
    have le₃ := pre.length_le
    have le₄ := operand_.length_le
    obtain ⟨reads, past⟩ := later (by omega)
    have unequal : ∀ y ∈ b₂.rest.head?, y ≠ '=' := by
      obtain ⟨w, reach, blank⟩ := reaches_of_spans_gap gap₂
      exact reach.head_of_gap blank (forall_mem_of_all (by decide)) (head_of_prefixes pre operand_)
    obtain ⟨f, before, inside⟩ := goes_prefixes pre operand_
    have le₅ := (spans_of_goes before).length_le
    have one : goes step b = some a :=
      goes_both (goes_both (goes_both (goes_both gap₁.goes_token (goes_operators op unequal)) gap₂.goes_token) before)
        (goes_operand (whole.mono (by omega)) inside past)
    refine ⟨(goes_more one (by omega)).trans reads, .inl ?_⟩
    obtain ⟨w, reach, blank⟩ := reaches_of_spans_gap gap₁
    have other : ∀ y ∈ ['|', 'o', '&', 'a', '=', 'e', '!', 'n', '<', 'l', '>', 'g', '<', 'l', '>', 'g', '+', '-', '*', '/',
        '%'], y ∉ ['(', '[', '.'] := forall_mem_of_all (by decide)
    exact reach.head_of_gap blank (forall_mem_of_all (by decide)) (forall_mem_of_eq_some start (other x hx))
  exact all hc

lemma whole_all (n : Nat) : Whole n := by
  induction n with
  | zero => exact fun hc => absurd hc (Nat.not_lt_zero _)
  | succ n ih =>
    intro c d hc h hd
    have whole : Whole c.rest.length := ih.mono (Nat.le_of_lt_succ hc)
    obtain ⟨c₂, h, steps⟩ := spans_seq.mp ((spans_phrase body_expr).mp h)
    obtain ⟨c₁, pre, operand_⟩ := spans_seq.mp h
    have le₁ := pre.length_le
    have le₂ := operand_.length_le
    obtain ⟨others, past⟩ := goes_steps whole steps (by omega) hd
    obtain ⟨f, before, inside⟩ := goes_prefixes pre operand_
    have first := goes_operand (whole.mono (spans_of_goes before).length_le) inside past
    rw [goes_phrase body_expr]
    exact goes_both (goes_both before first) others

/-- An expression that is over is read as a whole. -/
theorem goes_expr (h : Spans (.rule expr) c d) (hd : d.Ends) : goes (.rule expr) c = some d :=
  whole_all _ (Nat.lt_succ_self _) h hd

end Rule

end Stencil
