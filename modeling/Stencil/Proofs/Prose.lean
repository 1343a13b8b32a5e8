import Stencil.Parse
import Stencil.Proofs.Reading.Making
import Stencil.Proofs.Reading.Numerals

/-!
# Texts without directives

A text in which no `#` starts a directive, a block comment or a raw text is never refused: whatever is begun in it
and not ended is text. The same holds of the strings in it. Main statement: `parse_of_prose`.
-/

namespace Stencil

/-! ### Texts without directives -/

/-- The characters that continue a name. -/
def isNameChar (c : Char) : Bool := c.isAlphanum || c == '_'

def directiveWords : List (List Char) :=
  ["elseif", "else", "end", "if", "foreach", "set", "macro", "parse", "include", "evaluate", "stop",
    "break"].map String.toList

/-- Whether a text starts with a word that no name continues. -/
def startsWithWord (w text : List Char) : Bool := w.isPrefixOf text && !text[w.length]?.any isNameChar

/-- Whether what follows a `#` makes it the start of a directive, of a block comment or of a raw text. -/
def opensDirective (rest : List Char) : Bool :=
  ['*'].isPrefixOf rest || ['[', '['].isPrefixOf rest ||
    directiveWords.any fun w => ('\x7b' :: w ++ ['\x7d']).isPrefixOf rest || startsWithWord w rest

/-- No `#` in a text starts a directive, a block comment or a raw text. -/
def IsProse (text : List Char) : Prop := ∀ rest, '#' :: rest <:+ text → opensDirective rest = false

lemma isProse_cons {x : Char} {xs : List Char} :
    IsProse (x :: xs) ↔ (x = '#' → opensDirective xs = false) ∧ IsProse xs := by
  constructor
  · refine fun h => ⟨?_, fun rest hr => h rest (hr.trans (List.suffix_cons x xs))⟩
    rintro rfl
    exact h xs List.suffix_rfl
  · rintro ⟨here, later⟩ rest hr
    rcases List.suffix_cons_iff.mp hr with heq | hr
    · obtain ⟨rfl, rfl⟩ := List.cons.inj heq
      exact here rfl
    · exact later rest hr

instance decidableIsProse : DecidablePred IsProse
  | [] => isTrue fun _ hr => nomatch List.suffix_nil.mp hr
  | _ :: xs => @decidable_of_iff' _ _ isProse_cons (@instDecidableAnd _ _ _ (decidableIsProse xs))

lemma opensDirective_of_braced {w rest : List Char} (hw : w ∈ directiveWords)
    (h : '\x7b' :: w ++ ['\x7d'] <+: rest) : opensDirective rest = true := by
  refine Bool.or_eq_true_iff.mpr (.inr (List.any_eq_true.mpr ⟨w, hw, ?_⟩))
  exact Bool.or_eq_true_iff.mpr (.inl (List.isPrefixOf_iff_prefix.mpr h))

lemma opensDirective_of_word {w rest : List Char} (hw : w ∈ directiveWords) (h : startsWithWord w rest) :
    opensDirective rest = true := by
  refine Bool.or_eq_true_iff.mpr (.inr (List.any_eq_true.mpr ⟨w, hw, ?_⟩))
  exact Bool.or_eq_true_iff.mpr (.inr h)

/-! ### How they are read -/

namespace Rule

variable {c d : Cursor} {depth : Nat}

/-- What the grammar takes for a word that no name continues is one. -/
lemma startsWithWord_of_run {p : Pattern} {ws : List (List Char)} (hp : p.words = some ws)
    (h : (Pattern.seq p (.absent (.one isNameChar))).run c = some d) : ∃ w ∈ ws, startsWithWord w c.rest := by
  obtain ⟨e, he, habsent⟩ := Option.bind_eq_some_iff.mp h
  obtain ⟨w, hw, reach⟩ := Pattern.mem_words hp he
  have after := Pattern.head_of_run_absent habsent
  refine ⟨w, hw, Bool.and_eq_true_iff.mpr ⟨List.isPrefixOf_iff_prefix.mpr ⟨e.rest, reach.1.symm⟩, ?_⟩⟩
  have next : c.rest[w.length]? = e.rest.head? := by
    rw [reach.1, List.getElem?_append_right (Nat.le_refl _), Nat.sub_self, List.head?_eq_getElem?]
  rw [next]
  cases hx : e.rest.head? with
  | none => rfl
  | some x => simp [after x hx]

lemma exists_keyword : ∃ words : Pattern, words.words = some directiveWords ∧
    keyword = .alt (.seq (.seq (.lit "\x7b") words) (.lit "\x7d")) (.seq words (.absent (.one isNameChar))) :=
  ⟨_, rfl, rfl⟩

lemma exists_blockEnd : ∃ words : Pattern, words.words = some (["end", "elseif", "else"].map String.toList) ∧
    blockEnd = .seq (.lit "#") (.alt (.lit "\x7bend\x7d") (.alt (.lit "\x7belseif\x7d") (.alt (.lit "\x7belse\x7d")
      (.seq words (.absent (.one isNameChar)))))) :=
  ⟨_, rfl, rfl⟩

/-- A keyword starts a directive. -/
lemma opensDirective_of_keyword (h : keyword.run c = some d) : opensDirective c.rest = true := by
  obtain ⟨words, hwords, hk⟩ := exists_keyword
  rw [hk] at h
  unfold Pattern.run at h
  split at h
  · next e hbraced =>
    obtain ⟨e₂, h₂, h₃⟩ := Option.bind_eq_some_iff.mp hbraced
    obtain ⟨e₁, h₁, h₂⟩ := Option.bind_eq_some_iff.mp h₂
    obtain ⟨w, hw, reach⟩ := Pattern.mem_words hwords h₂
    have all := ((Cursor.word?_reaches h₁).trans reach).trans (Cursor.word?_reaches h₃)
    exact opensDirective_of_braced hw ⟨e.rest, all.1.symm⟩
  · obtain ⟨w, hw, stands⟩ := startsWithWord_of_run hwords h
    exact opensDirective_of_word hw stands

/-- The word of the end of a block starts a directive. -/
lemma opensDirective_of_blockEnd (h : blockEnd.run c = some d) :
    ∃ rest, c.rest = '#' :: rest ∧ opensDirective rest = true := by
  obtain ⟨words, hwords, hb⟩ := exists_blockEnd
  rw [hb] at h
  obtain ⟨e, he, h⟩ := Option.bind_eq_some_iff.mp h
  refine ⟨e.rest, (Cursor.word?_reaches he).1, ?_⟩
  have braced {w : List Char} (hw : w ∈ directiveWords) {e' : Cursor}
      (h : e.word? ('\x7b' :: w ++ ['\x7d']) = some e') : opensDirective e.rest = true :=
    opensDirective_of_braced hw ⟨e'.rest, (Cursor.word?_reaches h).1.symm⟩
  unfold Pattern.run at h
  split at h
  · next e' h₁ => exact @braced "end".toList (by decide) e' h₁
  unfold Pattern.run at h
  split at h
  · next e' h₁ => exact @braced "elseif".toList (by decide) e' h₁
  unfold Pattern.run at h
  split at h
  · next e' h₁ => exact @braced "else".toList (by decide) e' h₁
  obtain ⟨w, hw, stands⟩ := startsWithWord_of_run hwords h
  have ends : ∀ w ∈ ["end", "elseif", "else"].map String.toList, w ∈ directiveWords := by decide
  exact opensDirective_of_word (ends w hw) stands

variable {text : List Char}

/-- In prose no block ends and no keyword follows a mark. -/
lemma fails_of_prose (h : IsProse text) (hc : c.rest <:+ text) :
    blockEnd.run c = none ∧ (Pattern.lit "#" ++ keyword).run c = none := by
  constructor
  · cases hr : blockEnd.run c with
    | none => rfl
    | some d =>
      obtain ⟨rest, hrest, opens⟩ := opensDirective_of_blockEnd hr
      rw [h rest (hrest ▸ hc)] at opens
      cases opens
  · cases hr : (Pattern.lit "#" ++ keyword).run c with
    | none => rfl
    | some d =>
      obtain ⟨e, he, hk⟩ := Option.bind_eq_some_iff.mp hr
      have opens := opensDirective_of_keyword hk
      have hash : c.rest = '#' :: e.rest := (Cursor.word?_reaches he).1
      rw [h e.rest (hash ▸ hc)] at opens
      cases opens

/-- Where nothing else does, a text or a mark goes on in prose. -/
lemma exists_text (h : IsProse text) (hc : c.rest <:+ text) (hr : c.rest ≠ []) :
    ∃ q ∈ nodes, ∃ d ts, (body.matcher (depth + 1) q).Reads c d ts := by
  obtain ⟨-, noWord⟩ := fails_of_prose h hc
  obtain ⟨special, opens, marked, htext, hstray⟩ := exists_mark
  by_cases hm : c.atMark
  · obtain ⟨d, hd⟩ := marked c hm
    refine ⟨.stray, by decide, d, _, reads_word hstray ?_⟩
    exact Pattern.run_seq (Pattern.run_absent noWord) hd
  · have noMark : special.run c = none :=
      Pattern.run_eq_none opens (c.not_mem_marks (Bool.eq_false_iff.mpr hm))
    obtain ⟨x, xs, hx⟩ := List.exists_cons_of_ne_nil hr
    have first : (Pattern.absent special ++ .any).run c = some ⟨c.offset + x.utf8Size, xs⟩ := by
      refine Pattern.run_seq (Pattern.run_absent noMark) ?_
      show c.next? _ = _
      rw [Cursor.next?, hx]
      rfl
    exact ⟨.text, by decide, _, _, reads_word htext (Pattern.run_seq first rfl)⟩

/-- Prose goes on with a node at every place before its end. -/
lemma reads_item_of_prose (h : IsProse text) (hc : c.rest <:+ text) (hr : c.rest ≠ []) :
    ∃ d t w, (item.matcher (body.matcher (depth + 1))).Reads c d [t] ∧ c.Reaches d w ∧
      d.rest.length < c.rest.length := by
  have steady : ∀ q, (body.matcher (depth + 1) q).Steady := Grammar.matcher_steady body (depth + 1)
  obtain ⟨d, ts, chosen⟩ := Peg.exists_reads_choice steady (exists_text h hc hr)
  have noEnd := Pattern.run_absent (fails_of_prose h hc).1
  have read := (Matcher.reads_token noEnd).seq chosen
  obtain ⟨a, match_⟩ := read.eq .none
  have derived := Peg.derived_matcher (Grammar.derives_of_matcher body (depth + 1)) item match_
  obtain ⟨q, node, us, hts, hrule⟩ := derives_item derived
  rw [hts] at read
  obtain ⟨w, hw⟩ := hrule.reaches
  exact ⟨d, _, w, read, hw, hw.length_lt (nodes_advance node hrule)⟩

end Rule

/-- Prose is read to its end. -/
theorem exists_readTree {text : List Char} (h : IsProse text) : ∃ t, readTree text = .ok t := by
  obtain ⟨d, ts, read, -⟩ := @readTree_of_items text (fun _ => True) fun {c depth} hc hr _ => by
    obtain ⟨front, hf⟩ := hc
    obtain ⟨d, t, w, reads, hw, shorter⟩ := Rule.reads_item_of_prose h (hf.suffix List.suffix_rfl) hr
    exact ⟨d, t, w, reads, trivial, hw, shorter⟩
  exact ⟨_, read⟩

/-! ### Strings -/

namespace Quoted

/-- A mark in the content of a string was one before quotes lost their backslashes. -/
lemma exists_of_suffix {offset : Nat} {cs rest : List Char} (h : '#' :: rest <:+ (unescape offset cs).1) :
    ∃ later offset', '#' :: later <:+ cs ∧ (unescape offset' later).1 = rest := by
  fun_induction unescape offset cs with
  | case1 => cases List.suffix_nil.mp h
  | case2 offset cs content origins hu ih =>
    rw [hu] at ih
    rcases List.suffix_cons_iff.mp h with heq | h
    · cases (List.cons.inj heq).1
    · obtain ⟨later, offset', hl, hrest⟩ := ih h
      exact ⟨later, offset', hl.trans ⟨['\\', '"'], rfl⟩, hrest⟩
  | case3 offset x cs _ content origins hu ih =>
    rw [hu] at ih
    rcases List.suffix_cons_iff.mp h with heq | h
    · obtain ⟨rfl, rfl⟩ := List.cons.inj heq
      exact ⟨cs, _, List.suffix_rfl, by rw [hu]⟩
    · obtain ⟨later, offset', hl, hrest⟩ := ih h
      exact ⟨later, offset', hl.trans ⟨[x], rfl⟩, hrest⟩

/-- Taking backslashes away leaves no more characters. -/
lemma length_unescape_le (offset : Nat) (cs : List Char) : (unescape offset cs).1.length ≤ cs.length := by
  fun_induction unescape offset cs with
  | case1 => exact Nat.le_refl _
  | case2 offset cs content origins hu ih =>
    rw [hu] at ih
    simp only [List.length_cons] at ih ⊢
    omega
  | case3 offset x cs _ content origins hu ih =>
    rw [hu] at ih
    exact Nat.succ_le_succ ih

/-- What a string's content starts with, up to a quote, stands in the string as it is. -/
lemma exists_of_prefix {offset : Nat} {w cs : List Char} (hw : '"' ∉ w) (h : w <+: (unescape offset cs).1) :
    ∃ later offset', cs = w ++ later ∧ (unescape offset cs).1 = w ++ (unescape offset' later).1 := by
  induction w generalizing offset cs with
  | nil => exact ⟨cs, offset, rfl, rfl⟩
  | cons x w ih =>
    have hx : '"' ≠ x := fun heq => hw (heq ▸ List.mem_cons_self ..)
    have hw' : '"' ∉ w := fun hm => hw (List.mem_cons_of_mem _ hm)
    obtain ⟨rest, hrest⟩ := h
    fun_cases unescape offset cs with
    | case1 => cases hrest
    | case2 cs content origins hu =>
      rw [unescape] at hrest
      simp only [hu, List.cons_append] at hrest
      exact absurd (List.cons.inj hrest).1.symm hx
    | case3 y cs hesc content origins hu =>
      rw [unescape.eq_3 _ _ _ hesc] at hrest
      simp only [List.cons_append] at hrest ⊢
      obtain ⟨rfl, hrest⟩ := List.cons.inj hrest
      obtain ⟨later, offset', rfl, hlater⟩ := ih hw' ⟨rest, hrest⟩
      exact ⟨later, offset', rfl, by rw [← hlater, hu]⟩

/-- A name does not go on in the content of a string where it does not in the string. -/
lemma head?_unescape (offset : Nat) (cs : List Char) :
    (unescape offset cs).1.head?.any isNameChar = cs.head?.any isNameChar := by
  fun_cases unescape offset cs with
  | case1 => rfl
  | case2 => rfl
  | case3 => rfl

lemma getElem?_append_length (w cs : List Char) : (w ++ cs)[w.length]? = cs.head? := by
  rw [List.getElem?_append_right (Nat.le_refl _), Nat.sub_self, List.head?_eq_getElem?]

/-- The content of a string in prose is prose. -/
lemma isProse_unescape {text w back : List Char} {offset : Nat} (h : IsProse text)
    (hs : w ++ '"' :: back <:+ text) : IsProse (unescape offset w).1 := by
  intro rest hr
  obtain ⟨later, offset', ⟨front, rfl⟩, rfl⟩ := exists_of_suffix hr
  have closed : opensDirective (later ++ '"' :: back) = false := by
    refine h _ (List.IsSuffix.trans ⟨front, ?_⟩ hs)
    rw [List.append_assoc, List.cons_append]
  -- What would start a directive in the content would start one in the string.
  have carries {v : List Char} (hv : '"' ∉ v) (hp : v <+: (unescape offset' later).1) :
      v <+: later ++ '"' :: back := by
    obtain ⟨after, -, rfl, -⟩ := exists_of_prefix hv hp
    exact ⟨after ++ '"' :: back, by rw [List.append_assoc]⟩
  have quotes : ∀ v ∈ directiveWords, '"' ∉ v ∧ '"' ∉ '\x7b' :: v ++ ['\x7d'] := by decide
  refine Bool.eq_false_iff.mpr fun opens => ?_
  rw [Bool.eq_false_iff] at closed
  rcases Bool.or_eq_true_iff.mp opens with marks | words
  · refine closed (Bool.or_eq_true_iff.mpr (.inl ?_))
    refine Bool.or_eq_true_iff.mpr ((Bool.or_eq_true_iff.mp marks).imp (fun hp => ?_) fun hp => ?_)
    · exact List.isPrefixOf_iff_prefix.mpr (carries (by decide) (List.isPrefixOf_iff_prefix.mp hp))
    · exact List.isPrefixOf_iff_prefix.mpr (carries (by decide) (List.isPrefixOf_iff_prefix.mp hp))
  · obtain ⟨v, hv, hp⟩ := List.any_eq_true.mp words
    rcases Bool.or_eq_true_iff.mp hp with hp | hp
    · exact closed (opensDirective_of_braced hv (carries (quotes v hv).2 (List.isPrefixOf_iff_prefix.mp hp)))
    · obtain ⟨first, next⟩ := Bool.and_eq_true_iff.mp hp
      obtain ⟨after, o, rfl, heq⟩ := exists_of_prefix (quotes v hv).1 (List.isPrefixOf_iff_prefix.mp first)
      refine closed (opensDirective_of_word hv (Bool.and_eq_true_iff.mpr ⟨?_, ?_⟩))
      · exact List.isPrefixOf_iff_prefix.mpr ⟨after ++ '"' :: back, by rw [List.append_assoc]⟩
      · rw [heq, getElem?_append_length, head?_unescape] at next
        rw [List.append_assoc, getElem?_append_length]
        cases after with
        | nil => rfl
        | cons x xs => exact next

end Quoted

/-! ### Numbers -/

/-- Digits, at least one. -/
structure AreDigits (ds : List Char) : Prop where
  ne_nil : ds ≠ []
  digits : ∀ x ∈ ds, x.isDigit = true

lemma AreDigits.all {ds : List Char} (h : AreDigits ds) : ds.all Char.isDigit = true := List.all_eq_true.mpr h.digits

/-- Digits before something else are what is taken as digits. -/
lemma AreDigits.span {ds rest : List Char} (h : AreDigits ds) (hr : ∀ x ∈ rest.head?, x.isDigit = false) :
    (ds ++ rest).takeWhile Char.isDigit = ds ∧ (ds ++ rest).dropWhile Char.isDigit = rest := by
  rw [List.takeWhile_append_of_pos h.digits, List.dropWhile_append_of_pos h.digits]
  cases rest with
  | nil => exact ⟨List.append_nil ds, rfl⟩
  | cons x rest =>
    have other := hr x rfl
    simp [other]

/-- The exponent of a number, which may be missing. -/
inductive IsExponent : List Char → Prop
  | nil : IsExponent []
  | cons {e : Char} {sign ds : List Char} : e ∈ ['e', 'E'] → sign ∈ [[], ['+'], ['-']] → AreDigits ds →
    IsExponent (e :: (sign ++ ds))

/-- The digits after the point of a number, and the point, which may be missing. -/
inductive IsFraction : List Char → Prop
  | nil : IsFraction []
  | cons {ds : List Char} : AreDigits ds → IsFraction ('.' :: ds)

lemma AreDigits.isEmpty {ds : List Char} (h : AreDigits ds) : ds.isEmpty = false := by
  cases hds : ds.isEmpty with
  | false => rfl
  | true => exact absurd (List.isEmpty_iff.mp hds) h.ne_nil

lemma AreDigits.head {ds : List Char} (h : AreDigits ds) :
    ∃ x xs, ds = x :: xs ∧ x ≠ '-' ∧ x ≠ '+' ∧ x.isDigit = true := by
  obtain ⟨x, xs, rfl⟩ := List.exists_cons_of_ne_nil h.ne_nil
  have digit := h.digits x (List.mem_cons_self ..)
  refine ⟨x, xs, rfl, ?_, ?_, digit⟩
  · rintro rfl
    cases digit
  · rintro rfl
    cases digit

lemma IsExponent.exists_readExponent {exponent : List Char} (h : IsExponent exponent) :
    ∃ n, readExponent? exponent = some n := by
  cases h with
  | nil => exact ⟨0, rfl⟩
  | @cons e sign ds he hs hd =>
    have marks : ∀ e ∈ ['e', 'E'], (e != 'e' && e != 'E') = false := forall_mem_of_all (by decide)
    have mark : (e != 'e' && e != 'E') = false := marks e he
    have accepted (negative : Bool) : ∃ n, (if ds.isEmpty || !ds.all Char.isDigit then none
        else some (if negative then -(natOfDigits ds : Int) else natOfDigits ds)) = some n := by
      rw [hd.isEmpty, hd.all]
      exact ⟨_, rfl⟩
    unfold readExponent?
    dsimp only
    rw [mark, if_neg Bool.false_ne_true]
    simp only [List.mem_cons, List.not_mem_nil, or_false] at hs
    rcases hs with rfl | rfl | rfl
    · obtain ⟨x, xs, hx, minus, plus, -⟩ := hd.head
      rw [List.nil_append]
      split
      · exact absurd (List.cons.inj hx).1.symm minus
      · exact absurd (List.cons.inj hx).1.symm plus
      · exact accepted false
    · exact accepted false
    · exact accepted true

/-- What follows the digits of a number is no digit. -/
lemma IsExponent.head {exponent : List Char} (h : IsExponent exponent) :
    ∀ x ∈ exponent.head?, x.isDigit = false ∧ x ≠ '.' := by
  cases h with
  | nil => exact nofun
  | @cons e sign ds he _ _ =>
    have marks : ∀ x ∈ ['e', 'E'], x.isDigit = false ∧ x ≠ '.' := forall_mem_of_all (by decide)
    intro x hx
    obtain rfl := Option.some.inj hx
    exact marks e he

/-- A number is read as a decimal. -/
lemma exists_ofText {ds fraction exponent : List Char} (hd : AreDigits ds) (hf : IsFraction fraction)
    (he : IsExponent exponent) : ∃ x, Decimal.ofText? (ds ++ (fraction ++ exponent)) = some x := by
  obtain ⟨n, hn⟩ := he.exists_readExponent
  have after := he.head
  unfold Decimal.ofText?
  cases hf with
  | nil =>
    obtain ⟨whole, rest⟩ := hd.span fun x hx => (after x hx).1
    rw [List.nil_append, whole, rest]
    dsimp only
    split
    · exact absurd rfl (after '.' rfl).2
    · simp [hd.isEmpty, hn]
  | @cons fs hfs =>
    obtain ⟨whole, rest⟩ := @AreDigits.span ds ('.' :: fs ++ exponent) hd fun x hx => by
      obtain rfl := Option.some.inj hx
      rfl
    obtain ⟨fraction, rest'⟩ := hfs.span fun x hx => (after x hx).1
    rw [whole, rest]
    simp [hd.isEmpty, fraction, rest', hn]

/-- The text of a number is read. -/
lemma exists_readFloat {sign ds fraction exponent : List Char} (hs : sign ∈ [[], ['-']]) (hd : AreDigits ds)
    (hf : IsFraction fraction) (he : IsExponent exponent) :
    ∃ x, readFloat? (sign ++ ds ++ fraction ++ exponent) = some x := by
  obtain ⟨number, hnumber⟩ := exists_ofText hd hf he
  have unsigned (negative : Bool) (cs : List Char) (hcs : cs = ds ++ (fraction ++ exponent)) :
      ∃ x, (let word := String.ofList (cs.map Char.toLower)
        if word == "inf" || word == "infinity" then some (floatOfRatio negative (Nat.pow 2 1024) 1)
        else if word == "nan" then some (0.0 / 0.0)
        else (Decimal.ofText? cs).map (Decimal.toFloat negative)) = some x := by
    dsimp only
    split
    · exact ⟨_, rfl⟩
    · split
      · exact ⟨_, rfl⟩
      · rw [hcs, hnumber]
        exact ⟨_, rfl⟩
  simp only [List.mem_cons, List.not_mem_nil, or_false] at hs
  rw [List.append_assoc, List.append_assoc]
  rcases hs with rfl | rfl
  · obtain ⟨x, xs, rfl, minus, plus, -⟩ := hd.head
    rw [List.nil_append, List.cons_append]
    unfold readFloat?
    split
    next negative cs hsplit =>
    split at hsplit
    · next heq => exact absurd (List.cons.inj heq).1 minus
    · next heq => exact absurd (List.cons.inj heq).1 plus
    · cases hsplit
      exact unsigned false _ rfl
  · exact unsigned true _ rfl

namespace Rule

variable {site : Site} {inner : Site → List Char → Except Failure Block} {c d : Cursor}

/-- The parts of the text of a number. -/
lemma exists_numeral {p : Pattern} (hb : body number = .word p) (h : p.run c = some d) :
    ∃ sign ds fraction exponent, c.upTo d = sign ++ ds ++ fraction ++ exponent ∧ sign ∈ [[], ['-']] ∧
      AreDigits ds ∧ IsFraction fraction ∧ IsExponent exponent := by
  rw [body_number] at hb
  cases hb
  obtain ⟨cs, reach, spells⟩ := Pattern.spells_of_run h
  obtain ⟨_, exponent, rfl, ⟨_, fraction, rfl, ⟨sign, ds, rfl, hsign, hds⟩, hfraction⟩, hexponent⟩ := spells
  have digits {ds : List Char} (h : (Pattern.several (.one Char.isDigit)).Spells ds) : AreDigits ds :=
    ⟨(Pattern.forall_of_spells h).1, (Pattern.forall_of_spells h).2⟩
  refine ⟨sign, ds, fraction, exponent, reach.upTo_eq, ?_, digits hds, ?_, ?_⟩
  · rcases hsign with rfl | rfl
    · decide
    · decide
  · rcases hfraction with rfl | ⟨_, ds, rfl, rfl, hds⟩
    · exact .nil
    · exact .cons (digits hds)
  · rcases hexponent with rfl | ⟨_, ds, rfl, ⟨_, sign, rfl, he, hsign⟩, hds⟩
    · exact .nil
    · have hsign' : sign ∈ [[], ['+'], ['-']] := by
        rcases hsign with rfl | rfl | rfl <;> decide
      rcases he with rfl | rfl
      · exact .cons (List.mem_cons_self ..) hsign' (digits hds)
      · exact .cons (List.mem_cons_of_mem _ (List.mem_cons_self ..)) hsign' (digits hds)

end Rule

/-! ### What they stand for -/

/-- The failure of a number that is no integer of 64 bits. -/
def Failure.IsOutOfRange (f : Failure) : Prop := ∃ token, f.cause = .parse .integerOutOfRange token

namespace Rule

open Slot (Filled)

variable {site : Site} {inner : Site → List Char → Except Failure Block} {c d : Cursor} {text : List Char}
  {parts : List Part}

/-- A number is a literal or out of range. -/
lemma meets_number (h : Grammar.Match body (meaning site inner) Makes text number c d parts) :
    Meets Failure.IsOutOfRange number.Makes (number.meaning site inner c d parts) := by
  obtain ⟨ts, derived, -⟩ := h.derived
  obtain ⟨p, hb⟩ : ∃ p, body number = .word p := ⟨_, rfl⟩
  obtain ⟨hrun, -⟩ := derived.of_word hb
  obtain ⟨sign, ds, fraction, exponent, hchars, hs, hd, hf, he⟩ := exists_numeral hb hrun
  have literal : (∃ l, Literal.ofNumber (c.upTo d) = .ok l) ∨
      Literal.ofNumber (c.upTo d) = .error .integerOutOfRange := by
    unfold Literal.ofNumber
    split
    · obtain ⟨x, hx⟩ := exists_readFloat hs hd hf he
      rw [hchars, hx]
      exact .inl ⟨_, rfl⟩
    · split
      · exact .inl ⟨_, rfl⟩
      · exact .inr rfl
  simp only [meaning]
  rcases literal with ⟨l, hl⟩ | hl
  · rw [hl]
    exact ⟨_, rfl, Expr.valued_literal _ _⟩
  · rw [hl]
    exact ⟨_, rfl⟩

/-- Nothing that is not closed is read in prose. -/
lemma not_unterminated (hprose : IsProse text)
    (h : Grammar.Match body (meaning site inner) Makes text unterminated c d parts) : False := by
  obtain ⟨ts, derived, -⟩ := h.derived
  obtain ⟨p, hp, hb⟩ : ∃ p : Pattern, p.words = some ["#*".toList, "#[[".toList] ∧ body unterminated = .word p :=
    ⟨_, rfl, rfl⟩
  obtain ⟨hrun, -⟩ := derived.of_word hb
  obtain ⟨w, hw, reach, -⟩ := Pattern.mem_words hp hrun
  have place := h.place
  rw [reach] at place
  simp only [List.mem_cons, List.not_mem_nil, or_false] at hw
  rcases hw with rfl | rfl
  · have closed := hprose _ place
    cases closed
  · have closed := hprose _ place
    cases closed

/-- What prose is read as stands for a block or has a number out of range, when that holds of the texts of the
strings in it. -/
lemma meets_prose {t : Tree Rule} (hprose : IsProse text) (ht : readTree text = .ok t)
    (hi : ∀ {site text'}, IsProse text' → text'.length < text.length →
      Meets Failure.IsOutOfRange Block.Orderly (inner site text')) :
    Meets Failure.IsOutOfRange template.Makes (t.eval (meaning site inner)) := by
  refine meets_eval ht fun {r c d ps} hr m => ?_
  simp only [List.mem_cons, List.not_mem_nil, or_false] at hr
  rcases hr with rfl | rfl | rfl
  · exact (not_unterminated hprose m).elim
  · exact meets_number m
  · obtain ⟨w, rfl, reach⟩ := exists_quoted m
    have hrest : c.rest = '"' :: (w ++ '"' :: d.rest) := by simpa using reach.1
    have place := m.place
    rw [hrest] at place
    have inside : w ++ '"' :: d.rest <:+ text := (List.suffix_cons _ _).trans place
    refine meets_quoted fun content origins hu => hi ?_ ?_
    · have prose := @Quoted.isProse_unescape text w d.rest (c.offset + 1) hprose inside
      rwa [hu] at prose
    · have shorter : content.length ≤ w.length := by
        have := Quoted.length_unescape_le (c.offset + 1) w
        rwa [hu] at this
      have longer := place.length_le
      simp only [List.length_cons, List.length_append] at longer
      omega

end Rule

/-- Prose is read as a block, or has a number out of range, when strings may be nested deep enough. -/
lemma meets_readBlock {depth : Nat} {site : Site} {text : List Char} (h : IsProse text) (hd : text.length < depth) :
    Meets Failure.IsOutOfRange Block.Orderly (readBlock depth site text) := by
  induction depth generalizing site text with
  | zero => cases hd
  | succ depth ih =>
    obtain ⟨t, ht⟩ := exists_readTree h
    refine meets_readBlock_succ (fun refusal refused => ?_) fun u hu =>
      Rule.meets_prose h hu fun prose shorter => ih prose (by omega)
    rw [ht] at refused
    cases refused

/-- A text without directives, block comments and raw texts parses, whatever is left open in it and in its strings,
unless a number in it is no integer of 64 bits. -/
theorem parse_of_prose {s : Source} (h : IsProse s.text.toList) (policy : GobblingPolicy) :
    (∃ b, parse s policy = .ok b) ∨
      ∃ f token, parse s policy = .error (.single f) ∧ f.cause = .parse .integerOutOfRange token := by
  obtain ⟨t, ht⟩ := exists_readTree h
  have whole : Meets Failure.IsOutOfRange Rule.template.Makes (t.eval (Rule.meaning (Site.ofSource s)
      (readBlock (stringDepth s.text.toList)))) :=
    Rule.meets_prose h ht fun prose shorter => meets_readBlock prose (Nat.lt_succ_of_lt shorter)
  unfold parse parseTree
  have chars : (Site.ofSource s).chars = s.text.toList := rfl
  dsimp only
  rw [chars, ht]
  dsimp only
  cases he : t.eval (Rule.meaning (Site.ofSource s) (readBlock (stringDepth s.text.toList))) with
  | error f =>
    rw [he] at whole
    obtain ⟨token, hcause⟩ := whole
    exact .inr ⟨f.inSource s, token, rfl, hcause⟩
  | ok part =>
    rw [he] at whole
    obtain ⟨b, rfl, -⟩ := whole
    exact .inl ⟨_, rfl⟩

/-- A text that leaves a reference, a string in a string, a macro call, a block call and brackets open. -/
theorem parse_of_prose_open :
    IsProse "$a.f(\"#b($c[\\\"\" 1 '\x7d) #@d(\"e$\") \\ # $ #5 $\x7bx #end_".toList ∧
      ((∃ b, parse ⟨"t", "$a.f(\"#b($c[\\\"\" 1 '\x7d) #@d(\"e$\") \\ # $ #5 $\x7bx #end_"⟩ .none = .ok b) ∨
        ∃ f token, parse ⟨"t", "$a.f(\"#b($c[\\\"\" 1 '\x7d) #@d(\"e$\") \\ # $ #5 $\x7bx #end_"⟩ .none =
          .error (.single f) ∧ f.cause = .parse .integerOutOfRange token) := by
  have prose : IsProse "$a.f(\"#b($c[\\\"\" 1 '\x7d) #@d(\"e$\") \\ # $ #5 $\x7bx #end_".toList := by
    decide +kernel
  exact ⟨prose, parse_of_prose prose .none⟩

end Stencil
