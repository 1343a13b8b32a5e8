import Stencil.Proofs.Bodies
import Stencil.Proofs.Reading.Plain

/-!
# Texts and markers

A run of text and a directive lie apart. Main statements: `Gobbling.within_of_text`, the blanks of a line that starts in
a text belong to the text, and `Gobbling.lone_or_not_around`, such a line has nothing on it but a marker, or nothing on
it stands around markers.
-/

namespace Stencil

variable {cs : List Char} {t u v : Tree Rule}

/-! ### Rules with text -/

/-- Whether there may be text in what a rule reads. -/
def Rule.holdsText : Rule → Bool
  | template | block | text | stray | ifDirective | elseifBranch | elseBranch | foreachDirective | macroDirective
  | blockMacroCall => true
  | _ => false

/-- The rules of text. -/
def Rule.texts : List Rule := [.text, .stray]

/-- A rule without text reads by rules without text. -/
lemma Rule.holdsText_of_mem_rows {r q : Rule} (hr : r.holdsText = false) (hq : q ∈ r.rows.flatten.flatMap Slot.rules) :
    q.holdsText = false := by
  have checked : ∀ r ∈ Rule.all, r.holdsText = false →
      ∀ q ∈ r.rows.flatten.flatMap Slot.rules, q.holdsText = false := by
    decide +kernel
  exact checked r (mem_all r) hr q hq

/-- What lies in a part without text has none. -/
lemma Tree.Holds.holdsText (ht : readTree cs = .ok t) (hu : t.Holds u) (hr : u.rule.holdsText = false)
    (hv : u.Holds v) : v.rule.holdsText = false := by
  induction hv with
  | self => exact hr
  | @child u w v hm hv ih =>
    refine ih (hu.trans (.child hm .self)) ?_
    rcases hu.children ht with none | ⟨g, hb, hd⟩
    · rw [none] at hm
      cases hm
    · obtain ⟨row, hrow, filled⟩ := Tree.fillsOne_of_derives hd
      obtain ⟨q, hq, made⟩ := filled.mem w hm
      rw [Rule.rows_of_body hb] at hrow
      rw [made]
      refine Rule.holdsText_of_mem_rows hr ?_
      obtain ⟨slot, hslot, hq⟩ := List.mem_flatMap.mp hq
      exact List.mem_flatMap.mpr ⟨slot, List.mem_flatten.mpr ⟨row, hrow, hslot⟩, hq⟩

/-- A text and a marker lie apart. -/
theorem Tree.Holds.apart (ht : readTree cs = .ok t) (hu : t.Holds u) (hv : t.Holds v) (silent : u.rule.isSilent = true)
    (text : v.rule ∈ Rule.texts) : u.Apart v := by
  have noText : ∀ r ∈ Rule.all, r.isSilent = true → r.holdsText = false := by decide +kernel
  have leaf : ∀ r ∈ Rule.texts, ∃ p, Rule.body r = .word p := by
    simp only [Rule.texts, List.forall_mem_cons]
    exact ⟨⟨_, rfl⟩, ⟨_, rfl⟩, nofun⟩
  have some : ∀ r ∈ Rule.texts, r.holdsText = true ∧ r.isSilent = false := by decide
  rcases hu.nested ht hv with inside | around | apart
  · have none := hu.holdsText ht (noText _ (Rule.mem_all _) silent) inside
    rw [(some _ text).1] at none
    cases none
  · cases around with
    | self =>
      rw [(some _ text).2] at silent
      cases silent
    | child hm _ =>
      rcases hv.children ht with none | ⟨g, hb, -⟩
      · rw [none] at hm
        cases hm
      · obtain ⟨p, hp⟩ := leaf _ text
        rw [hp] at hb
        cases hb
  · exact apart

/-! ### Where texts end -/

/-- Rounds that each read something end where no round is possible, or where nothing is left. -/
lemma Cursor.repeated_ends {step : Cursor → Option Cursor} (hs : ∀ c d, step c = some d → d.rest.length < c.rest.length)
    {bound : List Char} {c : Cursor} (hc : c.rest.length ≤ bound.length) :
    step (repeated step bound c) = none ∨ (repeated step bound c).rest = [] := by
  induction bound generalizing c with
  | nil => exact .inr (List.length_eq_zero_iff.mp (Nat.le_zero.mp hc))
  | cons x bound ih =>
    unfold repeated
    split
    · next none => exact .inl none
    · next d more =>
      have shorter := hs c d more
      rw [List.length_cons] at hc
      exact ih (by omega)

/-- A run of text goes on up to a mark or the end. -/
lemma Rule.ends_text {c d : Cursor} {ts : List (Tree Rule)} (hd : Peg.Derives Rule.body (.rule .text) c d ts) :
    d.rest = [] ∨ d.atMark := by
  obtain ⟨special, opens, -, htext, -⟩ := exists_mark
  obtain ⟨hrun, -⟩ := hd.of_word htext
  obtain ⟨e, -, hrun⟩ := Option.bind_eq_some_iff.mp hrun
  obtain rfl := Option.some.inj hrun
  have shorter : ∀ c d, (Pattern.absent special ++ .any).run c = some d → d.rest.length < c.rest.length := by
    intro c d h
    obtain ⟨c', hc, h⟩ := Option.bind_eq_some_iff.mp h
    obtain rfl := Pattern.eq_of_run_absent hc
    obtain ⟨x, -, reaches⟩ := Cursor.next?_reaches h
    rw [reaches.1]
    simp
  refine (Cursor.repeated_ends shorter (Nat.le_refl _)).elim (fun stuck => ?_) .inl
  generalize Cursor.repeated _ _ _ = d at stuck ⊢
  by_cases hm : d.atMark
  · exact .inr hm
  · have noMark : special.run d = none := Pattern.run_eq_none opens (Cursor.not_mem_marks (Bool.eq_false_iff.mpr hm))
    cases hx : d.rest with
    | nil => exact .inl rfl
    | cons x xs =>
      have more : (Pattern.absent special ++ .any).run d = some ⟨d.offset + x.utf8Size, xs⟩ := by
        show ((Pattern.absent special).run d).bind _ = _
        simp [Pattern.run, noMark, Pattern.any, Cursor.next?, hx]
      rw [more] at stuck
      cases stuck

/-- A stray mark is one character. -/
lemma Rule.reads_stray {c d : Cursor} {ts : List (Tree Rule)} (hd : Peg.Derives Rule.body (.rule .stray) c d ts) :
    ∃ x ∈ marks, c.Reaches d [x] := by
  have hb : body .stray = .word (.absent (.lit "#" ++ keyword) ++ (.lit "#" <|> .lit "$" <|> .lit "\\")) := rfl
  obtain ⟨hrun, -⟩ := hd.of_word hb
  obtain ⟨e, he, hrun⟩ := Option.bind_eq_some_iff.mp hrun
  obtain rfl := Pattern.eq_of_run_absent he
  have word {x : Char} (h : (Pattern.word [x]).run c = some d) : c.Reaches d [x] := Cursor.word?_reaches h
  change (Pattern.alt (.word ['#']) (.alt (.word ['$']) (.word ['\\']))).run c = some d at hrun
  simp only [Pattern.run] at hrun
  split at hrun
  · next h => exact ⟨'#', by decide, word (h.trans hrun)⟩
  · split at hrun
    · next h => exact ⟨'$', by decide, word (h.trans hrun)⟩
    · exact ⟨'\\', by decide, word hrun⟩

namespace Gobbling

variable {start : Nat} {line : List Char}

/-- What a line starts with that starts in a text belongs to the text. -/
theorem within_of_text (ht : readTree cs = .ok t) (hv : t.Holds v) (text : v.rule ∈ Rule.texts)
    (isLine : IsLine cs start line) (lo : v.start.offset ≤ start) (hi : start < v.stop.offset) :
    start + indented line ≤ v.stop.offset := by
  obtain ⟨⟨front, hcs, hfront⟩, derived⟩ := hv.derived ht
  obtain ⟨word, hword, hstop⟩ := derived.reaches
  obtain ⟨before, back, hline, rfl, -⟩ := isLine
  change cs = front ++ v.start.rest at hcs
  change v.start.offset = 0 + utf8Length front at hfront
  rw [Nat.zero_add] at hfront
  -- The text up to the line, the rest of it from there, and what follows it.
  obtain ⟨x, rfl⟩ := exists_append_of_utf8Length_le (hcs.symm.trans hline) (hfront ▸ lo)
  have parts : x ++ (line ++ back) = word ++ v.stop.rest := by
    rw [hcs, hword, List.append_assoc] at hline
    exact (List.append_cancel_left hline).symm
  rw [utf8Length_append] at hi lo ⊢
  obtain ⟨y, rfl⟩ := exists_append_of_utf8Length_le parts (by omega)
  rw [List.append_assoc] at parts
  have rest := List.append_cancel_left parts
  rw [utf8Length_append] at hstop
  suffices indented line ≤ utf8Length y by omega
  rcases List.append_eq_append_iff.mp rest with ⟨z, rfl, -⟩ | ⟨z, rfl, hz⟩
  · rw [utf8Length_append]
    exact Nat.le_trans (indented_le line) (Nat.le_add_right _ _)
  · -- The line goes on behind the text, which ends at a mark, or is one.
    have noBlank : ∀ c ∈ Rule.marks, c ∉ [' ', '\t'] := by simp [Rule.marks]
    rcases List.mem_cons.mp text with run | stray
    · rw [run] at derived
      have ends : ∀ c ∈ z.head?, c ∈ Rule.marks := by
        intro c hc
        obtain ⟨z', rfl⟩ := List.head?_eq_some_iff.mp hc
        rcases Rule.ends_text derived with none | mark
        · rw [none] at hz
          cases hz
        · unfold Cursor.atMark at mark
          rw [hz] at mark
          exact List.contains_iff_mem.mp mark
      rw [indented_append fun c hc => noBlank c (ends c hc)]
      exact indented_le y
    · rw [List.mem_singleton.mp stray] at derived
      obtain ⟨m, hm, reaches⟩ := Rule.reads_stray derived
      have word : x ++ y = [m] := by
        have same := hword.symm.trans reaches.1
        exact List.append_cancel_right same
      have first : x = [] ∧ y = [m] := by
        cases x with
        | nil => exact ⟨rfl, word⟩
        | cons c x =>
          obtain ⟨rfl, none⟩ := List.cons.inj word
          obtain ⟨rfl, rfl⟩ := List.append_eq_nil_iff.mp none
          rw [utf8Length_nil] at hstop
          omega
      obtain ⟨rfl, rfl⟩ := first
      have nothing : indented ([] ++ ([m] ++ z)) = 0 := indented_append fun c hc => noBlank c (Option.some.inj hc ▸ hm)
      rw [List.nil_append] at nothing
      omega

/-! ### Lines with nothing but a marker -/

/-- No line starts where there is no line feed. -/
lemma not_startsLine_of_not_mem {before mid back front rest : List Char} (ht : cs = before ++ (mid ++ back))
    (hmid : '\n' ∉ mid) (hf : cs = front ++ rest) (lo : utf8Length before < utf8Length front)
    (hi : utf8Length front ≤ utf8Length (before ++ mid)) : ¬StartsLine front := by
  intro starts
  obtain ⟨x, rfl⟩ := exists_append_of_utf8Length_le (ht.symm.trans hf) (Nat.le_of_lt lo)
  have parts : mid ++ back = x ++ rest := by
    rw [ht, List.append_assoc] at hf
    exact List.append_cancel_left hf
  rw [utf8Length_append, utf8Length_append] at hi
  obtain ⟨y, rfl⟩ := exists_append_of_utf8Length_le parts.symm (Nat.le_of_add_le_add_left hi)
  have some : x ≠ [] := by
    rintro rfl
    rw [List.append_nil] at lo
    exact Nat.lt_irrefl _ lo
  exact hmid (List.mem_append_left y (feed_mem_of_startsLine starts some))

/-- Behind a marker that is alone on its lines, the next line starts where what belongs to the marker ends. -/
lemma Alone.not_startsLine {m : Span} {before indent word tail after front rest : List Char}
    (alone : Alone cs m before indent word tail after) (filled : word ≠ []) (hcs : cs = front ++ rest)
    (behind : utf8Length (before ++ indent ++ word) ≤ utf8Length front)
    (inTail : utf8Length front < utf8Length (before ++ indent ++ word ++ tail)) : ¬StartsLine front := by
  intro starts
  have through : cs = before ++ indent ++ word ++ (tail ++ after) := by
    rw [alone.text]
    simp only [List.append_assoc]
  -- A line starts where the marker ends with a line feed, and otherwise behind the tail.
  have nowhere {mid rest : List Char} (hl : word.getLast? ≠ some '\n') (hm : ∀ c ∈ mid, c ∈ [' ', '\t', '\r'])
      (ht : cs = before ++ indent ++ word ++ (mid ++ rest))
      (hi : utf8Length front ≤ utf8Length (before ++ indent ++ word ++ mid)) : False := by
    rcases Nat.lt_or_eq_of_le behind with lt | eq
    · exact not_startsLine_of_not_mem ht (not_mem_of_tail hm) hcs lt hi starts
    · obtain ⟨z, rfl⟩ := exists_append_of_utf8Length_le (through.symm.trans hcs) behind
      obtain rfl : z = [] := by
        cases z with
        | nil => rfl
        | cons c z =>
          have := c.utf8Size_pos
          simp only [utf8Length_append, utf8Length_cons] at eq
          omega
      rw [List.append_nil] at starts
      rcases starts with none | feed
      · exact filled (List.append_eq_nil_iff.mp none).2
      · rw [List.getLast?_append_of_ne_nil _ filled] at feed
        exact hl feed
  cases alone.ends with
  | owned _ =>
    rw [List.append_nil] at inTail
    omega
  | @fed mid rest hl hm =>
    rw [← List.append_assoc, utf8Length_append, utf8Length_feed] at inTail
    exact nowhere hl hm (by rw [through, List.append_assoc mid]) (by omega)
  | ended hl hm => exact nowhere hl hm through (Nat.le_of_lt inTail)

/-- Where a line starts in a text, what stands around markers on the line stands around one that starts there first. -/
lemma start_of_around (ht : readTree cs = .ok t) (hv : t.Holds v) (text : v.rule ∈ Rule.texts)
    (isLine : IsLine cs start line) (lo : v.start.offset ≤ start) (hi : start < v.stop.offset) {offset : Nat}
    (le : start ≤ offset) (le' : offset ≤ start + utf8Length line) (h : Around cs t offset) :
    ∃ u, t.Holds u ∧ u.rule.isSilent = true ∧ ∃ before indent word tail after,
      Alone cs u.span before indent word tail after ∧ start = utf8Length before := by
  obtain ⟨u, hu, silent, before, indent, word, tail, after, alone, inside⟩ := h
  have apart := hu.apart ht hv silent text
  refine ⟨u, hu, silent, before, indent, word, tail, after, alone, ?_⟩
  have uStart : u.start.offset = utf8Length (before ++ indent) := alone.start
  have uStop : u.stop.offset = utf8Length (before ++ indent ++ word) := alone.stop
  have first : utf8Length before ≤ offset := by
    simp only [utf8Length_append] at inside ⊢
    omega
  by_cases early : start ≤ utf8Length before
  · exact (isLine.start_of_startsLine alone.text alone.starts early (Nat.le_trans first le')).symm
  exfalso
  obtain ⟨front, back, hcs, rfl, starts, -⟩ := isLine
  -- The line would start in the indentation of the marker, or in what follows the marker on its last line.
  have notBefore : utf8Length (before ++ indent) < utf8Length front := by
    by_contra hn
    exact not_startsLine_of_not_mem alone.text (not_mem_of_indent alone.indented) hcs (Nat.lt_of_not_le early)
      (Nat.le_of_not_lt hn) starts
  have behind : utf8Length (before ++ indent ++ word) ≤ utf8Length front := by
    rcases apart with before | behind
    · omega
    · omega
  have inTail : offset < utf8Length (before ++ indent ++ word ++ tail) := by
    rcases inside with inside | inside
    · omega
    · exact inside.2
  obtain ⟨_, spells, filled⟩ := hu.spells ht
  have filledWord : word ≠ [] := alone.word_ne_nil (spells.lt (filled silent))
  exact alone.not_startsLine filledWord hcs behind (Nat.lt_of_le_of_lt le inTail) starts

/-- Whether there is nothing on a line but a marker, and blanks around it. -/
def Lone (cs : List Char) (t : Tree Rule) (start : Nat) (line : List Char) : Prop :=
  ∃ u, t.Holds u ∧ u.rule.isSilent = true ∧ start ≤ u.span.start ∧ u.span.start ≤ start + utf8Length line ∧
    ∀ offset c, CharAt cs offset c → start ≤ offset → offset ≤ start + utf8Length line →
      offset < u.span.start ∨ u.span.stop ≤ offset → Around cs t offset

/-- What is on a line reaches up to the next line feed. -/
lemma IsLine.le_of_not_mem {before mid back : List Char} (h : IsLine cs (utf8Length before) line)
    (ht : cs = before ++ (mid ++ back)) (hmid : '\n' ∉ mid) : utf8Length mid ≤ utf8Length line := by
  obtain ⟨front, rest, hcs, hstart, -, -, ends⟩ := h
  have same : mid ++ back = line ++ rest := back_eq (ht.symm.trans hcs) hstart
  rcases List.append_eq_append_iff.mp same with ⟨z, rfl, -⟩ | ⟨z, rfl, hz⟩
  · rw [utf8Length_append]
    exact Nat.le_add_right _ _
  · cases z with
    | nil => rw [List.append_nil]
    | cons c z =>
      rw [hz] at ends
      obtain rfl := ends c rfl
      exact absurd (List.mem_append_right _ (List.mem_cons_self ..)) hmid

/-- On the line on which a marker alone with it starts, all that is not the marker stands around it. -/
lemma lone_of_alone (ht : readTree cs = .ok t) {u : Tree Rule} (hu : t.Holds u) (silent : u.rule.isSilent = true)
    {before indent word tail after : List Char} (alone : Alone cs u.span before indent word tail after)
    (isLine : IsLine cs (utf8Length before) line) : Lone cs t (utf8Length before) line := by
  have short := isLine.le_of_not_mem alone.text (not_mem_of_indent alone.indented)
  obtain ⟨_, spells, filled⟩ := hu.spells ht
  have lt := spells.lt (filled silent)
  refine ⟨u, hu, silent, ?_, ?_, fun offset c hc lo hi side => ?_⟩
  · rw [alone.start, utf8Length_append]
    exact Nat.le_add_right _ _
  · rw [alone.start, utf8Length_append]
    omega
  · refine ⟨u, hu, silent, before, indent, word, tail, after, alone, ?_⟩
    rcases side with inFront | behind
    · exact .inl ⟨lo, alone.start ▸ inFront⟩
    · refine .inr ⟨alone.stop ▸ behind, ?_⟩
      have through : cs = before ++ indent ++ word ++ tail ++ after := by
        rw [alone.text]
        simp only [List.append_assoc]
      -- What ends with a line feed behind the start of the line does not lie on it.
      have later {front rest : List Char} (hcs : cs = front ++ rest) (feed : front.getLast? = some '\n')
          (stop : u.span.stop ≤ utf8Length front) : offset < utf8Length front := by
        by_contra hn
        have same := isLine.start_of_startsLine hcs (.inr feed)
          (by rw [alone.start, utf8Length_append] at lt; omega) (by omega)
        rw [alone.start, utf8Length_append] at lt
        omega
      have reach : u.span.stop ≤ utf8Length (before ++ indent ++ word ++ tail) := by
        rw [alone.stop, utf8Length_append _ tail]
        exact Nat.le_add_right _ _
      cases alone.ends with
      | owned hl =>
        refine later through ?_ reach
        rw [List.append_nil, List.getLast?_append_of_ne_nil _ (alone.word_ne_nil lt)]
        exact hl
      | @fed mid _ hl _ =>
        refine later through ?_ reach
        rw [← List.append_assoc]
        exact List.getLast?_concat ..
      | ended _ _ =>
        obtain ⟨f, b, hcs, rfl⟩ := hc
        have length := congrArg utf8Length (hcs.symm.trans through)
        have := c.utf8Size_pos
        simp only [utf8Length_append, utf8Length_cons, utf8Length_nil] at length ⊢
        omega

/-- A line that starts in a text has nothing on it but a marker, or nothing on it stands around markers. -/
theorem lone_or_not_around (ht : readTree cs = .ok t) (hv : t.Holds v) (text : v.rule ∈ Rule.texts)
    (isLine : IsLine cs start line) (lo : v.start.offset ≤ start) (hi : start < v.stop.offset) :
    Lone cs t start line ∨ ∀ offset, start ≤ offset → offset ≤ start + utf8Length line → ¬Around cs t offset := by
  by_cases around : ∃ offset, start ≤ offset ∧ offset ≤ start + utf8Length line ∧ Around cs t offset
  · obtain ⟨offset, le, le', around⟩ := around
    obtain ⟨u, hu, silent, before, indent, word, tail, after, alone, rfl⟩ :=
      start_of_around ht hv text isLine lo hi le le' around
    exact .inl (lone_of_alone ht hu silent alone isLine)
  · exact .inr fun offset le le' h => around ⟨offset, le, le', h⟩

end Gobbling

end Stencil
