import Mathlib.Data.List.TakeWhile
import Stencil.Proofs.Thinning
import Stencil.Proofs.Reading.Refusals

/-!
# What gobbling takes away

Which characters of a template the policies take out of its texts, said of the template alone: the blanks around a
directive that has its lines to itself. Main statements: `Gobbling.Alone.loneLine?`, a directive that has its lines to
itself is found to, and `parse_gobbles`.
-/

namespace Stencil

/-! ### Lines -/

namespace Gobbling

/-- Whether a line of a text starts after these characters. -/
def StartsLine (front : List Char) : Prop := front = [] ∨ front.getLast? = some '\n'

/-- What follows a directive to the end of its line: nothing, if the directive ends with a line feed, and otherwise
blanks and the line feed, or blanks and the end of the text. -/
inductive EndsLine (word : List Char) : List Char → List Char → Prop
  | owned {after : List Char} : word.getLast? = some '\n' → EndsLine word [] after
  | fed {tail after : List Char} : word.getLast? ≠ some '\n' → (∀ c ∈ tail, c ∈ [' ', '\t', '\r']) →
    EndsLine word (tail ++ ['\n']) after
  | ended {tail : List Char} : word.getLast? ≠ some '\n' → (∀ c ∈ tail, c ∈ [' ', '\t', '\r']) →
    EndsLine word tail []

/-- A span of a text that shares its first and its last line with nothing but blanks: those of `indent` before it,
and those of `tail`, with the end of the line, behind it. -/
structure Alone (cs : List Char) (m : Span) (before indent word tail after : List Char) : Prop where
  text : cs = before ++ (indent ++ (word ++ (tail ++ after)))
  start : m.start = utf8Length (before ++ indent)
  stop : m.stop = utf8Length (before ++ indent ++ word)
  starts : StartsLine before
  indented : ∀ c ∈ indent, c ∈ [' ', '\t']
  ends : EndsLine word tail after

/-! ### Runs of characters -/

lemma utf8Length_of_forall {cs ds : List Char} (hd : ∀ d ∈ ds, d.utf8Size = 1) (h : ∀ c ∈ cs, c ∈ ds) :
    utf8Length cs = cs.length := by
  induction cs with
  | nil => rfl
  | cons c cs ih =>
    obtain ⟨here, later⟩ := List.forall_mem_cons.mp h
    rw [utf8Length_cons, hd c here, ih later, List.length_cons, Nat.add_comm]

/-- The characters of a text after its last line feed, and those up to it. -/
lemma exists_startsLine (cs : List Char) :
    ∃ before, cs = before ++ (cs.reverse.takeWhile (· != '\n')).reverse ∧ StartsLine before := by
  refine ⟨(cs.reverse.dropWhile (· != '\n')).reverse, ?_, ?_⟩
  · rw [← List.reverse_append, List.takeWhile_append_dropWhile, List.reverse_reverse]
  · cases h : cs.reverse.dropWhile (· != '\n') with
    | nil => exact .inl rfl
    | cons c rest =>
      refine .inr ?_
      have stopped := List.head?_dropWhile_not (· != '\n') cs.reverse
      rw [h] at stopped
      rw [List.getLast?_reverse]
      simpa using stopped

/-- After the start of a line, the characters without a line feed are those after the last line feed. -/
lemma takeWhile_reverse_append {before line : List Char} (hb : StartsLine before) (hl : '\n' ∉ line) :
    (before ++ line).reverse.takeWhile (· != '\n') = line.reverse := by
  have here : ∀ c ∈ line.reverse, (c != '\n') = true := by
    intro c hc
    exact bne_iff_ne.mpr fun h => hl (h ▸ List.mem_reverse.mp hc)
  rw [List.reverse_append, List.takeWhile_append_of_pos here]
  rcases hb with rfl | hb
  · rw [List.reverse_nil, List.takeWhile_nil, List.append_nil]
  · rw [← List.head?_reverse] at hb
    obtain ⟨rest, hrest⟩ := List.head?_eq_some_iff.mp hb
    rw [hrest, List.takeWhile_cons_of_neg (by simp), List.append_nil]

/-- The characters of a text up to a line feed. -/
lemma takeWhile_append_feed {line : List Char} (hl : '\n' ∉ line) (after : List Char) :
    (line ++ '\n' :: after).takeWhile (· != '\n') = line := by
  have here : ∀ c ∈ line, (c != '\n') = true := fun c hc => bne_iff_ne.mpr fun h => hl (h ▸ hc)
  rw [List.takeWhile_append_of_pos here, List.takeWhile_cons_of_neg (by simp), List.append_nil]

/-! ### Directives alone on their lines -/

lemma loneLine?_eq (cs : List Char) (m : Span) :
    loneLine? cs m =
      if !((takeBytes m.start cs).reverse.takeWhile (· != '\n')).all (fun c => c == ' ' || c == '\t') then none
      else if ((takeBytes m.stop cs).getLast?.map (· == '\n')).getD false then
        some (m.start - ((takeBytes m.start cs).reverse.takeWhile (· != '\n')).length, m.stop)
      else if !((dropBytes m.stop cs).takeWhile (· != '\n')).all
          (fun c => c == ' ' || c == '\t' || c == '\r') then none
      else
        some (m.start - ((takeBytes m.start cs).reverse.takeWhile (· != '\n')).length,
          min (m.stop + ((dropBytes m.stop cs).takeWhile (· != '\n')).length + 1) (utf8Length cs)) := rfl

lemma length_tail {cs : List Char} (h : ∀ c ∈ cs, c ∈ [' ', '\t', '\r']) : utf8Length cs = cs.length := by
  refine utf8Length_of_forall ?_ h
  rintro d (_ | ⟨_, _ | ⟨_, _ | ⟨_, hd⟩⟩⟩)
  · rfl
  · rfl
  · rfl
  · cases hd

lemma length_indent {cs : List Char} (h : ∀ c ∈ cs, c ∈ [' ', '\t']) : utf8Length cs = cs.length :=
  length_tail fun c hc => List.mem_append_left ['\r'] (h c hc)

variable {cs : List Char} {m : Span} {before indent word tail after : List Char}

lemma not_mem_of_indent (h : ∀ c ∈ indent, c ∈ [' ', '\t']) : '\n' ∉ indent :=
  fun hm => absurd (h _ hm) (by decide)

lemma not_mem_of_tail (h : ∀ c ∈ tail, c ∈ [' ', '\t', '\r']) : '\n' ∉ tail :=
  fun hm => absurd (h _ hm) (by decide)

lemma feed_iff : (word.getLast?.map (· == '\n')).getD false = true ↔ word.getLast? = some '\n' := by
  cases word.getLast? with
  | none => exact ⟨nofun, nofun⟩
  | some x => simp

lemma all_blank_iff :
    tail.all (fun c => c == ' ' || c == '\t' || c == '\r') = true ↔ ∀ c ∈ tail, c ∈ [' ', '\t', '\r'] := by
  simp [or_assoc]

/-- A line that goes on with blanks only ends behind these. -/
lemma exists_endsLine {back : List Char} (noFeed : word.getLast? ≠ some '\n')
    (blank : ∀ c ∈ back.takeWhile (· != '\n'), c ∈ [' ', '\t', '\r']) :
    ∃ tail after, back = tail ++ after ∧ EndsLine word tail after := by
  have parts : back = back.takeWhile (· != '\n') ++ back.dropWhile (· != '\n') :=
    List.takeWhile_append_dropWhile.symm
  cases hd : back.dropWhile (· != '\n') with
  | nil =>
    rw [hd] at parts
    exact ⟨_, [], parts, .ended noFeed blank⟩
  | cons c after =>
    have feed := List.head?_dropWhile_not (· != '\n') back
    rw [hd] at feed parts
    obtain rfl : c = '\n' := by simpa using feed
    refine ⟨_, after, ?_, .fed noFeed blank⟩
    rw [List.append_assoc]
    exact parts

namespace EndsLine

lemma tail_eq_nil (h : EndsLine word tail after) (feed : word.getLast? = some '\n') : tail = [] := by
  cases h with
  | owned _ => rfl
  | fed noFeed _ => exact absurd feed noFeed
  | ended noFeed _ => exact absurd feed noFeed

/-- What follows to the end of the line are blanks, and a line feed or the end of the text behind them. -/
lemma takeWhile_eq (h : EndsLine word tail after) (noFeed : word.getLast? ≠ some '\n') :
    (∀ c ∈ (tail ++ after).takeWhile (· != '\n'), c ∈ [' ', '\t', '\r']) ∧
      min (((tail ++ after).takeWhile (· != '\n')).length + 1) (utf8Length (tail ++ after)) = utf8Length tail := by
  cases h with
  | owned feed => exact absurd feed noFeed
  | @fed tail _ _ blank =>
    have taken : (tail ++ ['\n'] ++ after).takeWhile (· != '\n') = tail := by
      rw [List.append_assoc]
      exact takeWhile_append_feed (not_mem_of_tail blank) after
    have feed : ('\n' : Char).utf8Size = 1 := rfl
    have length : utf8Length (tail ++ ['\n']) = tail.length + 1 := by
      rw [utf8Length_append, length_tail blank, utf8Length_cons, feed]
      rfl
    rw [taken, utf8Length_append _ after, length]
    exact ⟨blank, Nat.min_eq_left (Nat.le_add_right _ _)⟩
  | ended _ blank =>
    have taken : tail.takeWhile (· != '\n') = tail :=
      List.takeWhile_eq_self_iff.mpr fun c hc => bne_iff_ne.mpr fun hn => not_mem_of_tail blank (hn ▸ hc)
    rw [List.append_nil, taken, length_tail blank]
    exact ⟨blank, Nat.min_eq_right (Nat.le_succ _)⟩

end EndsLine

/-- A directive alone on its lines is found to be, with where its first line starts and where its last one ends. -/
lemma Alone.loneLine? (h : Alone cs m before indent word tail after) (hw : word ≠ []) :
    Gobbling.loneLine? cs m = some (utf8Length before, utf8Length (before ++ indent ++ word ++ tail)) := by
  have text : cs = before ++ indent ++ word ++ tail ++ after := by
    rw [h.text]
    simp only [List.append_assoc]
  have front : takeBytes m.start cs = before ++ indent := by
    rw [text, h.start, List.append_assoc, List.append_assoc, takeBytes_append]
  have through : takeBytes m.stop cs = before ++ indent ++ word := by
    rw [text, h.stop, List.append_assoc (before ++ indent ++ word), takeBytes_append]
  have rest : dropBytes m.stop cs = tail ++ after := by
    rw [text, h.stop, List.append_assoc (before ++ indent ++ word), dropBytes_append]
  have line : (takeBytes m.start cs).reverse.takeWhile (· != '\n') = indent.reverse := by
    rw [front]
    exact takeWhile_reverse_append h.starts (not_mem_of_indent h.indented)
  have indented : indent.reverse.all (fun c => c == ' ' || c == '\t') = true := by
    refine List.all_eq_true.mpr fun c hc => ?_
    simpa using h.indented c (List.mem_reverse.mp hc)
  have start : m.start - indent.length = utf8Length before := by
    rw [h.start, utf8Length_append, length_indent h.indented, Nat.add_sub_cancel]
  have last : (takeBytes m.stop cs).getLast? = word.getLast? := by
    rw [through]
    exact List.getLast?_append_of_ne_nil _ hw
  rw [loneLine?_eq, line, indented, last, List.length_reverse, start, rest]
  by_cases feed : word.getLast? = some '\n'
  · obtain rfl := h.ends.tail_eq_nil feed
    rw [feed_iff.mpr feed, h.stop, List.append_nil]
    rfl
  · obtain ⟨blank, length⟩ := h.ends.takeWhile_eq feed
    have whole : utf8Length cs = m.stop + utf8Length (tail ++ after) := by
      rw [text, List.append_assoc (before ++ indent ++ word), utf8Length_append, h.stop]
    rw [eq_false_of_ne_true fun ends => feed (feed_iff.mp ends), all_blank_iff.mpr blank, whole, Nat.add_assoc,
      Nat.add_min_add_left, length, h.stop, ← utf8Length_append]
    rfl

/-- What is found to be alone on its lines is. -/
lemma exists_alone {front back : List Char} (ht : cs = front ++ (word ++ back)) (hw : word ≠ [])
    (hm : m = ⟨utf8Length front, utf8Length (front ++ word)⟩) {found : Nat × Nat}
    (h : Gobbling.loneLine? cs m = some found) :
    ∃ before indent tail after, Alone cs m before indent word tail after := by
  obtain ⟨before, hbefore, starts⟩ := exists_startsLine front
  have taken : takeBytes m.start cs = front := by
    rw [hm, ht]
    exact takeBytes_append _ _
  have through : takeBytes m.stop cs = front ++ word := by
    rw [hm, ht, ← List.append_assoc]
    exact takeBytes_append _ _
  have rest : dropBytes m.stop cs = back := by
    rw [hm, ht, ← List.append_assoc]
    exact dropBytes_append _ _
  rw [loneLine?_eq, taken, through, rest, List.getLast?_append_of_ne_nil _ hw] at h
  split at h
  · cases h
  next notIndented =>
  have indented : ∀ c ∈ (front.reverse.takeWhile (· != '\n')).reverse, c ∈ [' ', '\t'] := by
    intro c hc
    simp only [Bool.not_eq_true', Bool.not_eq_false] at notIndented
    have blank := List.all_eq_true.mp notIndented c (List.mem_reverse.mp hc)
    simpa using blank
  have alone {tail after : List Char} (hb : back = tail ++ after) (ends : EndsLine word tail after) :
      Alone cs m before (front.reverse.takeWhile (· != '\n')).reverse word tail after := by
    refine ⟨?_, ?_, ?_, starts, indented, ends⟩
    · rw [ht, hb, ← List.append_assoc before, ← hbefore]
    · rw [hm, ← hbefore]
    · rw [hm, ← hbefore]
  split at h
  · next feed => exact ⟨before, _, [], back, alone rfl (.owned (feed_iff.mp feed))⟩
  · next noFeed =>
    split at h
    · cases h
    · next blank =>
      simp only [Bool.not_eq_true', Bool.not_eq_false] at blank
      obtain ⟨tail, after, split, ends⟩ := exists_endsLine (noFeed ∘ feed_iff.mpr) (all_blank_iff.mp blank)
      exact ⟨before, _, tail, after, alone split ends⟩

end Gobbling

/-! ### The markers of a template -/

lemma Tree.allMarkerSpans_eq (ts : List (Tree Rule)) :
    allMarkerSpans ts = ⟨ts.flatMap (·.markerSpans.lines), ts.flatMap (·.markerSpans.regions)⟩ := by
  induction ts with
  | nil => rfl
  | cons t ts ih =>
    rw [allMarkerSpans, ih]
    rfl

/-- The spans that gobbling goes by are those of the parts that write nothing. -/
lemma Tree.mem_lines_markerSpans (m : Span) : ∀ t : Tree Rule,
    m ∈ t.markerSpans.lines ↔ ∃ u, t.Holds u ∧ u.rule.isSilent = true ∧ u.span = m
  | .node r c d ts => by
    have inside : m ∈ (allMarkerSpans ts).lines ↔ ∃ t ∈ ts, ∃ u, t.Holds u ∧ u.rule.isSilent = true ∧ u.span = m := by
      rw [allMarkerSpans_eq, List.mem_flatMap]
      exact exists_congr fun t => and_congr_right fun (_ : t ∈ ts) => Tree.mem_lines_markerSpans m t
    show m ∈ (if r.isSilent then [⟨c.offset, d.offset⟩] else []) ++ (allMarkerSpans ts).lines ↔ _
    rw [List.mem_append, inside]
    constructor
    · rintro (here | ⟨t, ht, u, hu, silent, span⟩)
      · rw [List.mem_ite_nil_right, List.mem_singleton] at here
        exact ⟨_, .self, here.1, here.2.symm⟩
      · exact ⟨u, .child ht hu, silent, span⟩
    · rintro ⟨u, hu, silent, span⟩
      cases hu with
      | self =>
        refine .inl ?_
        rw [List.mem_ite_nil_right, List.mem_singleton]
        exact ⟨silent, span.symm⟩
      | child ht hu => exact .inr ⟨_, ht, u, hu, silent, span⟩

/-- What writes nothing is not empty. -/
lemma Rule.advance_of_isSilent {r : Rule} (hr : r.isSilent = true) {c d : Cursor} {ts : List (Tree Rule)}
    (hd : Peg.Derives Rule.body (.rule r) c d ts) : c.offset < d.offset := by
  have checked : ∀ r ∈ Rule.all, r.isSilent = true → (Rule.body.openers 3 r).isSome = true := by
    decide +kernel
  obtain ⟨cs, hcs⟩ := Option.isSome_iff_exists.mp (checked r (Rule.mem_all r) hr)
  exact (hd.opened hcs).lt

/-- The parts of what a text was read as lie between its characters. -/
lemma Tree.Holds.spells {cs : List Char} {t u : Tree Rule} (h : t.Holds u) (ht : readTree cs = .ok t) :
    ∃ word, u.span.Spells cs word ∧ (u.rule.isSilent = true → word ≠ []) := by
  obtain ⟨⟨front, hcs, ho⟩, read⟩ := h.derived ht
  obtain ⟨word, hword, hstop⟩ := read.reaches
  have hfront : u.start.offset = utf8Length front := ho.trans (Nat.zero_add _)
  refine ⟨word, ⟨front, u.stop.rest, ?_, ?_⟩, ?_⟩
  · rw [List.append_assoc, ← hword]
    exact hcs
  · rw [utf8Length_append, ← hfront, ← hstop]
    rfl
  · intro silent nothing
    have lt := Rule.advance_of_isSilent silent read
    rw [hstop, nothing] at lt
    exact Nat.lt_irrefl _ lt

namespace Gobbling

variable {cs : List Char} {t : Tree Rule} {offset : Nat}

/-- Whether a byte of a template belongs to the indentation before a marker alone on its lines, or to the blanks and
the end of the line behind it. -/
def Around (cs : List Char) (t : Tree Rule) (offset : Nat) : Prop :=
  ∃ u, t.Holds u ∧ u.rule.isSilent = true ∧ ∃ before indent word tail after,
    Alone cs u.span before indent word tail after ∧
      (utf8Length before ≤ offset ∧ offset < utf8Length (before ++ indent) ∨
        utf8Length (before ++ indent ++ word) ≤ offset ∧
          offset < utf8Length (before ++ indent ++ word ++ tail))

/-- Whether a byte of a text belongs to the blanks that a line starts with. -/
def Leading (cs : List Char) (offset : Nat) : Prop :=
  ∃ front indent back, cs = front ++ indent ++ back ∧ StartsLine front ∧ (∀ c ∈ indent, c ∈ [' ', '\t']) ∧
    utf8Length front ≤ offset ∧ offset < utf8Length (front ++ indent)

lemma isRemoved_iff {spans : List Span} :
    isRemoved spans offset = true ↔ ∃ s ∈ spans, s.start ≤ offset ∧ offset < s.stop := by
  simp only [isRemoved, List.any_eq_true, Bool.and_eq_true, decide_eq_true_eq]

/-- What the policy for lines takes away stands around markers. -/
theorem isRemoved_lines (ht : readTree cs = .ok t) :
    isRemoved (removals cs .lines t.markerSpans) offset = true ↔ Around cs t offset := by
  rw [isRemoved_iff]
  constructor
  · rintro ⟨s, hs, inside⟩
    obtain ⟨m, hm, hs⟩ := List.mem_flatMap.mp hs
    obtain ⟨u, hu, silent, rfl⟩ := (Tree.mem_lines_markerSpans m t).mp hm
    obtain ⟨word, ⟨front, back, hcs, hspan⟩, filled⟩ := hu.spells ht
    rw [List.append_assoc] at hcs
    split at hs
    · next start next found =>
      obtain ⟨before, indent, tail, after, alone⟩ := exists_alone hcs (filled silent) hspan found
      rw [alone.loneLine? (filled silent)] at found
      cases found
      refine ⟨u, hu, silent, before, indent, word, tail, after, alone, ?_⟩
      rcases List.mem_cons.mp hs with rfl | hs
      · refine .inl ?_
        rw [← alone.start]
        exact inside
      · obtain rfl := List.mem_singleton.mp hs
        refine .inr ?_
        rw [← alone.stop]
        exact inside
    · cases hs
  · rintro ⟨u, hu, silent, before, indent, word, tail, after, alone, inside⟩
    have filled : word ≠ [] := by
      rintro rfl
      obtain ⟨word, ⟨front, back, -, hspan⟩, filled⟩ := hu.spells ht
      have start := alone.start
      have stop := alone.stop
      rw [List.append_nil, ← start, hspan, utf8Length_append] at stop
      cases word with
      | nil => exact filled silent rfl
      | cons c word =>
        have := c.utf8Size_pos
        simp only [utf8Length_cons] at stop
        omega
    have found := alone.loneLine? filled
    have mem {s : Span} (hs : s ∈ [⟨utf8Length before, u.span.start⟩,
        ⟨u.span.stop, utf8Length (before ++ indent ++ word ++ tail)⟩]) :
        s ∈ removals cs .lines t.markerSpans := by
      refine List.mem_flatMap.mpr ⟨u.span, (Tree.mem_lines_markerSpans _ t).mpr ⟨u, hu, silent, rfl⟩, ?_⟩
      rw [found]
      exact hs
    rcases inside with inside | inside
    · refine ⟨_, mem (List.mem_cons_self ..), ?_⟩
      rw [alone.start]
      exact inside
    · refine ⟨_, mem (List.mem_cons_of_mem _ (List.mem_singleton_self _)), ?_⟩
      rw [alone.stop]
      exact inside

/-! ### Blanks -/

/-- A character that starts in a stretch of a text is one of its characters. -/
lemma mem_of_charAt {front word back : List Char} {c : Char} (h : CharAt cs offset c)
    (ht : cs = front ++ word ++ back) (lo : utf8Length front ≤ offset) (hi : offset < utf8Length (front ++ word)) :
    c ∈ word := by
  obtain ⟨f, b, hf, rfl⟩ := h
  obtain ⟨x, rfl⟩ := exists_append_of_utf8Length_le
    (show front ++ (word ++ back) = f ++ c :: b by rw [← hf, ht, List.append_assoc]) lo
  have rest : word ++ back = x ++ c :: b := by
    rw [ht, List.append_assoc, List.append_assoc] at hf
    exact List.append_cancel_left hf
  rw [utf8Length_append, utf8Length_append] at hi
  rcases List.append_eq_append_iff.mp rest with ⟨y, rfl, -⟩ | ⟨y, rfl, hy⟩
  · rw [utf8Length_append] at hi
    omega
  · cases y with
    | nil =>
      rw [List.append_nil] at hi
      omega
    | cons d y =>
      obtain ⟨rfl, -⟩ := List.cons.inj hy
      exact List.mem_append_right _ (List.mem_cons_self ..)

lemma EndsLine.blank {word tail after : List Char} (h : EndsLine word tail after) : ∀ c ∈ tail, c ∈ blanks := by
  have of_tail {tail : List Char} (ht : ∀ c ∈ tail, c ∈ [' ', '\t', '\r']) : ∀ c ∈ tail, c ∈ blanks :=
    fun c hc => List.mem_append_left ['\n'] (ht c hc)
  cases h with
  | owned _ => exact nofun
  | fed _ ht => exact List.forall_mem_append.mpr ⟨of_tail ht, List.forall_mem_singleton.mpr (by decide)⟩
  | ended _ ht => exact of_tail ht

lemma blank_of_indent {indent : List Char} (h : ∀ c ∈ indent, c ∈ [' ', '\t']) : ∀ c ∈ indent, c ∈ blanks :=
  fun c hc => List.mem_append_left ['\r', '\n'] (h c hc)

lemma Around.blank (h : Around cs t offset) {c : Char} (hc : CharAt cs offset c) : c ∈ blanks := by
  obtain ⟨u, -, -, before, indent, word, tail, after, alone, ⟨lo, hi⟩ | ⟨lo, hi⟩⟩ := h
  · have text : cs = before ++ indent ++ (word ++ (tail ++ after)) := by
      rw [alone.text]
      simp only [List.append_assoc]
    exact blank_of_indent alone.indented c (mem_of_charAt hc text lo hi)
  · have text : cs = before ++ indent ++ word ++ tail ++ after := by
      rw [alone.text]
      simp only [List.append_assoc]
    exact alone.ends.blank c (mem_of_charAt hc text lo hi)

lemma Leading.blank (h : Leading cs offset) {c : Char} (hc : CharAt cs offset c) : c ∈ blanks := by
  obtain ⟨front, indent, back, ht, -, indented, lo, hi⟩ := h
  exact blank_of_indent indented c (mem_of_charAt hc ht lo hi)

/-! ### Bodies -/

/-- Whether a line of a text starts at an offset, or the text ends there. -/
def LineAt (cs : List Char) (offset : Nat) : Prop :=
  ∃ front back, cs = front ++ back ∧ offset = utf8Length front ∧ (StartsLine front ∨ back = [])

/-- Behind a directive alone on its lines a line starts. -/
lemma lineAt_of_loneLine? {m : Span} {through back : List Char} (ht : cs = through ++ back)
    (hm : m.stop = utf8Length through) {found : Nat × Nat} (h : loneLine? cs m = some found) :
    LineAt cs found.2 := by
  have taken : takeBytes m.stop cs = through := by
    rw [hm, ht]
    exact takeBytes_append _ _
  have rest : dropBytes m.stop cs = back := by
    rw [hm, ht]
    exact dropBytes_append _ _
  rw [loneLine?_eq, taken, rest] at h
  split at h
  · cases h
  split at h
  · next feed =>
    cases h
    exact ⟨through, back, ht, hm, .inl (.inr (feed_iff.mp feed))⟩
  · next noFeed =>
    split at h
    · cases h
    · next blank =>
      cases h
      simp only [Bool.not_eq_true', Bool.not_eq_false] at blank
      have noFeed := noFeed ∘ feed_iff.mpr
      obtain ⟨tail, after, rfl, ends⟩ := exists_endsLine noFeed (all_blank_iff.mp blank)
      obtain ⟨-, length⟩ := ends.takeWhile_eq noFeed
      refine ⟨through ++ tail, after, by rw [ht, List.append_assoc], ?_, ?_⟩
      · rw [ht, utf8Length_append, ← hm, Nat.add_assoc, Nat.add_min_add_left, length, hm, ← utf8Length_append]
      · cases ends with
        | owned feed => exact absurd feed noFeed
        | fed _ _ =>
          refine .inl (.inr ?_)
          rw [← List.append_assoc]
          exact List.getLast?_concat ..
        | ended _ _ => exact .inr rfl

lemma splitLines_eq (cs : List Char) :
    splitLines cs = match cs with
      | [] => [[]]
      | c :: cs =>
        if c == '\n' then [] :: splitLines cs
        else
          match splitLines cs with
          | line :: lines => (c :: line) :: lines
          | [] => [[c]] := by
  cases cs with
  | nil => rfl
  | cons c cs => rfl

/-- All lines but the first start where lines start. -/
lemma lineAt_of_splitLines {front back : List Char} (ht : cs = front ++ back) :
    ∃ line lines, splitLines back = line :: lines ∧
      ∀ l ∈ numberLines (utf8Length front + utf8Length line + 1) lines, LineAt cs l.1 := by
  have feed : ('\n' : Char).utf8Size = 1 := rfl
  induction back generalizing front with
  | nil => exact ⟨[], [], rfl, nofun⟩
  | cons c back ih =>
    have next : cs = (front ++ [c]) ++ back := by
      rw [ht, List.append_assoc]
      rfl
    obtain ⟨line, lines, hlines, starts⟩ := ih next
    rw [splitLines_eq]
    dsimp only
    rw [utf8Length_append, utf8Length_cons, utf8Length_nil] at starts
    by_cases hc : c = '\n'
    · subst hc
      rw [if_pos (beq_self_eq_true _), hlines]
      refine ⟨[], line :: lines, rfl, List.forall_mem_cons.mpr ⟨?_, ?_⟩⟩
      · refine ⟨front ++ ['\n'], back, next, ?_, .inl (.inr (List.getLast?_concat ..))⟩
        rw [utf8Length_append, utf8Length_cons, utf8Length_nil, feed]
      · rw [feed] at starts
        exact starts
    · rw [if_neg (by simpa using hc), hlines]
      refine ⟨c :: line, lines, rfl, ?_⟩
      rw [utf8Length_cons, ← Nat.add_assoc]
      exact starts

/-- The lines of a body start where lines start. -/
lemma lineAt_of_excesses {head last : Span} {through back : List Char} (ht : cs = through ++ back)
    (hm : head.stop = utf8Length through) {start extra : Nat} (h : (start, extra) ∈ excesses cs (head, last)) :
    LineAt cs start := by
  unfold excesses at h
  dsimp only at h
  cases hf : loneLine? cs head with
  | none =>
    rw [hf] at h
    cases h
  | some found =>
    rw [hf] at h
    have first := lineAt_of_loneLine? ht hm hf
    obtain ⟨front, rest, hcs, hnext, -⟩ := first
    obtain ⟨line, lines, hlines, starts⟩ := lineAt_of_splitLines hcs
    have dropped : dropBytes found.2 cs = rest := by
      rw [hnext, hcs]
      exact dropBytes_append _ _
    have all : ∀ l ∈ numberLines found.2 (splitLines (dropBytes found.2 cs)), LineAt cs l.1 := by
      rw [dropped, hlines, hnext]
      refine List.forall_mem_cons.mpr ⟨?_, starts⟩
      rw [← hnext]
      exact lineAt_of_loneLine? ht hm hf
    dsimp only at h
    split at h
    · cases h
    · obtain ⟨l, hl, heq⟩ := List.mem_map.mp h
      cases heq
      exact all l (List.takeWhile_subset _ hl)

/-- Of the blanks that a line starts with, gobbling takes some of the first. -/
lemma leading_of_lineAt {start : Nat} (hs : LineAt cs start) (lo : start ≤ offset)
    (hi : offset < start + indentation cs start) : Leading cs offset := by
  obtain ⟨front, back, ht, hstart, starts⟩ := hs
  have indentation_eq : indentation cs start = (back.takeWhile fun c => c == ' ' || c == '\t').length := by
    show ((dropBytes start cs).takeWhile fun c => c == ' ' || c == '\t').length = _
    rw [hstart, ht, dropBytes_append]
  have indented : ∀ c ∈ back.takeWhile (fun c => c == ' ' || c == '\t'), c ∈ [' ', '\t'] := by
    intro c hc
    have := List.mem_takeWhile_imp hc
    simpa using this
  rcases starts with starts | rfl
  · refine ⟨front, back.takeWhile fun c => c == ' ' || c == '\t', back.dropWhile fun c => c == ' ' || c == '\t',
      ?_, starts, indented, hstart ▸ lo, ?_⟩
    · rw [List.append_assoc, List.takeWhile_append_dropWhile]
      exact ht
    · rw [utf8Length_append, length_indent indented, ← hstart, ← indentation_eq]
      exact hi
  · rw [indentation_eq] at hi
    exact absurd hi (by simp only [List.takeWhile_nil, List.length_nil]; omega)

end Gobbling

/-- The first part of a region is a part of the template. -/
lemma Tree.holds_of_mem_regions {region : Span × Span} : ∀ {t : Tree Rule}, region ∈ t.markerSpans.regions →
    ∃ u, t.Holds u ∧ u.span = region.1
  | .node r c d ts, h => by
    unfold markerSpans at h
    rcases List.mem_append.mp h with here | inside
    · dsimp only at here
      split at here
      · next head last hr hhead hlast =>
        obtain rfl := List.mem_singleton.mp here
        exact ⟨head, .child (List.mem_of_head? hhead) .self, rfl⟩
      · cases here
    · rw [allMarkerSpans_eq] at inside
      obtain ⟨t, ht, h⟩ := List.mem_flatMap.mp inside
      obtain ⟨u, hu, span⟩ := Tree.holds_of_mem_regions h
      exact ⟨u, .child ht hu, span⟩

namespace Gobbling

variable {cs : List Char} {t : Tree Rule} {offset : Nat}

/-- The policy for bodies takes away what the one for lines does. -/
lemma isRemoved_structured_of_around (ht : readTree cs = .ok t) (h : Around cs t offset) :
    isRemoved (removals cs .structured t.markerSpans) offset = true := by
  obtain ⟨s, hs, inside⟩ := isRemoved_iff.mp ((isRemoved_lines ht).mpr h)
  exact isRemoved_iff.mpr ⟨s, List.mem_append_left _ hs, inside⟩

/-- Apart from that, the policy for bodies takes away only blanks that lines start with. -/
lemma around_or_leading_of_isRemoved (ht : readTree cs = .ok t)
    (h : isRemoved (removals cs .structured t.markerSpans) offset = true) :
    Around cs t offset ∨ Leading cs offset := by
  obtain ⟨s, hs, lo, hi⟩ := isRemoved_iff.mp h
  rcases List.mem_append.mp hs with hs | hs
  · exact .inl ((isRemoved_lines ht).mp (isRemoved_iff.mpr ⟨s, hs, lo, hi⟩))
  · refine .inr ?_
    obtain ⟨start, hstart, rfl⟩ := List.mem_map.mp hs
    obtain ⟨⟨_, extra⟩, hextra, rfl⟩ := List.mem_map.mp (List.mem_eraseDups.mp hstart)
    obtain ⟨⟨head, last⟩, hregion, hextra⟩ := List.mem_flatMap.mp hextra
    obtain ⟨u, hu, rfl⟩ := Tree.holds_of_mem_regions hregion
    obtain ⟨word, ⟨front, back, hcs, hspan⟩, -⟩ := hu.spells ht
    have stop : u.span.stop = utf8Length (front ++ word) := by rw [hspan]
    refine leading_of_lineAt (lineAt_of_excesses hcs stop hextra) lo ?_
    exact Nat.lt_of_lt_of_le hi (Nat.add_le_add_left (Nat.min_le_right _ _) _)

end Gobbling

/-! ### Templates -/

/-- What gobbling goes by are the markers of what the text was read as. -/
lemma exists_readTree_of_parseTree {s : Source} {b : Block} {spans : MarkerSpans}
    (h : parseTree s = .ok (b, spans)) : ∃ t, readTree s.text.toList = .ok t ∧ spans = t.markerSpans := by
  obtain ⟨t, read, same, -⟩ := parseTree_eq_ok_iff.mp h
  exact ⟨t, read, same⟩

namespace Template

/-- Compiling finds the same faults under every policy. -/
lemma compile_error_iff {unit : CodeUnit} {s : Source} (p q : GobblingPolicy) {e : TemplateError} :
    compile unit s p = .error e ↔ compile unit s q = .error e := by
  cases parsed : parseTree s with
  | error f =>
    have refused (policy : GobblingPolicy) : compile unit s policy = .error (.single (f.inSource s)) :=
      compile_eq_error (parse_eq_error_iff.mpr ⟨f, parsed, rfl⟩) unit
    rw [refused p, refused q]
  | ok read =>
    obtain ⟨b, spans⟩ := read
    unfold compile
    rw [parse_of_parseTree parsed p, parse_of_parseTree parsed q]
    dsimp only
    rw [Block.faults_gobble, Block.faults_gobble]
    split
    · exact ⟨nofun, nofun⟩
    · exact Iff.rfl
    · exact Iff.rfl

end Template

/-- Gobbling takes nothing out of a template but blanks: under the policy for lines those around the markers that are
alone on their lines, and under the one for bodies, besides, blanks that lines start with. What is left of the
template is as it was, and compiling it finds the same faults under every policy. -/
theorem parse_gobbles (s : Source) :
    (∀ b, parse s .none = .ok b → ∃ t lines structured,
      readTree s.text.toList = .ok t ∧ parse s .lines = .ok lines ∧ parse s .structured = .ok structured ∧
      Block.Thinned (Gobbling.Around s.text.toList t) b lines ∧
      ∃ gone : Nat → Prop, (∀ offset, Gobbling.Around s.text.toList t offset → gone offset) ∧
        (∀ offset, gone offset →
          Gobbling.Around s.text.toList t offset ∨ Gobbling.Leading s.text.toList offset) ∧
        Block.Thinned gone b structured) ∧
    ∀ unit p q e, Template.compile unit s p = .error e ↔ Template.compile unit s q = .error e := by
  refine ⟨fun b hb => ?_, fun unit p q e => Template.compile_error_iff p q⟩
  obtain ⟨spans, parsed⟩ := parseTree_of_parse hb
  obtain ⟨t, read, rfl⟩ := exists_readTree_of_parseTree parsed
  have filled := fills_of_parseTree parsed
  have lines : (Gobbling.isRemoved (Gobbling.removals s.text.toList .lines t.markerSpans) · = true) =
      Gobbling.Around s.text.toList t :=
    funext fun _ => propext (Gobbling.isRemoved_lines read)
  have linesBlank : Gobbling.OnlyBlanks s.text.toList (Gobbling.removals s.text.toList .lines t.markerSpans) :=
    fun hc gone => ((Gobbling.isRemoved_lines read).mp gone).blank hc
  have structuredBlank :
      Gobbling.OnlyBlanks s.text.toList (Gobbling.removals s.text.toList .structured t.markerSpans) :=
    fun hc gone => (Gobbling.around_or_leading_of_isRemoved read gone).elim (·.blank hc) (·.blank hc)
  refine ⟨t, _, _, read, parse_of_parseTree parsed .lines, parse_of_parseTree parsed .structured, ?_,
    _, fun _ => Gobbling.isRemoved_structured_of_around read,
    fun _ => Gobbling.around_or_leading_of_isRemoved read, filled.thinned_gobble structuredBlank⟩
  rw [← lines]
  exact filled.thinned_gobble linesBlank

/-- A loop over two lines, its body indented, and a directive in the midst of a line. -/
theorem parse_gobbles_loop : ∃ b lines,
    parse ⟨"t", "a\n #foreach($x in $y)\n  $x #set($z = 1)\n #end \r\nb"⟩ .none = .ok b ∧
      parse ⟨"t", "a\n #foreach($x in $y)\n  $x #set($z = 1)\n #end \r\nb"⟩ .lines = .ok lines ∧
      ∃ t, Block.Thinned
        (Gobbling.Around "a\n #foreach($x in $y)\n  $x #set($z = 1)\n #end \r\nb".toList t) b lines := by
  have parses : (match parse ⟨"t", "a\n #foreach($x in $y)\n  $x #set($z = 1)\n #end \r\nb"⟩ .none with
      | .ok _ => true
      | .error _ => false) = true := by
    decide +kernel
  split at parses
  · next b hb =>
    obtain ⟨t, lines, _, -, parsed, -, thinned, -⟩ := (parse_gobbles _).1 b hb
    exact ⟨b, lines, hb, parsed, t, thinned⟩
  · cases parses

/-- A string keeps what is in it: under the policy for lines, the text behind a directive in a string starts with the
end of the directive's line, though the directive has the line to itself. -/
theorem kept_in_string :
    Gobbling.Alone "x#set($x = \"a\n#set($y = 1)\nb$y\")$x".toList ⟨14, 26⟩ "x#set($x = \"a\n".toList []
      "#set($y = 1)".toList ['\n'] "b$y\")$x".toList ∧
    (match parse ⟨"t", "x#set($x = \"a\n#set($y = 1)\nb$y\")$x"⟩ .lines with
      | .ok [_, ⟨.assign _ ⟨.interpolated [_, ⟨.assign _ _, set⟩, ⟨.text s, behind⟩, _], _⟩, _⟩, _] =>
        set.span == ⟨14, 26⟩ && behind.span.start == 26 && s == "\nb"
      | _ => false) = true := by
  have fed : Gobbling.EndsLine "#set($y = 1)".toList ([] ++ ['\n']) "b$y\")$x".toList :=
    .fed (by decide +kernel) nofun
  exact ⟨⟨by decide +kernel, by decide +kernel, by decide +kernel, .inr (by decide +kernel), nofun, fed⟩,
    by decide +kernel⟩

end Stencil
