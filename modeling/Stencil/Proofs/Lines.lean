import Stencil.Proofs.Gobbling

/-!
# The lines of a text

A text is cut into lines at its line feeds. Main statements: `Gobbling.IsLine.unique`, a place lies in one line only,
and `Gobbling.mem_numberLines`, the lines that gobbling goes by are those of the text.
-/

namespace Stencil.Gobbling

/-- A line of a text, without the line feed that ends it, and where it starts. -/
def IsLine (cs : List Char) (start : Nat) (line : List Char) : Prop :=
  ∃ front back, cs = front ++ (line ++ back) ∧ start = utf8Length front ∧ StartsLine front ∧ '\n' ∉ line ∧
    ∀ c ∈ back.head?, c = '\n'

/-- The number of blanks at the start of a line. -/
def indented (line : List Char) : Nat := (line.takeWhile fun c => c == ' ' || c == '\t').length

/-- Whether there is nothing but white space on a line. -/
def Blank (line : List Char) : Prop := ∀ c ∈ line, Text.isBlank c = true

variable {cs front back line : List Char} {start : Nat}

/-! ### Where lines start and end -/

lemma utf8Length_feed : utf8Length ['\n'] = 1 := rfl

/-- What stands before the start of a line ends with a line feed. -/
lemma feed_mem_of_startsLine {x : List Char} (h : StartsLine (front ++ x)) (hx : x ≠ []) : '\n' ∈ x := by
  rcases h with h | h
  · exact absurd (List.append_eq_nil_iff.mp h).2 hx
  · rw [List.getLast?_append_of_ne_nil _ hx] at h
    exact List.mem_of_getLast? h

/-- In a line, no other line starts. -/
lemma IsLine.start_of_startsLine (h : IsLine cs start line) (ht : cs = front ++ back) (hs : StartsLine front)
    (lo : start ≤ utf8Length front) (hi : utf8Length front ≤ start + utf8Length line) : utf8Length front = start := by
  obtain ⟨front', back', hcs, rfl, -, within, -⟩ := h
  obtain ⟨x, rfl⟩ := exists_append_of_utf8Length_le (hcs.symm.trans ht) lo
  rw [utf8Length_append] at hi
  have rest : line ++ back' = x ++ back := by
    rw [hcs, List.append_assoc] at ht
    exact List.append_cancel_left ht
  obtain ⟨y, rfl⟩ := exists_append_of_utf8Length_le rest.symm (Nat.le_of_add_le_add_left hi)
  by_cases hx : x = []
  · rw [hx, List.append_nil]
  · exact absurd (List.mem_append_left y (feed_mem_of_startsLine hs hx)) within

/-- What follows in a text from a place is known from the place. -/
lemma back_eq {front' back' : List Char} (h : front ++ back = front' ++ back')
    (length : utf8Length front = utf8Length front') : back = back' := by
  have dropped := dropBytes_append front back
  rw [h, length, dropBytes_append] at dropped
  exact dropped.symm

/-- A line is known from where it starts. -/
lemma IsLine.line_unique {line' : List Char} (h : IsLine cs start line) (k : IsLine cs start line') : line = line' := by
  obtain ⟨front, back, hcs, hstart, -, within, ends⟩ := h
  obtain ⟨front', back', hcs', hstart', -, within', ends'⟩ := k
  have cut {line back : List Char} (within : '\n' ∉ line) (ends : ∀ c ∈ back.head?, c = '\n') :
      (line ++ back).takeWhile (· != '\n') = line := by
    cases back with
    | nil =>
      rw [List.append_nil]
      exact List.takeWhile_eq_self_iff.mpr fun c hc => bne_iff_ne.mpr fun feed => within (feed ▸ hc)
    | cons c back =>
      obtain rfl := ends c rfl
      exact takeWhile_append_feed within back
  have same : line ++ back = line' ++ back' := back_eq (hcs.symm.trans hcs') (hstart.symm.trans hstart')
  rw [← cut within ends, same, cut within' ends']

/-- A place lies in one line only. -/
theorem IsLine.unique {start' offset : Nat} {line' : List Char} (h : IsLine cs start line) (k : IsLine cs start' line')
    (lo : start ≤ offset) (hi : offset ≤ start + utf8Length line) (lo' : start' ≤ offset)
    (hi' : offset ≤ start' + utf8Length line') : start = start' := by
  rcases Nat.le_total start start' with le | le
  · obtain ⟨front, back, hcs, rfl, starts, -⟩ := k
    exact (h.start_of_startsLine hcs starts le (Nat.le_trans lo' hi)).symm
  · obtain ⟨front, back, hcs, rfl, starts, -⟩ := h
    exact k.start_of_startsLine hcs starts le (Nat.le_trans lo hi')

/-- The line of a place starts behind the last line feed in front of it. -/
lemma startOfLine_append (before : List Char) (hs : StartsLine before) {lead : List Char} (within : '\n' ∉ lead)
    (back : List Char) : startOfLine (before ++ lead ++ back) (utf8Length (before ++ lead)) = utf8Length before := by
  show utf8Length (before ++ lead) - utf8Length ((takeBytes (utf8Length (before ++ lead))
    (before ++ lead ++ back)).reverse.takeWhile (· != '\n')) = _
  rw [takeBytes_append, takeWhile_reverse_append hs within, utf8Length_append]
  have length : utf8Length lead.reverse = utf8Length lead := by
    induction lead with
    | nil => rfl
    | cons c lead ih =>
      rw [List.reverse_cons, utf8Length_append, ih (fun h => within (List.mem_cons_of_mem _ h)), utf8Length_cons,
        utf8Length_cons, utf8Length_nil]
      omega
  rw [length, Nat.add_sub_cancel]

/-! ### What lines start with -/

lemma indented_le (line : List Char) : indented line ≤ utf8Length line := by
  have blanks : ∀ c ∈ line.takeWhile (fun c => c == ' ' || c == '\t'), c ∈ [' ', '\t'] := by
    intro c hc
    simpa using List.mem_takeWhile_imp hc
  calc indented line = utf8Length (line.takeWhile fun c => c == ' ' || c == '\t') := (length_indent blanks).symm
    _ ≤ utf8Length (line.takeWhile (fun c => c == ' ' || c == '\t') ++
        line.dropWhile fun c => c == ' ' || c == '\t') := by
      rw [utf8Length_append]
      exact Nat.le_add_right _ _
    _ = utf8Length line := by rw [List.takeWhile_append_dropWhile]

/-- What follows on a line is not counted where it starts with something else than a blank. -/
lemma indented_append (h : ∀ c ∈ back.head?, c ∉ [' ', '\t']) : indented (line ++ back) = indented line := by
  have stops : back.takeWhile (fun c => c == ' ' || c == '\t') = [] := by
    cases back with
    | nil => rfl
    | cons c back => exact List.takeWhile_cons_of_neg (by simpa using h c rfl)
  unfold indented
  rw [List.takeWhile_append]
  split
  · next whole => rw [stops, List.append_nil, whole]
  · rfl

lemma IsLine.indentation_eq (h : IsLine cs start line) : indentation cs start = indented line := by
  obtain ⟨front, back, rfl, rfl, -, -, ends⟩ := h
  show indented (dropBytes (utf8Length front) (front ++ (line ++ back))) = indented line
  rw [dropBytes_append]
  refine indented_append fun c hc => ?_
  rw [ends c hc]
  decide

lemma blank_iff : Blank line ↔ (Text.trim line).isEmpty = true := by
  refine ⟨fun h => by rw [Text.trim_eq_nil h]; rfl, fun h => ?_⟩
  rw [List.isEmpty_iff, Text.trim, List.reverse_eq_nil_iff, List.dropWhile_eq_nil_iff] at h
  intro c hc
  rw [← List.takeWhile_append_dropWhile (p := Text.isBlank) (l := line)] at hc
  rcases List.mem_append.mp hc with hc | hc
  · exact List.mem_takeWhile_imp hc
  · exact h c (List.mem_reverse.mpr hc)

/-! ### The lines that gobbling goes by -/

/-- A text is one line, or a line that a line feed ends and more text. -/
lemma exists_line (cs : List Char) : ∃ line, '\n' ∉ line ∧ (cs = line ∨ ∃ rest, cs = line ++ '\n' :: rest) := by
  induction cs with
  | nil => exact ⟨[], nofun, .inl rfl⟩
  | cons c cs ih =>
    by_cases hc : c = '\n'
    · exact ⟨[], nofun, .inr ⟨cs, by rw [hc]; rfl⟩⟩
    · obtain ⟨line, within, parts⟩ := ih
      have apart : '\n' ∉ c :: line := fun feed => (List.mem_cons.mp feed).elim (fun h => hc h.symm) within
      rcases parts with rfl | ⟨rest, rfl⟩
      · exact ⟨c :: cs, apart, .inl rfl⟩
      · exact ⟨c :: line, apart, .inr ⟨rest, rfl⟩⟩

lemma splitLines_last (h : '\n' ∉ line) : splitLines line = [line] := by
  induction line with
  | nil => rfl
  | cons c line ih =>
    have here : c ≠ '\n' := fun feed => h (feed ▸ List.mem_cons_self ..)
    rw [splitLines_eq]
    dsimp only
    rw [if_neg (by simpa using here), ih fun feed => h (List.mem_cons_of_mem _ feed)]

lemma splitLines_feed (h : '\n' ∉ line) (rest : List Char) :
    splitLines (line ++ '\n' :: rest) = line :: splitLines rest := by
  induction line with
  | nil =>
    rw [List.nil_append, splitLines_eq]
    rfl
  | cons c line ih =>
    have here : c ≠ '\n' := fun feed => h (feed ▸ List.mem_cons_self ..)
    rw [List.cons_append, splitLines_eq]
    dsimp only
    rw [if_neg (by simpa using here), ih fun feed => h (List.mem_cons_of_mem _ feed)]

lemma le_of_mem_numberLines {offset : Nat} {lines : List (List Char)} {l : Nat × List Char}
    (h : l ∈ numberLines offset lines) : offset ≤ l.1 := by
  induction lines generalizing offset with
  | nil => cases h
  | cons line lines ih =>
    rcases List.mem_cons.mp h with rfl | h
    · exact Nat.le_refl _
    · have := ih h
      omega

/-- Lines start one after the other. -/
lemma pairwise_numberLines (offset : Nat) (lines : List (List Char)) :
    (numberLines offset lines).Pairwise (·.1 < ·.1) := by
  induction lines generalizing offset with
  | nil => exact .nil
  | cons line lines ih =>
    refine .cons (fun l hl => ?_) (ih _)
    have := le_of_mem_numberLines hl
    dsimp only
    omega

/-- Where a line lies there is no other. -/
lemma IsLine.eq_iff {first : Nat} {line₀ : List Char} (h : IsLine cs first line₀)
    (hi : start ≤ first + utf8Length line₀) :
    (start, line) = (first, line₀) ↔ IsLine cs start line ∧ first ≤ start := by
  constructor
  · rintro ⟨⟩
    exact ⟨h, Nat.le_refl _⟩
  · rintro ⟨isLine, lo⟩
    obtain rfl := isLine.unique h (Nat.le_refl _) (Nat.le_add_right _ _) lo hi
    rw [isLine.line_unique h]

/-- The lines of the rest of a text, numbered from its first, are those of the text that start there or later. -/
theorem mem_numberLines (ht : cs = front ++ back) (hs : StartsLine front) :
    (start, line) ∈ numberLines (utf8Length front) (splitLines back) ↔
      IsLine cs start line ∧ utf8Length front ≤ start := by
  -- The induction is on what is left behind the first line feed.
  induction hn : back.length using Nat.strong_induction_on generalizing front back with
  | _ n ih =>
    obtain ⟨line₀, within, rfl | ⟨rest, rfl⟩⟩ := exists_line back
    · have first : IsLine cs (utf8Length front) back :=
        ⟨front, [], by rwa [List.append_nil], rfl, hs, within, nofun⟩
      rw [splitLines_last within]
      show (start, line) ∈ [(utf8Length front, back)] ↔ _
      rw [List.mem_singleton]
      by_cases hi : start ≤ utf8Length front + utf8Length back
      · exact first.eq_iff hi
      · -- No line starts behind the end of the text.
        refine ⟨by rintro ⟨⟩; omega, fun h => absurd ?_ hi⟩
        obtain ⟨⟨front', back', hcs', rfl, -⟩, -⟩ := h
        have length := congrArg utf8Length (hcs'.symm.trans ht)
        simp only [utf8Length_append] at length
        omega
    · have first : IsLine cs (utf8Length front) line₀ :=
        ⟨front, '\n' :: rest, ht, rfl, hs, within, fun c hc => (Option.some.inj hc).symm⟩
      have next : cs = (front ++ line₀ ++ ['\n']) ++ rest := by
        rw [ht]
        simp only [List.append_assoc, List.cons_append, List.nil_append]
      have shorter : rest.length < n := by
        rw [← hn, List.length_append, List.length_cons]
        omega
      have later := ih rest.length shorter next (.inr (List.getLast?_concat ..)) rfl
      rw [utf8Length_append, utf8Length_append, utf8Length_feed] at later
      rw [splitLines_feed within]
      show (start, line) ∈ (utf8Length front, line₀) :: _ ↔ _
      rw [List.mem_cons, later]
      by_cases hi : start ≤ utf8Length front + utf8Length line₀
      · rw [first.eq_iff hi]
        exact or_iff_left fun h => absurd h.2 (by omega)
      · constructor
        · rintro (same | ⟨isLine, lo⟩)
          · cases same
            omega
          · exact ⟨isLine, by omega⟩
        · rintro ⟨isLine, -⟩
          exact .inr ⟨isLine, by omega⟩

end Stencil.Gobbling
