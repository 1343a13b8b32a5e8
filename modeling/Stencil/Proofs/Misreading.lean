import Stencil.Proofs.Places
import Stencil.Proofs.Prose

/-!
# Where syntax errors point

A source that does not parse is refused at a place in a text that is read for it: in its own text or in the content
of a string in it, however deep. The failure is a syntax error that points there and shows what stands there. Main
statements: `refused_of_readBlock`, some text is refused when there is no block, `Site.Refuses.points`, what the
failure says of that text, and `parse_refused`.
-/

namespace Stencil

/-! ### Texts that are read -/

/-- The texts that are read for a source, each with the places of the strings that it is in, the innermost first: the
text of the source itself, and in such a text the content of every string in double quotes that the grammar finds. -/
inductive Source.Reads (s : Source) : List Span → Site → List Char → Prop
  | whole : Reads s [] (.ofSource s) s.text.toList
  | content {literals : List Span} {site : Site} {text word content : List Char} {origins : List Nat} {t : Tree Rule}
      {c d : Cursor} {us : List (Tree Rule)} : Reads s literals site text → readTree text = .ok t →
    t.Holds (.node .dqString c d us) → c.upTo d = '"' :: word ++ ['"'] →
    Quoted.unescape (c.offset + 1) word = (content, origins) →
    Reads s ((site.position c d).span :: literals) (site.within origins) content

/-- How a text is refused: the grammar does not read it to its end, or it has a part that means nothing. -/
inductive Site.Refuses (site : Site) (text : List Char) : Failure → Prop
  | grammar {refusal : Refusal} : readTree text = .error refusal → Refuses site text (site.refused text refusal)
  | part {t : Tree Rule} {r : Rule} {c d : Cursor} {us : List (Tree Rule)} (fault : ParseFault) :
    readTree text = .ok t → t.Holds (.node r c d us) → r ∈ [.unterminated, .number] →
    Refuses site text (site.fault c d fault)

/-! ### The place of a text -/

section

variable {s : Source} {literals : List Span} {site : Site} {text : List Char}

lemma Source.Reads.source (h : s.Reads literals site text) : site.source = s := by
  induction h with
  | whole => rfl
  | content _ _ _ _ _ ih => exact ih

/-- Outside of strings the source's own text is read. -/
lemma Source.Reads.eq_of_nil (h : s.Reads [] site text) : site = .ofSource s ∧ text = s.text.toList := by
  cases h
  exact ⟨rfl, rfl⟩

/-- Where a string in double quotes stands in a text that is read. -/
lemma Tree.Holds.quoted {t : Tree Rule} {c d : Cursor} {us : List (Tree Rule)} {word : List Char}
    (h : t.Holds (.node .dqString c d us)) (ht : readTree text = .ok t) (hw : c.upTo d = '"' :: word ++ ['"']) :
    ∃ front back, text = (front ++ ['"']) ++ word ++ ('"' :: back) ∧ c.offset = utf8Length front ∧
      d.offset = utf8Length (front ++ ['"'] ++ word) + 1 := by
  obtain ⟨⟨front, hf⟩, derived⟩ := h.derived ht
  obtain ⟨w, reach⟩ := derived.reaches
  obtain rfl : w = _ := reach.upTo_eq.symm.trans hw
  have whole : text = front ++ c.rest := hf.1
  have start : c.offset = utf8Length front := hf.2.trans (Nat.zero_add _)
  have stop : d.offset = c.offset + utf8Length ('"' :: word ++ ['"']) := reach.2
  refine ⟨front, d.rest, ?_, start, ?_⟩
  · rw [whole, show c.rest = '"' :: word ++ ['"'] ++ d.rest from reach.1]
    simp
  · have quote : ('"' : Char).utf8Size = 1 := rfl
    simp only [stop, start, utf8Length_append, utf8Length_cons, utf8Length_nil, List.cons_append, quote]
    omega

/-- A text that is read for a source comes from it character by character. -/
lemma Source.Reads.mapped (h : s.Reads literals site text) : ∃ quoted, site.Mapped quoted text := by
  induction h with
  | whole => exact ⟨false, Site.mapped_ofSource s⟩
  | content _ ht holds hword hu ih =>
    obtain ⟨quoted, mapped⟩ := ih
    obtain ⟨front, back, parts, start, -⟩ := holds.quoted ht hword
    rw [start] at hu
    exact ⟨true, mapped.within parts (by rwa [utf8Length_append])⟩

/-- A text that is read for a source lies inside the strings that it is in. -/
theorem Source.Reads.inside (h : s.Reads literals site text) :
    ∀ l ∈ literals, Span.Inside ⟨site.absolute 0, site.absolute (utf8Length text)⟩ l := by
  induction h with
  | whole => exact nofun
  | @content literals site text word content origins t c d us reads ht holds hword hu ih =>
    obtain ⟨quoted, mapped⟩ := reads.mapped
    obtain ⟨front, back, parts, start, stop⟩ := holds.quoted ht hword
    have quote : utf8Length (front ++ ['"']) = utf8Length front + 1 := utf8Length_append _ _
    have length : d.offset ≤ utf8Length text := by
      rw [stop, parts, utf8Length_append (front ++ ['"'] ++ word)]
      exact Nat.add_le_add_left (Nat.le_add_right 1 _) _
    have order : c.offset ≤ d.offset := by
      rw [start, stop, utf8Length_append, quote]
      omega
    rw [start, ← quote] at hu
    obtain ⟨-, first, last⟩ := mapped.regular.within parts hu
    have literal : Span.Inside ⟨site.absolute c.offset, site.absolute d.offset⟩
        ⟨site.absolute 0, site.absolute (utf8Length text)⟩ :=
      ⟨mapped.regular.absolute_le (Nat.zero_le _) (order.trans length),
        mapped.regular.absolute_le length (Nat.le_refl _)⟩
    have between : Span.Inside ⟨(site.within origins).absolute 0, (site.within origins).absolute (utf8Length content)⟩
        ⟨site.absolute c.offset, site.absolute d.offset⟩ := by
      rw [first, last]
      constructor
      · exact mapped.regular.absolute_le (by omega) (by rw [utf8Length_append] at stop; omega)
      · exact mapped.regular.absolute_le (by omega) length
    exact List.forall_mem_cons.mpr ⟨between, fun l hl => (between.trans literal).trans (ih l hl)⟩

end

/-! ### Refusals -/

/-- Where a tree has no meaning, one of its parts has none though the parts of that one do. -/
lemma Tree.exists_of_eval_error {ρ ε α : Type} {meaning : ρ → Cursor → Cursor → List α → Except ε α} {f : ε} :
    ∀ {t : Tree ρ}, t.eval meaning = .error f → ∃ r c d us ps, t.Holds (.node r c d us) ∧
      evalAll meaning us = .ok ps ∧ meaning r c d ps = .error f
  | .node r c d ts, h => by
    rw [Tree.eval] at h
    cases hps : evalAll meaning ts with
    | ok ps =>
      rw [hps] at h
      exact ⟨r, c, d, ts, ps, .self, hps, h⟩
    | error f' =>
      rw [hps] at h
      cases h
      obtain ⟨t, ht, failed⟩ := exists_of_mapM_eq_error ((evalAll_eq_mapM meaning ts).symm.trans hps)
      obtain ⟨r', c', d', us, ps, holds, hus, hr⟩ := exists_of_eval_error failed
      exact ⟨r', c', d', us, ps, .child ht holds, hus, hr⟩

/-- A string in double quotes has no meaning only if its content is no block. -/
lemma Rule.error_of_quoted {site : Site} {inner : Site → List Char → Except Failure Block} {c d : Cursor}
    {word content : List Char} {start : Nat} {origins : List Nat} {f : Failure}
    (hu : Quoted.unescape start word = (content, origins))
    (h : dqString.meaning site inner c d [.word word start] = .error f) :
    inner (site.within origins) content = .error f := by
  simp only [meaning, ExprKind.ofQuoted, hu] at h
  split at h
  · cases h
  · cases hb : inner (site.within origins) content with
    | error f' =>
      rw [hb] at h
      cases h
      rfl
    | ok b =>
      rw [hb] at h
      cases ht : b.mapM Node.text? with
      | none => simp [ht, bind, Except.bind, pure, Except.pure] at h
      | some texts => simp [ht, bind, Except.bind, pure, Except.pure] at h

/-- A failure that arises in one of the texts that are read for a source. -/
def Source.Refuses (s : Source) (f : Failure) : Prop :=
  ∃ literals site text, s.Reads literals site text ∧ site.Refuses text f

section

variable {s : Source} {literals : List Span} {site : Site} {text : List Char} {f : Failure}

/-- Where a text has no meaning, it is a part of it that means nothing, or the content of a string. -/
lemma refused_of_eval {inner : Site → List Char → Except Failure Block} (reads : s.Reads literals site text)
    {t : Tree Rule} (ht : readTree text = .ok t)
    (horderly : ∀ site text, Meets (fun _ => True) Block.Orderly (inner site text))
    (hinner : ∀ {literals site text'}, s.Reads literals site text' → text'.length < text.length →
      inner site text' = .error f → s.Refuses f)
    (h : t.eval (Rule.meaning site inner) = .error f) : s.Refuses f := by
  obtain ⟨r, c, d, us, ps, holds, hps, failed⟩ := Tree.exists_of_eval_error h
  obtain ⟨⟨front, hf⟩, derived⟩ := holds.derived ht
  have hmade : Rule.MakesParts site inner := Rule.meets_match horderly
  have m := hmade.match_ derived (hf.suffix List.suffix_rfl) hps
  by_cases hr : r ∈ [Rule.unterminated, .number, .dqString]
  · simp only [List.mem_cons, List.not_mem_nil, or_false] at hr
    rcases hr with rfl | rfl | rfl
    · cases failed
      exact ⟨literals, site, text, reads, .part _ ht holds (by decide)⟩
    · simp only [Rule.meaning] at failed
      split at failed
      · cases failed
      · cases failed
        exact ⟨literals, site, text, reads, .part _ ht holds (by decide)⟩
    · obtain ⟨w, rfl, reach⟩ := Rule.exists_quoted m
      rcases hu : Quoted.unescape (c.offset + 1) w with ⟨content, origins⟩
      have shorter : content.length < text.length := by
        have unescaped := Quoted.length_unescape_le (c.offset + 1) w
        obtain ⟨front, back, parts, -⟩ := holds.quoted ht reach.upTo_eq
        have whole := congrArg List.length parts
        rw [hu] at unescaped
        simp only [List.length_append, List.length_cons] at whole unescaped
        omega
      refine hinner (.content reads ht holds reach.upTo_eq hu) shorter ?_
      exact Rule.error_of_quoted hu failed
  · have made : Meets (fun _ => False) r.Makes (r.meaning site inner c d ps) :=
      Rule.meets_meaning hr fun g hg => Rule.rows_of_body hg ▸ m.filled g hg
    rw [failed] at made
    exact made.elim

/-- Where there is no block, some text is refused. -/
theorem refused_of_readBlock {depth : Nat} (reads : s.Reads literals site text) (hd : text.length < depth)
    (h : readBlock depth site text = .error f) : s.Refuses f := by
  induction depth generalizing literals site text f with
  | zero => cases hd
  | succ depth ih =>
    have outcome : Meets s.Refuses Block.Orderly (readBlock (depth + 1) site text) := by
      refine meets_readBlock_succ (fun refusal ht => ⟨literals, site, text, reads, .grammar ht⟩) fun t ht => ?_
      have orderly := Rule.meets_template site (readBlock depth) ht (meets_readBlock_orderly depth)
      cases he : t.eval (Rule.meaning site (readBlock depth)) with
      | error f' =>
        refine refused_of_eval reads ht (meets_readBlock_orderly depth) (fun reads' shorter failed => ?_) he
        exact ih reads' (by omega) failed
      | ok part =>
        rw [he] at orderly
        exact orderly
    rw [h] at outcome
    exact outcome

end

/-! ### What refusals say -/

/-- What is not closed, or is a number, starts with no letter. -/
lemma Rule.exists_head {r : Rule} (hr : r ∈ [unterminated, number]) {c d : Cursor} {ts : List (Tree Rule)}
    (hd : Peg.Derives body (.rule r) c d ts) : ∃ x xs, c.upTo d = x :: xs ∧ x ≠ 'e' := by
  simp only [List.mem_cons, List.not_mem_nil, or_false] at hr
  rcases hr with rfl | rfl
  · obtain ⟨p, hp, hb⟩ : ∃ p : Pattern, p.words = some ["#*".toList, "#[[".toList] ∧ body unterminated = .word p :=
      ⟨_, rfl, rfl⟩
    obtain ⟨hrun, -⟩ := hd.of_word hb
    obtain ⟨w, hw, reach⟩ := Pattern.mem_words hp hrun
    rw [reach.upTo_eq]
    simp only [List.mem_cons, List.not_mem_nil, or_false] at hw
    rcases hw with rfl | rfl
    · exact ⟨'#', _, rfl, by decide⟩
    · exact ⟨'#', _, rfl, by decide⟩
  · obtain ⟨p, hb⟩ : ∃ p, body number = .word p := ⟨_, rfl⟩
    obtain ⟨hrun, -⟩ := hd.of_word hb
    obtain ⟨sign, ds, fraction, exponent, hchars, hs, digits, -, -⟩ := exists_numeral hb hrun
    obtain ⟨x, xs, rfl, -, -, digit⟩ := digits.head
    rw [hchars]
    simp only [List.mem_cons, List.not_mem_nil, or_false] at hs
    rcases hs with rfl | rfl
    · refine ⟨x, _, rfl, ?_⟩
      rintro rfl
      cases digit
    · exact ⟨'-', _, rfl, by decide⟩

/-- A failure for a text that is refused points to a place in it. -/
theorem Site.Refuses.points {site : Site} {quoted : Bool} {text : List Char} {f : Failure}
    (h : site.Refuses text f) (hm : site.Mapped quoted text) :
    ∃ front back token p, text = front ++ back ∧ site.Points front back f token p := by
  cases h with
  | grammar ht => exact Site.points_refused hm ht
  | @part t r c d us fault ht holds hr =>
    obtain ⟨⟨front, hf⟩, derived⟩ := holds.derived ht
    obtain ⟨w, hw⟩ := derived.reaches
    obtain ⟨x, xs, hx, other⟩ := Rule.exists_head hr derived
    obtain rfl : w = x :: xs := hw.upTo_eq.symm.trans hx
    have rest : c.rest = (x :: xs) ++ d.rest := hw.1
    have exact_ : (site.position c d).Exact site.source := hm.exact_position ⟨front, hf⟩ hw
    have start : c.offset = utf8Length front := hf.2.trans (Nat.zero_add _)
    have stop : d.offset ≤ utf8Length (front ++ c.rest) := by
      have after : d.offset = c.offset + utf8Length (x :: xs) := hw.2
      rw [after, start, rest, utf8Length_append, utf8Length_append (x :: xs)]
      omega
    have whole : text = front ++ c.rest := hf.1
    refine ⟨front, c.rest, String.ofList ((x :: xs).take 16), site.position c d, whole, ?_⟩
    refine ⟨⟨fault, ?_⟩, Failure.raised_at exact_ _, rfl, ?_, ?_, ?_, fun _ => ⟨?_, ?_, ?_⟩⟩
    · rw [← hx]
      rfl
    · rw [Site.span_position, start]
    · rw [Site.span_position]
      exact hm.regular.absolute_le stop (by rw [whole])
    · refine ⟨fun heq => ?_, fun hnil => ?_⟩
      · have chars := congrArg String.toList heq
        rw [String.toList_ofList] at chars
        exact absurd (List.cons.inj chars).1 other
      · rw [rest] at hnil
        cases hnil
    · rw [String.toList_ofList, rest]
      exact (List.take_prefix 16 _).trans (List.prefix_append _ _)
    · rw [String.length_ofList]
      exact Nat.succ_pos _
    · rw [String.length_ofList]
      exact List.length_take_le 16 _

/-! ### Sources that do not parse -/

/-- What is known of the failure for a source that does not parse. It arises in a text that is read for the source,
its own or the content of a string, however deep, before `back`; it points there, between characters of the source
and inside of all strings that the text is in. Outside of strings the text is the source's. -/
structure Source.Misread (s : Source) (f : Failure) (literals : List Span) (site : Site) (front back : List Char)
    (token : String) (p : Position) : Prop where
  reads : s.Reads literals site (front ++ back)
  refuses : site.Refuses (front ++ back) f
  points : site.Points front back f token p
  exact : p.Exact s
  inside : ∀ l ∈ literals, p.span.Inside l
  plain : literals = [] → s.text.toList = front ++ back ∧ p.span.start = utf8Length front

lemma Source.Refuses.misread {s : Source} {f : Failure} (h : s.Refuses f) :
    ∃ literals site front back token p, s.Misread f literals site front back token p := by
  obtain ⟨literals, site, text, reads, refuses⟩ := h
  obtain ⟨quoted, mapped⟩ := reads.mapped
  obtain ⟨front, back, token, p, rfl, points⟩ := refuses.points mapped
  have exact_ : p.Exact s := reads.source ▸ points.raised.exact p points.position
  have within : utf8Length front ≤ utf8Length (front ++ back) := by
    rw [utf8Length_append]
    exact Nat.le_add_right _ _
  have inside : p.span.Inside ⟨site.absolute 0, site.absolute (utf8Length (front ++ back))⟩ := by
    refine ⟨?_, points.stop⟩
    rw [points.start]
    exact mapped.regular.absolute_le (Nat.zero_le _) within
  refine ⟨literals, site, front, back, token, p, reads, refuses, points, exact_,
    fun l hl => inside.trans (reads.inside l hl), ?_⟩
  rintro rfl
  obtain ⟨rfl, text⟩ := reads.eq_of_nil
  exact ⟨text.symm, points.start⟩

/-- A source that does not parse is refused with one syntax error, which carries the source and points to the place
where a text that is read for the source is refused: with the line and the column of the place, inside of the strings
that it is in, and with the token `end of input` if nothing of the text is left there, and else with what the text goes
on with, one character to sixteen. -/
theorem parse_refused {s : Source} {policy : GobblingPolicy} {e : TemplateError} (h : parse s policy = .error e) :
    ∃ f literals site front back token p, e = .single (f.inSource s) ∧
      s.Misread f literals site front back token p := by
  have failed : ∃ f, parseTree s = .error f ∧ e = .single (f.inSource s) := by
    unfold parse at h
    cases ht : parseTree s with
    | ok found =>
      rw [ht] at h
      cases h
    | error f =>
      rw [ht] at h
      cases h
      exact ⟨f, rfl, rfl⟩
  obtain ⟨f, ht, rfl⟩ := failed
  have read := map_parseTree s
  rw [ht] at read
  have deep : s.text.toList.length < stringDepth s.text.toList + 1 := by
    unfold stringDepth
    omega
  obtain ⟨literals, site, front, back, token, p, misread⟩ := (refused_of_readBlock .whole deep read.symm).misread
  exact ⟨f, literals, site, front, back, token, p, rfl, misread⟩

/-- A block that is left open in a string in a string, behind characters of several bytes: the error is at the end of
the inner string, before its closing quote. -/
theorem parse_refused_nested : ∃ e,
    parse ⟨"t", "é\n#set($a = \"x$b[\\\"é#if(1)\\\"]\")"⟩ .lines = .error e ∧
      e.position?.map (·.span) = some ⟨28, 28⟩ ∧
      ∃ f literals site front back token p,
        e = .single (f.inSource ⟨"t", "é\n#set($a = \"x$b[\\\"é#if(1)\\\"]\")"⟩) ∧
        Source.Misread ⟨"t", "é\n#set($a = \"x$b[\\\"é#if(1)\\\"]\")"⟩ f literals site front back token p := by
  have refused : (match parse ⟨"t", "é\n#set($a = \"x$b[\\\"é#if(1)\\\"]\")"⟩ .lines with
      | .ok _ => false
      | .error e => e.position?.map (·.span) == some ⟨28, 28⟩) = true := by
    decide +kernel
  split at refused
  · cases refused
  · next e he => exact ⟨e, he, eq_of_beq refused, parse_refused he⟩

end Stencil
