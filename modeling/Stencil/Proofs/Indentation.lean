import Stencil.Proofs.TextNodes

/-!
# What bodies lose of their indentation

Under the policy for bodies, a line loses the indentation that the block directives around it add, as far as it has so
much. Main statement: `parse_dedents`, which blanks of which lines are taken away, and when that is what is promised.
-/

namespace Stencil

namespace Gobbling

/-! ### Sums -/

section

variable {α : Type} {R S : α → Nat → Prop} {as : List α} {n m : Nat}

/-- What adds as much in more cases adds up to more. -/
lemma SumOf.exists_le (h : SumOf R as n) (hs : ∀ a ∈ as, ∀ k, R a k → S a k) : ∃ m, SumOf S as m ∧ n ≤ m := by
  induction h with
  | nil => exact ⟨0, .nil, Nat.le_refl _⟩
  | @adds a as k n here _ ih =>
    obtain ⟨m, sum, le⟩ := ih fun a ha => hs a (List.mem_cons_of_mem _ ha)
    exact ⟨k + m, .adds (hs a (List.mem_cons_self ..) k here) sum, Nat.add_le_add_left le k⟩
  | @passes a as n _ _ ih =>
    obtain ⟨m, sum, le⟩ := ih fun a ha => hs a (List.mem_cons_of_mem _ ha)
    by_cases some : ∃ k, S a k
    · obtain ⟨k, hk⟩ := some
      exact ⟨k + m, .adds hk sum, Nat.le_trans le (Nat.le_add_left _ _)⟩
    · exact ⟨m, .passes (fun k hk => some ⟨k, hk⟩) sum, le⟩

/-- What adds the same in the same cases adds up to the same. -/
lemma SumOf.eq (h : SumOf R as n) (k : SumOf S as m) (hrs : ∀ a ∈ as, (∃ i, R a i) ↔ ∃ j, S a j)
    (same : ∀ a ∈ as, ∀ i j, R a i → S a j → i = j) : n = m := by
  induction h generalizing m with
  | nil =>
    cases k
    rfl
  | @adds a as i n here _ ih =>
    obtain ⟨either, later⟩ := List.forall_mem_cons.mp hrs
    obtain ⟨equal, others⟩ := List.forall_mem_cons.mp same
    cases k with
    | adds there rest => rw [equal i _ here there, ih rest later others]
    | passes none rest =>
      obtain ⟨j, hj⟩ := either.mp ⟨i, here⟩
      exact absurd hj (none j)
  | @passes a as n none _ ih =>
    obtain ⟨either, later⟩ := List.forall_mem_cons.mp hrs
    cases k with
    | adds there rest =>
      obtain ⟨i, hi⟩ := either.mpr ⟨_, there⟩
      exact absurd hi (none i)
    | passes _ rest => exact ih rest later (List.forall_mem_cons.mp same).2

end

/-! ### What is promised -/

variable {cs : List Char} {t u head last : Tree Rule} {start extra : Nat} {line : List Char}

/-- What is promised that a block directive adds to the line at a place: the line starts in its body, to which also
that on which `#end` starts belongs where there is text in front of `#end`, and the first line with something on it
behind the head is indented by so many more than the head. -/
def Promises (cs : List Char) (u : Tree Rule) (start extra : Nat) : Prop :=
  ∃ margin first stop lead found line, Body cs u margin first stop lead ∧ first ≤ start ∧
    (start < stop ∨ start = stop ∧ ¬Blank lead) ∧ FirstFilled cs first found line ∧ extra = indented line - margin

/-- Whether the line at a place is not the one on which `#end` of a directive around it starts behind text, and the
bodies that it starts in have lines in front of that one with something on them. -/
def Regular (cs : List Char) (t : Tree Rule) (start : Nat) : Prop :=
  ∀ u margin first stop lead, t.Holds u → Body cs u margin first stop lead → first ≤ start →
    (start = stop → Blank lead) ∧
      (start < stop → ∃ found line, IsLine cs found line ∧ first ≤ found ∧ found < stop ∧ ¬Blank line)

/-- Whether a line starts in the body of a block directive, as gobbling sees it. -/
def InBody (cs : List Char) (u : Tree Rule) (start : Nat) : Prop :=
  ∃ margin first stop lead, Body cs u margin first stop lead ∧ first ≤ start ∧ start < stop

lemma Adds.promises (h : Adds cs u start extra) : Promises cs u start extra := by
  obtain ⟨margin, first, stop, lead, found, line, body, lo, hi, filled, -, extra⟩ := h
  exact ⟨margin, first, stop, lead, found, line, body, lo, .inl hi, filled, extra⟩

/-- What is promised is kept on regular lines. -/
lemma Promises.adds (h : Promises cs u start extra) (hu : t.Holds u) (regular : Regular cs t start) :
    Adds cs u start extra := by
  obtain ⟨margin, first, stop, lead, found, line, body, lo, hi, filled, extra⟩ := h
  obtain ⟨noText, some⟩ := regular u margin first stop lead hu body lo
  rcases hi with hi | ⟨last, text⟩
  · refine ⟨margin, first, stop, lead, found, line, body, lo, hi, filled, ?_, extra⟩
    obtain ⟨found', line', isLine, le, lt, notBlank⟩ := some hi
    by_contra late
    exact notBlank (filled.first found' line' isLine le (by omega))
  · exact absurd (noText last) text

lemma FirstFilled.unique {lo found found' : Nat} {line' : List Char} (h : FirstFilled cs lo found line)
    (k : FirstFilled cs lo found' line') : line = line' := by
  rcases Nat.lt_trichotomy found found' with lt | rfl | lt
  · exact absurd (k.first found line h.isLine h.le lt) h.filled
  · exact h.isLine.line_unique k.isLine
  · exact absurd (h.first found' line' k.isLine k.le lt) k.filled

/-- A block directive has one body. -/
lemma Body.unique {margin margin' first first' stop stop' : Nat} {lead lead' : List Char} (hs : Standing cs u head last)
    (h : Body cs u margin first stop lead) (k : Body cs u margin' first' stop' lead') :
    margin = margin' ∧ first = first' ∧ stop = stop' := by
  obtain ⟨found, le, rfl, -⟩ := h.computed hs
  obtain ⟨found', le', rfl, -⟩ := k.computed hs
  obtain ⟨before, rfl⟩ := Prod.mk.inj (Option.some.inj (found.symm.trans found'))
  exact ⟨by omega, rfl, rfl⟩

/-- A block directive promises and adds one amount. -/
lemma Promises.unique {start' extra' : Nat} (hs : Standing cs u head last) (h : Promises cs u start extra)
    (k : Promises cs u start' extra') : extra = extra' := by
  obtain ⟨margin, first, stop, lead, found, line, body, -, -, filled, rfl⟩ := h
  obtain ⟨margin', first', stop', lead', found', line', body', -, -, filled', rfl⟩ := k
  obtain ⟨rfl, rfl, rfl⟩ := body.unique hs body'
  rw [filled.unique filled']

/-- A block directive adds the same to all lines of its body. -/
lemma Adds.in_body {start' : Nat} (hs : Standing cs u head last) (h : Adds cs u start extra) (k : InBody cs u start') :
    Adds cs u start' extra := by
  obtain ⟨margin, first, stop, lead, found, line, body, -, -, filled, lt, extra⟩ := h
  obtain ⟨margin', first', stop', lead', body', lo, hi⟩ := k
  obtain ⟨rfl, rfl, rfl⟩ := body.unique hs body'
  exact ⟨margin, first, stop, lead, found, line, body, lo, hi, filled, lt, extra⟩

lemma Adds.inBody (h : Adds cs u start extra) : InBody cs u start := by
  obtain ⟨margin, first, stop, lead, -, -, body, lo, hi, -⟩ := h
  exact ⟨margin, first, stop, lead, body, lo, hi⟩

lemma Promises.exists_standing (h : Promises cs u start extra) (ht : readTree cs = .ok t) (hu : t.Holds u) :
    ∃ head last, Standing cs u head last := by
  obtain ⟨_, _, _, _, _, _, ⟨_, _, encloses, _⟩, _⟩ := h
  exact standing_of_holds ht hu encloses.region

/-- On a regular line, all that is promised is added. -/
lemma SumOf.promised (ht : readTree cs = .ok t) {total promised : Nat} (h : SumOf (Adds cs · start) t.parts total)
    (k : SumOf (Promises cs · start) t.parts promised) (regular : Regular cs t start) : promised = total := by
  refine k.eq h (fun u hu => ?_) fun u hu i j hi hj => ?_
  · have held := (Tree.mem_parts u t).mp hu
    exact ⟨fun ⟨i, hi⟩ => ⟨i, hi.adds held regular⟩, fun ⟨j, hj⟩ => ⟨j, hj.promises⟩⟩
  · obtain ⟨head, last, standing⟩ := hi.exists_standing ht ((Tree.mem_parts u t).mp hu)
    exact hi.unique standing hj.promises

/-- Lines of the same bodies lose the same. -/
lemma SumOf.same_bodies (ht : readTree cs = .ok t) {start' total total' : Nat}
    (h : SumOf (Adds cs · start) t.parts total) (k : SumOf (Adds cs · start') t.parts total')
    (same : ∀ u, t.Holds u → (InBody cs u start ↔ InBody cs u start')) : total = total' := by
  refine h.eq k (fun u hu => ?_) fun u hu i j hi hj => ?_
  · have held := (Tree.mem_parts u t).mp hu
    constructor
    · rintro ⟨i, hi⟩
      obtain ⟨head, last, standing⟩ := hi.promises.exists_standing ht held
      exact ⟨i, hi.in_body standing ((same u held).mp hi.inBody)⟩
    · rintro ⟨j, hj⟩
      obtain ⟨head, last, standing⟩ := hj.promises.exists_standing ht held
      exact ⟨j, hj.in_body standing ((same u held).mpr hj.inBody)⟩
  · obtain ⟨head, last, standing⟩ := hi.promises.exists_standing ht ((Tree.mem_parts u t).mp hu)
    exact hi.promises.unique standing hj.promises

/-! ### Lines -/

/-- What the line at a place loses: what stands around markers and, of its first blanks, as many as the block
directives add whose bodies it starts in; these are no more than is promised, and as many where the line is regular.
Where it starts in a text, its first blanks are all of the text, and either there is nothing on the line but a marker,
or it loses nothing but those blanks. -/
structure Dedented (cs : List Char) (t : Tree Rule) (b : Block) (gone : Nat → Prop) (start : Nat) (line : List Char)
    (total : Nat) : Prop where
  sum : SumOf (Adds cs · start) t.parts total
  taken : ∀ offset, start ≤ offset → offset ≤ start + utf8Length line →
    (gone offset ↔ Around cs t offset ∨ offset < start + min total (indented line))
  promised : ∃ promised, SumOf (Promises cs · start) t.parts promised ∧ total ≤ promised ∧
    (Regular cs t start → promised = total)
  text : ∀ span, b.TextAt span → span.start ≤ start → start < span.stop → start + indented line ≤ span.stop ∧
    (Lone cs t start line ∨ ∀ offset, start ≤ offset → offset ≤ start + utf8Length line →
      (gone offset ↔ offset < start + min total (indented line)))

end Gobbling

open Gobbling in
/-- Under the policy for bodies, every line loses what stands around markers and so many of its first blanks as the
block directives add whose bodies it starts in, as `Dedented` has it; lines of the same bodies lose the same. -/
theorem parse_dedents (s : Source) (b : Block) (h : parse s .none = .ok b) : ∃ t structured gone,
    readTree s.text.toList = .ok t ∧ parse s .structured = .ok structured ∧ Block.Thinned gone b structured ∧
      (∀ start line, IsLine s.text.toList start line → ∃ total, Dedented s.text.toList t b gone start line total) ∧
      ∀ start start' total total', SumOf (Adds s.text.toList · start) t.parts total →
        SumOf (Adds s.text.toList · start') t.parts total' →
        (∀ u, t.Holds u → (InBody s.text.toList u start ↔ InBody s.text.toList u start')) → total = total' := by
  obtain ⟨spans, parsed⟩ := parseTree_of_parse h
  obtain ⟨t, read, rfl⟩ := exists_readTree_of_parseTree parsed
  have blank : OnlyBlanks s.text.toList (removals s.text.toList .structured t.markerSpans) :=
    fun hc gone => (around_or_leading_of_isRemoved read gone).elim (·.blank hc) (·.blank hc)
  refine ⟨t, _, _, read, parse_of_parseTree parsed .structured, (fills_of_parseTree parsed).thinned_gobble blank,
    fun start line isLine => ?_, fun start start' total total' => SumOf.same_bodies read⟩
  have sum := sumOf_amount read isLine
  have taken {offset : Nat} (lo : start ≤ offset) (hi : offset ≤ start + utf8Length line) :=
    isRemoved_structured read isLine lo hi
  refine ⟨_, sum, fun offset => taken, ?_, fun span htext lo hi => ?_⟩
  · obtain ⟨promised, all, le⟩ := sum.exists_le fun u _ _ adds => adds.promises
    exact ⟨promised, all, le, sum.promised read all⟩
  · obtain ⟨v, hv, text, lo', hi', le⟩ := exists_text_of_parseTree parsed read htext lo hi
    refine ⟨Nat.le_trans (within_of_text read hv text isLine lo' hi') le, ?_⟩
    refine (lone_or_not_around read hv text isLine lo' hi').imp_right fun none offset le le' => ?_
    rw [taken le le']
    exact or_iff_right (none offset le le')

/-- A conditional in a loop, and a line of it that the two indent by two blanks each. -/
theorem parse_dedents_nested : ∃ b structured,
    parse ⟨"t", "#foreach($x in $y)\n  #if($x)\n    a\n\n      b\n  #end\n#end\n"⟩ .none = .ok b ∧
      parse ⟨"t", "#foreach($x in $y)\n  #if($x)\n    a\n\n      b\n  #end\n#end\n"⟩ .structured = .ok structured ∧
      ∃ t gone total, Block.Thinned gone b structured ∧ Gobbling.Dedented
        "#foreach($x in $y)\n  #if($x)\n    a\n\n      b\n  #end\n#end\n".toList t b gone 29 "    a".toList total := by
  have parses : (match parse
        ⟨"t", "#foreach($x in $y)\n  #if($x)\n    a\n\n      b\n  #end\n#end\n"⟩ .none with
      | .ok _ => true
      | .error _ => false) = true := by
    decide +kernel
  have isLine : Gobbling.IsLine "#foreach($x in $y)\n  #if($x)\n    a\n\n      b\n  #end\n#end\n".toList 29
      "    a".toList :=
    ⟨"#foreach($x in $y)\n  #if($x)\n".toList, "\n\n      b\n  #end\n#end\n".toList, by decide +kernel,
      by decide +kernel, .inr (by decide +kernel), by decide +kernel,
      fun _ next => Option.some.inj (next.symm.trans (by decide +kernel))⟩
  split at parses
  · next b hb =>
    obtain ⟨t, structured, gone, -, parsed, thinned, lines, -⟩ := parse_dedents _ b hb
    obtain ⟨total, dedented⟩ := lines 29 _ isLine
    exact ⟨b, structured, hb, parsed, t, gone, total, thinned, dedented⟩
  · cases parses

/-- What is left of these lines, and of the blank one between them. -/
example : (match parse
      ⟨"t", "#foreach($x in $y)\n  #if($x)\n    a\n\n      b\n  #end\n#end\n"⟩ .structured with
    | .ok [⟨.loop _ _ [⟨.conditional [⟨_, [⟨.text s, _⟩]⟩] none, _⟩] none, _⟩] => s == "a\n\n  b\n"
    | _ => false) = true := by
  decide +kernel

open Gobbling in
/-- Text in front of `#end` keeps its indentation, though the conditional promises to add four blanks to its line. -/
theorem kept_before_end : ∃ t u, readTree "#if(true)\n    a\n    b#end".toList = .ok t ∧ t.Holds u ∧
    IsLine "#if(true)\n    a\n    b#end".toList 16 "    b#end".toList ∧
    Promises "#if(true)\n    a\n    b#end".toList u 16 4 ∧
    (match parse ⟨"t", "#if(true)\n    a\n    b#end"⟩ .structured with
      | .ok [⟨.conditional [⟨_, [⟨.text s, p⟩]⟩] none, _⟩] => p.span == ⟨9, 21⟩ && s == "a\n    b"
      | _ => false) = true := by
  have read : (readTree "#if(true)\n    a\n    b#end".toList).toOption.map (fun t => t.parts.filterMap Tree.region?) =
      some [(⟨0, 9⟩, ⟨21, 25⟩)] := by
    decide +kernel
  cases ht : readTree "#if(true)\n    a\n    b#end".toList with
  | error refusal =>
    rw [ht] at read
    cases read
  | ok t =>
    rw [ht] at read
    have regions : t.parts.filterMap Tree.region? = [(⟨0, 9⟩, ⟨21, 25⟩)] := Option.some.inj read
    have mem : ((⟨0, 9⟩, ⟨21, 25⟩) : Span × Span) ∈ t.parts.filterMap Tree.region? :=
      regions ▸ List.mem_singleton_self _
    obtain ⟨u, hu, region⟩ := List.mem_filterMap.mp mem
    have held := (Tree.mem_parts u t).mp hu
    obtain ⟨head, last, standing⟩ := standing_of_holds ht held (Tree.isRegion_of_region? region)
    obtain ⟨headSpan, lastSpan⟩ := Prod.mk.inj
      (Option.some.inj (standing.encloses.region?_eq.symm.trans region))
    have fed : EndsLine "#if(true)".toList ([] ++ ['\n']) "    a\n    b#end".toList := .fed (by decide +kernel) nofun
    have alone : Alone "#if(true)\n    a\n    b#end".toList head.span [] [] "#if(true)".toList ['\n']
        "    a\n    b#end".toList :=
      ⟨by decide +kernel, by rw [headSpan]; rfl, by rw [headSpan]; decide +kernel, .inl rfl, nofun, fed⟩
    have body : Body "#if(true)\n    a\n    b#end".toList u 0 10 16 "    b".toList :=
      ⟨head, last, standing.encloses, ⟨_, _, _, _, _, alone, rfl, by decide +kernel⟩, "#if(true)\n    a\n".toList,
        "#end".toList, by decide +kernel, by decide +kernel, .inr (by decide +kernel), by decide +kernel,
        (congrArg Span.start lastSpan).trans (by decide +kernel)⟩
    have first : IsLine "#if(true)\n    a\n    b#end".toList 10 "    a".toList :=
      ⟨"#if(true)\n".toList, "\n    b#end".toList, by decide +kernel, by decide +kernel, .inr (by decide +kernel),
        by decide +kernel, fun _ next => Option.some.inj (next.symm.trans (by decide +kernel))⟩
    have second : IsLine "#if(true)\n    a\n    b#end".toList 16 "    b#end".toList :=
      ⟨"#if(true)\n    a\n".toList, [], by decide +kernel, by decide +kernel, .inr (by decide +kernel),
        by decide +kernel, nofun⟩
    have filled : FirstFilled "#if(true)\n    a\n    b#end".toList 10 10 "    a".toList :=
      ⟨first, Nat.le_refl _, fun h => absurd (blank_iff.mp h) (by decide +kernel),
        fun _ _ _ lo hi => absurd hi (Nat.not_lt_of_le lo)⟩
    refine ⟨t, u, rfl, held, second, ⟨0, 10, 16, _, 10, _, body, by decide, .inr ⟨rfl, ?_⟩, filled, by decide +kernel⟩,
      by decide +kernel⟩
    exact fun h => absurd (blank_iff.mp h) (by decide +kernel)

end Stencil
