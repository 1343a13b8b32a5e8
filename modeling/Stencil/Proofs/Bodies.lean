import Stencil.Proofs.Lines
import Stencil.Proofs.Reading.Operands
import Stencil.Proofs.Reading.Trees

/-!
# Bodies and their indentation

A block directive whose head has its lines to itself indents its body by what the first line with something on it is
indented more than the head. Main statements: `Gobbling.mem_excesses`, which lines gobbling notes that down for, and
`Gobbling.isRemoved_structured`, what it takes from a line for all directives.
-/

namespace Stencil

/-- What is spelled with some character is not empty. -/
lemma Span.Spells.lt {cs w : List Char} {s : Span} (h : s.Spells cs w) (hw : w ≠ []) : s.start < s.stop := by
  obtain ⟨front, back, -, rfl⟩ := h
  obtain ⟨c, w, rfl⟩ := List.exists_cons_of_ne_nil hw
  have := c.utf8Size_pos
  simp only [utf8Length_append, utf8Length_cons]
  omega

/-! ### Block directives -/

/-- The rules of what block directives start with. -/
def Rule.heads : List Rule := [.ifHead, .foreachHead, .macroHead, .blockCallHead]

/-- A block directive, its head and its `#end`. -/
structure Tree.Encloses (u head last : Tree Rule) : Prop where
  region : u.rule.isRegion = true
  first : u.children.head? = some head
  opens : head.rule ∈ Rule.heads
  final : u.children.getLast? = some last
  closes : last.rule = .endMarker

lemma Slot.Filled.last {ρ α : Type} {Makes : ρ → α → Prop} {row : List (Slot ρ)} {rs : List ρ} {ps : List α}
    (h : Filled Makes (row ++ [.one rs]) ps) : ∃ p, ps.getLast? = some p ∧ ∃ r ∈ rs, Makes r p := by
  have behind {p q : α} {ps : List α} (h : ps.getLast? = some q) : (p :: ps).getLast? = some q := by
    rw [List.getLast?_cons, h]
    rfl
  generalize hrow : row ++ [.one rs] = full at h
  induction h generalizing row with
  | nil => cases row <;> cases hrow
  | @one rs' r p row' ps hr made rest ih =>
    cases row with
    | nil =>
      cases hrow
      cases rest
      exact ⟨p, rfl, r, hr, made⟩
    | cons slot row =>
      obtain ⟨-, hrow⟩ := List.cons.inj hrow
      obtain ⟨q, hq, made⟩ := ih hrow
      exact ⟨q, behind hq, made⟩
  | none rest ih =>
    cases row with
    | nil => cases hrow
    | cons slot row => exact ih (List.cons.inj hrow).2
  | more hr made rest ih =>
    obtain ⟨q, hq, made⟩ := ih hrow
    exact ⟨q, behind hq, made⟩

/-- A block directive starts with its head and ends with `#end`. -/
lemma Tree.Holds.encloses {cs : List Char} {t u : Tree Rule} (h : t.Holds u) (ht : readTree cs = .ok t)
    (hr : u.rule.isRegion = true) : ∃ head last, u.Encloses head last := by
  obtain ⟨-, derived⟩ := h.derived ht
  obtain ⟨r, c, d, ts⟩ := u
  have shape {g : Peg Rule} (hb : Rule.body r = .phrase g) :
      Slot.FillsOne (fun r (t : Tree Rule) => t.rule = r) r.rows ts := by
    obtain ⟨us, hus, derived⟩ := derived.of_phrase hb
    cases hus
    exact Rule.rows_of_body hb ▸ Tree.fillsOne_of_derives derived
  have ends {q : Rule} (row : List (Slot Rule)) (hq : q ∈ Rule.heads)
      (filled : Slot.Filled (fun r (t : Tree Rule) => t.rule = r) (.one [q] :: row ++ [.one [.endMarker]]) ts) :
      ∃ head last, Tree.Encloses (.node r c d ts) head last := by
    obtain ⟨last, hlast, s, hs, closes⟩ := filled.last
    obtain rfl := List.mem_singleton.mp hs
    obtain ⟨head, rest, rfl, opens, -⟩ := filled.part
    exact ⟨head, last, hr, rfl, opens ▸ hq, hlast, closes⟩
  cases r with
  | ifDirective =>
    rcases (shape rfl).cases with filled | h
    · exact ends [.one [.block], .any [.elseifBranch]] (by decide) filled
    · exact ends [.one [.block], .any [.elseifBranch], .one [.elseBranch]] (by decide) h.filled
  | foreachDirective =>
    rcases (shape rfl).cases with filled | h
    · exact ends [.one [.block]] (by decide) filled
    · exact ends [.one [.block], .one [.elseBranch]] (by decide) h.filled
  | macroDirective => exact ends [.one [.block]] (by decide) (shape rfl).filled
  | blockMacroCall => exact ends [.one [.block]] (by decide) (shape rfl).filled
  | _ => cases hr

/-! ### Regions -/

/-- The spans of the first and the last part of a block directive. -/
def Tree.region? (u : Tree Rule) : Option (Span × Span) :=
  match u.rule.isRegion, u.children.head?, u.children.getLast? with
  | true, some head, some last => some (head.span, last.span)
  | _, _, _ => none

lemma Tree.Encloses.region?_eq {u head last : Tree Rule} (h : u.Encloses head last) :
    u.region? = some (head.span, last.span) := by
  rw [region?, h.region, h.first, h.final]

lemma Tree.isRegion_of_region? {u : Tree Rule} {region : Span × Span} (h : u.region? = some region) :
    u.rule.isRegion = true := by
  by_contra hr
  simp [region?, hr] at h

/-- The regions that gobbling goes by are those of the block directives. -/
lemma Tree.regions_markerSpans : ∀ t : Tree Rule, t.markerSpans.regions = t.parts.filterMap region?
  | .node r c d ts => by
    have inside : (allMarkerSpans ts).regions = (allParts ts).filterMap region? := by
      rw [allMarkerSpans_eq, allParts_eq, List.filterMap_flatMap]
      exact List.flatMap_congr fun t (_ : t ∈ ts) => Tree.regions_markerSpans t
    have here : (markerSpans (.node r c d ts)).regions =
        (region? (.node r c d ts)).toList ++ (allMarkerSpans ts).regions := by
      unfold markerSpans region?
      dsimp only [MarkerSpans.append, rule, children]
      cases r.isRegion <;> cases ts.head? <;> cases ts.getLast? <;> rfl
    rw [here, parts, List.filterMap_cons, ← inside]
    cases region? (.node r c d ts) with
    | none => rfl
    | some region => rfl

namespace Gobbling

variable {cs : List Char} {u head last : Tree Rule} {start : Nat} {line : List Char}

/-! ### Lists in order -/

section

variable {α : Type} {xs : List (Nat × α)}

lemma mem_takeWhile_lt (h : xs.Pairwise (·.1 < ·.1)) {stop : Nat} {x : Nat × α} :
    x ∈ xs.takeWhile (·.1 < stop) ↔ x ∈ xs ∧ x.1 < stop := by
  induction xs with
  | nil => exact ⟨nofun, nofun⟩
  | cons y xs ih =>
    obtain ⟨before, later⟩ := List.pairwise_cons.mp h
    by_cases hy : y.1 < stop
    · rw [List.takeWhile_cons_of_pos (by simpa using hy), List.mem_cons, List.mem_cons, ih later]
      constructor
      · rintro (rfl | ⟨hx, lt⟩)
        · exact ⟨.inl rfl, hy⟩
        · exact ⟨.inr hx, lt⟩
      · rintro ⟨rfl | hx, lt⟩
        · exact .inl rfl
        · exact .inr ⟨hx, lt⟩
    · rw [List.takeWhile_cons_of_neg (by simpa using hy)]
      refine ⟨nofun, ?_⟩
      rintro ⟨hx, lt⟩
      rcases List.mem_cons.mp hx with rfl | hx
      · exact absurd lt hy
      · exact absurd (Nat.lt_trans (before x hx) lt) hy

lemma find?_eq_some_iff_first (h : xs.Pairwise (·.1 < ·.1)) {p : Nat × α → Bool} {x : Nat × α} :
    xs.find? p = some x ↔ x ∈ xs ∧ p x = true ∧ ∀ y ∈ xs, y.1 < x.1 → p y = false := by
  rw [List.find?_eq_some_iff_append]
  constructor
  · rintro ⟨hx, front, back, rfl, none⟩
    refine ⟨List.mem_append_right _ (List.mem_cons_self ..), hx, fun y hy lt => ?_⟩
    rcases List.mem_append.mp hy with hy | hy
    · simpa using none y hy
    · have after := (List.pairwise_append.mp h).2.1
      rcases List.mem_cons.mp hy with rfl | hy
      · exact absurd lt (Nat.lt_irrefl _)
      · exact absurd lt (Nat.lt_asymm ((List.pairwise_cons.mp after).1 y hy))
  · rintro ⟨mem, hx, none⟩
    obtain ⟨front, back, rfl⟩ := List.append_of_mem mem
    refine ⟨hx, front, back, rfl, fun y hy => ?_⟩
    have lt := (List.pairwise_append.mp h).2.2 y hy x (List.mem_cons_self ..)
    rw [none y (List.mem_append_left _ hy) lt]
    rfl

/-- In order, there is at most one entry for a place. -/
lemma filter_eq_singleton (h : xs.Pairwise (·.1 < ·.1)) {x : Nat × α} (hx : x ∈ xs) :
    xs.filter (·.1 == x.1) = [x] := by
  induction xs with
  | nil => cases hx
  | cons y xs ih =>
    obtain ⟨before, later⟩ := List.pairwise_cons.mp h
    rcases List.mem_cons.mp hx with rfl | hx
    · have none : xs.filter (·.1 == x.1) = [] := by
        rw [List.filter_eq_nil_iff]
        intro y hy
        have := before y hy
        simp
        omega
      rw [List.filter_cons_of_pos (by simp), none]
    · have := before x hx
      rw [List.filter_cons_of_neg (by simp; omega), ih later hx]

end

/-! ### Bodies -/

/-- The body of a block directive whose head has its lines to itself: how far the head is indented, where the line
behind the head starts and where the one does on which `#end` starts, and what stands there before `#end`. -/
def Body (cs : List Char) (u : Tree Rule) (margin first stop : Nat) (lead : List Char) : Prop :=
  ∃ head last, u.Encloses head last ∧
    (∃ before indent word tail after, Alone cs head.span before indent word tail after ∧ margin = indent.length ∧
      first = utf8Length (before ++ indent ++ word ++ tail)) ∧
    ∃ front back, cs = front ++ lead ++ back ∧ stop = utf8Length front ∧ StartsLine front ∧ '\n' ∉ lead ∧
      last.start.offset = utf8Length (front ++ lead)

/-- The first line with something on it, of those that start at a place or behind it. -/
structure FirstFilled (cs : List Char) (lo start : Nat) (line : List Char) : Prop where
  isLine : IsLine cs start line
  le : lo ≤ start
  filled : ¬Blank line
  first : ∀ start' line', IsLine cs start' line' → lo ≤ start' → start' < start → Blank line'

/-- Whether a block directive adds `extra` blanks to the line at a place, as gobbling sees it: the line starts in its
body, and the first line of its body with something on it is indented by so many more than its head. -/
def Adds (cs : List Char) (u : Tree Rule) (start extra : Nat) : Prop :=
  ∃ margin first stop lead found line, Body cs u margin first stop lead ∧ first ≤ start ∧ start < stop ∧
    FirstFilled cs first found line ∧ found < stop ∧ extra = indented line - margin

/-- The lines of a body. -/
def bodyLines (cs : List Char) (first stop : Nat) : List (Nat × List Char) :=
  (numberLines first (splitLines (dropBytes first cs))).takeWhile (·.1 < stop)

lemma excesses_eq (cs : List Char) (head last : Span) :
    excesses cs (head, last) =
      match loneLine? cs head with
      | none => []
      | some (start, first) =>
        match (bodyLines cs first (startOfLine cs last.start)).find? fun l => !(Text.trim l.2).isEmpty with
        | none => []
        | some l => (bodyLines cs first (startOfLine cs last.start)).map
            fun k => (k.1, indented l.2 - (head.start - start)) := rfl

section

variable {first stop : Nat}

lemma pairwise_bodyLines : (bodyLines cs first stop).Pairwise (·.1 < ·.1) :=
  (pairwise_numberLines _ _).sublist (List.takeWhile_sublist _)

lemma mem_bodyLines (hf : LineAt cs first) (hs : stop ≤ utf8Length cs) :
    (start, line) ∈ bodyLines cs first stop ↔ IsLine cs start line ∧ first ≤ start ∧ start < stop := by
  unfold bodyLines
  rw [mem_takeWhile_lt (pairwise_numberLines _ _), ← and_assoc]
  obtain ⟨front, back, ht, rfl, starts | rfl⟩ := hf
  · have dropped : dropBytes (utf8Length front) cs = back := by rw [ht, dropBytes_append]
    rw [dropped, mem_numberLines ht starts]
  · -- No line starts in what is empty.
    rw [List.append_nil] at ht
    constructor
    · rintro ⟨mem, lt⟩
      have := le_of_mem_numberLines mem
      rw [ht] at hs
      dsimp only at this lt
      omega
    · rintro ⟨⟨-, le⟩, lt⟩
      rw [ht] at hs
      omega

lemma find?_bodyLines (hf : LineAt cs first) (hs : stop ≤ utf8Length cs) :
    (bodyLines cs first stop).find? (fun l => !(Text.trim l.2).isEmpty) = some (start, line) ↔
      FirstFilled cs first start line ∧ start < stop := by
  have filled (line : List Char) : (!(Text.trim line).isEmpty) = true ↔ ¬Blank line := by
    rw [blank_iff, Bool.not_eq_true', Bool.not_eq_true]
  have empty (line : List Char) : (!(Text.trim line).isEmpty) = false ↔ Blank line := by
    rw [blank_iff, Bool.not_eq_false']
  rw [find?_eq_some_iff_first pairwise_bodyLines, mem_bodyLines hf hs, filled]
  constructor
  · rintro ⟨⟨isLine, le, lt⟩, hl, first⟩
    refine ⟨⟨isLine, le, hl, fun start' line' h lo hi => ?_⟩, lt⟩
    exact (empty line').mp (first (start', line') ((mem_bodyLines hf hs).mpr ⟨h, lo, Nat.lt_trans hi lt⟩) hi)
  · rintro ⟨⟨isLine, le, hl, first⟩, lt⟩
    refine ⟨⟨isLine, le, lt⟩, hl, fun y hy hi => ?_⟩
    obtain ⟨h, lo, -⟩ := (mem_bodyLines hf hs).mp hy
    exact (empty y.2).mpr (first y.1 y.2 h lo hi)

lemma Alone.word_ne_nil {m : Span} {before indent word tail after : List Char}
    (h : Alone cs m before indent word tail after) (hm : m.start < m.stop) : word ≠ [] := by
  rintro rfl
  rw [h.start, h.stop, List.append_nil] at hm
  exact Nat.lt_irrefl _ hm

/-- A block directive that was read, with where its head and its `#end` stand in the text. -/
structure Standing (cs : List Char) (u head last : Tree Rule) : Prop where
  encloses : u.Encloses head last
  head : ∃ word, head.span.Spells cs word ∧ word ≠ []
  last : ∃ word, last.span.Spells cs word

/-- What is known of a body is what gobbling computes. -/
lemma Body.computed {margin : Nat} {lead : List Char} (h : Body cs u margin first stop lead)
    (hs : Standing cs u head last) :
    loneLine? cs head.span = some (head.span.start - margin, first) ∧ margin ≤ head.span.start ∧
      stop = startOfLine cs last.span.start ∧ LineAt cs first ∧ stop ≤ utf8Length cs := by
  obtain ⟨head', last', encloses, ⟨before, indent, word, tail, after, alone, rfl, rfl⟩, front, back, hcs, rfl, starts,
    within, offset⟩ := h
  obtain rfl := Option.some.inj (encloses.first.symm.trans hs.encloses.first)
  obtain rfl := Option.some.inj (encloses.final.symm.trans hs.encloses.final)
  obtain ⟨word', spells, filled⟩ := hs.head
  have found := alone.loneLine? (alone.word_ne_nil (spells.lt filled))
  have start : head'.span.start - indent.length = utf8Length before := by
    rw [alone.start, utf8Length_append, length_indent alone.indented, Nat.add_sub_cancel]
  have through : cs = before ++ indent ++ word ++ (tail ++ after) := by
    rw [alone.text]
    simp only [List.append_assoc]
  refine ⟨by rw [found, start], ?_, ?_, lineAt_of_loneLine? through alone.stop found, ?_⟩
  · rw [alone.start, utf8Length_append, length_indent alone.indented]
    exact Nat.le_add_left _ _
  · show utf8Length front = startOfLine cs last'.start.offset
    rw [offset, hcs, startOfLine_append front starts within]
  · rw [hcs, List.append_assoc, utf8Length_append]
    exact Nat.le_add_right _ _

/-- A block directive has a body when its head has its lines to itself. -/
lemma Standing.exists_body (hs : Standing cs u head last) {found : Nat × Nat}
    (h : loneLine? cs head.span = some found) : ∃ margin first stop lead, Body cs u margin first stop lead := by
  obtain ⟨word, ⟨front, back, hcs, span⟩, filled⟩ := hs.head
  rw [List.append_assoc] at hcs
  obtain ⟨before, indent, tail, after, alone⟩ := exists_alone hcs filled span h
  obtain ⟨word', front', back', hcs', span'⟩ := hs.last
  obtain ⟨before', hbefore, starts⟩ := exists_startsLine front'
  refine ⟨_, _, _, (front'.reverse.takeWhile (· != '\n')).reverse, head, last, hs.encloses,
    ⟨before, indent, word, tail, after, alone, rfl, rfl⟩, before', word' ++ back', ?_, rfl, starts, ?_, ?_⟩
  · rw [← hbefore, ← List.append_assoc]
    exact hcs'
  · intro feed
    have := List.mem_takeWhile_imp (List.mem_reverse.mp feed)
    simp at this
  · rw [← hbefore]
    exact congrArg Span.start span'

/-- What gobbling notes down for a block directive are the lines of its body and what it adds to them. -/
theorem mem_excesses (hs : Standing cs u head last) {extra : Nat} :
    (start, extra) ∈ excesses cs (head.span, last.span) ↔ (∃ line, IsLine cs start line) ∧ Adds cs u start extra := by
  rw [excesses_eq]
  constructor
  · intro h
    split at h
    · cases h
    next found first lone =>
    obtain ⟨margin, first, stop, lead, body⟩ := hs.exists_body lone
    obtain ⟨computed, le, rfl, lineAt, within⟩ := body.computed hs
    rw [lone] at computed
    cases computed
    split at h
    · cases h
    next l filled =>
    obtain ⟨⟨start', line⟩, mem, same⟩ := List.mem_map.mp h
    obtain ⟨rfl, rfl⟩ := Prod.mk.inj same
    obtain ⟨isLine, lo, hi⟩ := (mem_bodyLines lineAt within).mp mem
    obtain ⟨firstFilled, lt⟩ := (find?_bodyLines lineAt within).mp filled
    refine ⟨⟨line, isLine⟩, margin, _, _, lead, l.1, l.2, body, lo, hi, firstFilled, lt, ?_⟩
    rw [Nat.sub_sub_self le]
  · rintro ⟨⟨line, isLine⟩, margin, first, stop, lead, found, l, body, lo, hi, firstFilled, lt, rfl⟩
    obtain ⟨computed, le, rfl, lineAt, within⟩ := body.computed hs
    have filled := (find?_bodyLines lineAt within).mpr ⟨firstFilled, lt⟩
    rw [computed]
    dsimp only
    rw [filled]
    refine List.mem_map.mpr ⟨(start, line), (mem_bodyLines lineAt within).mpr ⟨isLine, lo, hi⟩, ?_⟩
    rw [Nat.sub_sub_self le]

lemma pairwise_excesses (cs : List Char) (head last : Span) : (excesses cs (head, last)).Pairwise (·.1 < ·.1) := by
  rw [excesses_eq]
  split
  · exact .nil
  · split
    · exact .nil
    · rw [List.pairwise_map]
      exact pairwise_bodyLines

end

/-! ### What gobbling takes from a line -/

/-- The sum of the amounts that things in a list have, those that have one. -/
inductive SumOf {α : Type} (R : α → Nat → Prop) : List α → Nat → Prop
  | nil : SumOf R [] 0
  | adds {a : α} {as : List α} {n m : Nat} : R a n → SumOf R as m → SumOf R (a :: as) (n + m)
  | passes {a : α} {as : List α} {m : Nat} : (∀ n, ¬R a n) → SumOf R as m → SumOf R (a :: as) m

lemma Adds.isRegion {extra : Nat} (h : Adds cs u start extra) : u.rule.isRegion = true := by
  obtain ⟨_, _, _, _, _, _, ⟨_, _, encloses, _⟩, _⟩ := h
  exact encloses.region

/-- The amount for a line, out of what is noted down for all block directives. -/
def amount (cs : List Char) (t : Tree Rule) (start : Nat) : Nat :=
  ((t.markerSpans.regions.flatMap (excesses cs)).filter (·.1 == start)).foldl (fun n e => n + e.2) 0

lemma foldl_amounts (n : Nat) (es : List (Nat × Nat)) :
    es.foldl (fun n e => n + e.2) n = n + (es.map (·.2)).sum := by
  induction es generalizing n with
  | nil => rfl
  | cons e es ih => rw [List.foldl_cons, ih, List.map_cons, List.sum_cons, Nat.add_assoc]

lemma sumOf_excesses {us : List (Tree Rule)}
    (hs : ∀ u ∈ us, u.rule.isRegion = true → ∃ head last, Standing cs u head last) (isLine : IsLine cs start line) :
    SumOf (Adds cs · start) us
      ((((us.filterMap Tree.region?).flatMap (excesses cs)).filter (·.1 == start)).map (·.2)).sum := by
  induction us with
  | nil => exact .nil
  | cons u us ih =>
    obtain ⟨here, later⟩ := List.forall_mem_cons.mp hs
    have rest := ih later
    by_cases hr : u.rule.isRegion = true
    · obtain ⟨head, last, standing⟩ := here hr
      rw [List.filterMap_cons_some standing.encloses.region?_eq, List.flatMap_cons, List.filter_append, List.map_append,
        List.sum_append]
      by_cases ha : ∃ extra, Adds cs u start extra
      · obtain ⟨extra, adds⟩ := ha
        have only := filter_eq_singleton (pairwise_excesses cs head.span last.span)
          ((mem_excesses standing).mpr ⟨⟨line, isLine⟩, adds⟩)
        rw [only]
        exact .adds adds rest
      · have none : (excesses cs (head.span, last.span)).filter (·.1 == start) = [] := by
          rw [List.filter_eq_nil_iff]
          rintro ⟨start', extra⟩ he same
          obtain rfl : start' = start := by simpa using same
          exact ha ⟨extra, ((mem_excesses standing).mp he).2⟩
        rw [none, List.map_nil, List.sum_nil, Nat.zero_add]
        exact .passes (fun extra h => ha ⟨extra, h⟩) rest
    · have none : u.region? = none := by simp [Tree.region?, hr]
      rw [List.filterMap_cons_none none]
      exact .passes (fun extra h => hr h.isRegion) rest

variable {t : Tree Rule}

/-- The block directives of a template stand in its text. -/
lemma standing_of_holds (ht : readTree cs = .ok t) (hu : t.Holds u) (hr : u.rule.isRegion = true) :
    ∃ head last, Standing cs u head last := by
  obtain ⟨head, last, encloses⟩ := hu.encloses ht hr
  have silent : head.rule.isSilent = true := by
    have all : ∀ r ∈ Rule.heads, r.isSilent = true := by decide
    exact all _ encloses.opens
  have child {v : Tree Rule} (hv : v ∈ u.children) : t.Holds v := hu.trans (.child hv .self)
  obtain ⟨word, spells, filled⟩ := (child (List.mem_of_head? encloses.first)).spells ht
  obtain ⟨word', spells', -⟩ := (child (List.mem_of_getLast? encloses.final)).spells ht
  exact ⟨head, last, encloses, ⟨word, spells, filled silent⟩, word', spells'⟩

/-- The amount for a line is the sum of what the block directives add to it. -/
theorem sumOf_amount (ht : readTree cs = .ok t) (isLine : IsLine cs start line) :
    SumOf (Adds cs · start) t.parts (amount cs t start) := by
  rw [amount, foldl_amounts, Nat.zero_add, Tree.regions_markerSpans]
  exact sumOf_excesses (fun u hu => standing_of_holds ht ((Tree.mem_parts u t).mp hu)) isLine

/-- From a line, the policy for bodies takes what stands around markers and so many of the first blanks. -/
theorem isRemoved_structured (ht : readTree cs = .ok t) (isLine : IsLine cs start line) {offset : Nat}
    (lo : start ≤ offset) (hi : offset ≤ start + utf8Length line) :
    isRemoved (removals cs .structured t.markerSpans) offset = true ↔
      Around cs t offset ∨ offset < start + min (amount cs t start) (indented line) := by
  have parts : removals cs .structured t.markerSpans = removals cs .lines t.markerSpans ++
      ((t.markerSpans.regions.flatMap (excesses cs)).map (·.1)).eraseDups.map fun start =>
        ⟨start, start + min (amount cs t start) (indentation cs start)⟩ := rfl
  rw [← isRemoved_lines ht, parts, isRemoved_iff, isRemoved_iff]
  simp only [List.mem_append, or_and_right, exists_or]
  refine or_congr_right ⟨?_, fun lt => ?_⟩
  · rintro ⟨s, hs, lo', hi'⟩
    obtain ⟨start', hstart, rfl⟩ := List.mem_map.mp hs
    obtain ⟨⟨_, extra⟩, he, rfl⟩ := List.mem_map.mp (List.mem_eraseDups.mp hstart)
    obtain ⟨region, hregion, he⟩ := List.mem_flatMap.mp he
    rw [Tree.regions_markerSpans] at hregion
    obtain ⟨u, hu, region_eq⟩ := List.mem_filterMap.mp hregion
    obtain ⟨head, last, standing⟩ :=
      standing_of_holds ht ((Tree.mem_parts u t).mp hu) (Tree.isRegion_of_region? region_eq)
    obtain rfl := Option.some.inj (standing.encloses.region?_eq.symm.trans region_eq)
    obtain ⟨⟨line', isLine'⟩, -⟩ := (mem_excesses standing).mp he
    dsimp only at lo' hi' isLine'
    rw [isLine'.indentation_eq] at hi'
    have within := indented_le line'
    obtain rfl := isLine.unique isLine' lo hi lo' (by omega)
    rwa [isLine.line_unique isLine']
  · have some : (t.markerSpans.regions.flatMap (excesses cs)).filter (·.1 == start) ≠ [] := by
      intro none
      have zero : amount cs t start = 0 := by
        unfold amount
        rw [none]
        rfl
      omega
    obtain ⟨e, he⟩ := List.exists_mem_of_ne_nil _ some
    obtain ⟨he, same⟩ := List.mem_filter.mp he
    have mem : start ∈ ((t.markerSpans.regions.flatMap (excesses cs)).map (·.1)).eraseDups :=
      List.mem_eraseDups.mpr (List.mem_map.mpr ⟨e, he, by simpa using same⟩)
    refine ⟨_, List.mem_map.mpr ⟨start, mem, rfl⟩, lo, ?_⟩
    rw [isLine.indentation_eq]
    exact lt

end Gobbling

end Stencil
