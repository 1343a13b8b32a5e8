import Stencil.Proofs.Misreading
import Stencil.Proofs.Reading.Trees

/-!
# Where the bytes of strings come from

What is left of a string without its backslashes comes byte by byte from the string as it was written, and of a string
in a string, however deep, byte by byte from the template. Main statements: `Quoted.traces_unescape`, for one string,
and `Quoted.origins_exact`, for strings in strings.
-/

namespace Stencil

/-! ### Bytes -/

/-- The bytes of characters in UTF-8. -/
def utf8Bytes (cs : List Char) : List UInt8 := cs.flatMap String.utf8EncodeChar

lemma utf8Bytes_cons (c : Char) (cs : List Char) : utf8Bytes (c :: cs) = String.utf8EncodeChar c ++ utf8Bytes cs := rfl

lemma utf8Bytes_append (cs ds : List Char) : utf8Bytes (cs ++ ds) = utf8Bytes cs ++ utf8Bytes ds :=
  List.flatMap_append

lemma length_utf8Bytes (cs : List Char) : (utf8Bytes cs).length = utf8Length cs := by
  induction cs with
  | nil => rfl
  | cons c cs ih => rw [utf8Bytes_cons, List.length_append, String.length_utf8EncodeChar, ih, utf8Length_cons]

lemma getElem?_utf8Bytes_of_lt {c : Char} {k : Nat} (h : k < c.utf8Size) (cs : List Char) :
    (utf8Bytes (c :: cs))[k]? = (String.utf8EncodeChar c)[k]? := by
  rw [utf8Bytes_cons, List.getElem?_append_left (by rwa [String.length_utf8EncodeChar])]

lemma getElem?_utf8Bytes_add (cs ds : List Char) (k : Nat) :
    (utf8Bytes (cs ++ ds))[utf8Length cs + k]? = (utf8Bytes ds)[k]? := by
  rw [utf8Bytes_append, List.getElem?_append_right (by rw [length_utf8Bytes]; exact Nat.le_add_right _ _),
    length_utf8Bytes, Nat.add_sub_cancel_left]

lemma getElem?_utf8Bytes_cons_add (c : Char) (cs : List Char) (k : Nat) :
    (utf8Bytes (c :: cs))[c.utf8Size + k]? = (utf8Bytes cs)[k]? :=
  getElem?_utf8Bytes_add [c] cs k

lemma lt_of_getElem?_utf8Bytes {k : Nat} {cs : List Char} {b : UInt8} (h : (utf8Bytes cs)[k]? = some b) :
    k < utf8Length cs := by
  rw [← length_utf8Bytes]
  exact (List.getElem?_eq_some_iff.mp h).1

/-! ### One string -/

namespace Quoted

/-- Whether a backslash before a quote stands at an offset of a text. -/
def EscapeAt (cs : List Char) (o : Nat) : Prop := ∃ front back, cs = front ++ '\\' :: '"' :: back ∧ o = utf8Length front

section

variable {c : Char} {cs : List Char} {o : Nat}

lemma escapeAt_cons_add : EscapeAt (c :: cs) (c.utf8Size + o) ↔ EscapeAt cs o := by
  constructor
  · rintro ⟨front, back, parts, offset⟩
    cases front with
    | nil =>
      have := c.utf8Size_pos
      rw [utf8Length_nil] at offset
      omega
    | cons d front =>
      obtain ⟨rfl, rest⟩ := List.cons.inj parts
      rw [utf8Length_cons] at offset
      exact ⟨front, back, rest, Nat.add_left_cancel offset⟩
  · rintro ⟨front, back, rfl, rfl⟩
    exact ⟨c :: front, back, rfl, rfl⟩

/-- Inside the first character of a text, nothing is escaped but the quote after a backslash. -/
lemma escapeAt_cons_of_lt (h : o < c.utf8Size) :
    EscapeAt (c :: cs) o ↔ o = 0 ∧ c = '\\' ∧ ∃ ds, cs = '"' :: ds := by
  constructor
  · rintro ⟨front, back, parts, rfl⟩
    cases front with
    | nil =>
      obtain ⟨rfl, rest⟩ := List.cons.inj parts
      exact ⟨rfl, rfl, back, rest⟩
    | cons d front =>
      obtain ⟨rfl, -⟩ := List.cons.inj parts
      rw [utf8Length_cons] at h
      omega
  · rintro ⟨rfl, rfl, ds, rfl⟩
    exact ⟨[], ds, rfl, rfl⟩

/-- Whether the quote behind a backslash stands at an offset of a text. -/
def EscapedAt (cs : List Char) (o : Nat) : Prop := ∃ m, o = m + 1 ∧ EscapeAt cs m

/-- Behind a first character that escapes nothing, the text goes on as before. -/
lemma escapedAt_cons_add (h : ∀ ds, c = '\\' → cs ≠ '"' :: ds) :
    EscapedAt (c :: cs) (c.utf8Size + o) ↔ EscapedAt cs o := by
  constructor
  · rintro ⟨m, offset, escape⟩
    by_cases here : m < c.utf8Size
    · obtain ⟨-, backslash, ds, quote⟩ := (escapeAt_cons_of_lt here).mp escape
      exact absurd quote (h ds backslash)
    · obtain ⟨m, rfl⟩ := Nat.exists_eq_add_of_le (Nat.le_of_not_lt here)
      exact ⟨m, by omega, escapeAt_cons_add.mp escape⟩
  · rintro ⟨m, rfl, escape⟩
    exact ⟨c.utf8Size + m, rfl, escapeAt_cons_add.mpr escape⟩

/-- Behind a quote that is escaped, the text goes on as before. -/
lemma escapedAt_pair_add : EscapedAt ('\\' :: '"' :: cs) (o + 2) ↔ EscapedAt cs o := by
  have quote : ('"' : Char).utf8Size = 1 := rfl
  have later : EscapedAt ('"' :: cs) (o + 1) ↔ EscapedAt cs o := by
    rw [Nat.add_comm, ← quote]
    exact escapedAt_cons_add fun _ backslash => absurd backslash (by decide)
  rw [← later]
  constructor
  · rintro ⟨m, offset, escape⟩
    obtain ⟨m, rfl⟩ : ∃ k, m = 1 + k := ⟨o, by omega⟩
    exact ⟨m, by omega, escapeAt_cons_add.mp escape⟩
  · rintro ⟨m, offset, escape⟩
    exact ⟨1 + m, by omega, escapeAt_cons_add.mpr escape⟩

/-- No quote behind a backslash stands inside the first character. -/
lemma not_escapedAt_of_lt (h : o < c.utf8Size) : ¬EscapedAt (c :: cs) o := by
  rintro ⟨m, rfl, escape⟩
  obtain ⟨rfl, rfl, -⟩ := (escapeAt_cons_of_lt (Nat.lt_of_succ_lt h)).mp escape
  exact Nat.lt_irrefl _ h

lemma EscapeAt.byte (h : EscapeAt cs o) : (utf8Bytes cs)[o]? = some '\\'.toUInt8 := by
  obtain ⟨front, back, rfl, rfl⟩ := h
  exact getElem?_utf8Bytes_add front _ 0

end

/-- The byte that is left of the one at an offset of a text: it is the same, but for a backslash before a quote, of
which the quote is left. -/
inductive Leaves (raw : List Char) (o : Nat) : UInt8 → Prop
  | same {b : UInt8} : ¬EscapeAt raw o → (utf8Bytes raw)[o]? = some b → Leaves raw o b
  | quote : EscapeAt raw o → Leaves raw o '"'.toUInt8

lemma Leaves.cons {cs : List Char} {o : Nat} {b : UInt8} (h : Leaves cs o b) (c : Char) :
    Leaves (c :: cs) (c.utf8Size + o) b := by
  cases h with
  | same plain found => exact .same (mt escapeAt_cons_add.mp plain) ((getElem?_utf8Bytes_cons_add ..).trans found)
  | quote escaped => exact .quote (escapeAt_cons_add.mpr escaped)

lemma Leaves.byte {raw : List Char} {o : Nat} {b : UInt8} (h : Leaves raw o b) :
    ∃ x, (utf8Bytes raw)[o]? = some x ∧ (b = x ∨ b = '"'.toUInt8 ∧ x = '\\'.toUInt8) := by
  cases h with
  | same _ found => exact ⟨b, found, .inl rfl⟩
  | quote escape => exact ⟨_, escape.byte, .inr ⟨rfl, rfl⟩⟩

/-- The offsets `origins` tell exactly where the bytes of `content` come from, which is what is left of the text `raw`
without the backslashes before quotes. The text starts at `offset`. -/
structure Traces (offset : Nat) (raw content : List Char) (origins : List Nat) : Prop where
  length : origins.length = utf8Length content + 1
  increasing : origins.Pairwise (· < ·)
  last : origins.getLast? = some (offset + utf8Length raw)
  /-- All offsets of the text are listed but those of quotes behind backslashes. -/
  listed : ∀ o, offset + o ∈ origins ↔ o ≤ utf8Length raw ∧ ¬EscapedAt raw o
  byte : ∀ {k}, k < utf8Length content →
    ∃ o b, origins[k]? = some (offset + o) ∧ (utf8Bytes content)[k]? = some b ∧ Leaves raw o b
  /-- What starts with a character comes from what starts with a character. -/
  cut : ∀ {front back}, content = front ++ back →
    ∃ front' back', raw = front' ++ back' ∧ origins[utf8Length front]? = some (offset + utf8Length front')

/-- The bytes that are left are those of the text, but for the quotes. -/
lemma exists_byte (offset : Nat) (cs : List Char) {k : Nat} (h : k < utf8Length (unescape offset cs).1) :
    ∃ o b, (unescape offset cs).2[k]? = some (offset + o) ∧ (utf8Bytes (unescape offset cs).1)[k]? = some b ∧
      Leaves cs o b := by
  fun_induction unescape offset cs generalizing k with
  | case1 => cases h
  | case2 offset cs content origins hr ih =>
    have quote : ('"' : Char).utf8Size = 1 := rfl
    have backslash : ('\\' : Char).utf8Size = 1 := rfl
    cases k with
    | zero => exact ⟨0, _, rfl, rfl, .quote ⟨[], cs, rfl, rfl⟩⟩
    | succ k =>
      rw [hr] at ih
      rw [utf8Length_cons, quote] at h
      obtain ⟨o, b, origin, found, leaves⟩ := ih (Nat.lt_of_add_lt_add_left (Nat.add_comm k 1 ▸ h))
      refine ⟨2 + o, b, ?_, ?_, ?_⟩
      · rw [List.getElem?_cons_succ, origin, Nat.add_assoc]
      · rw [← found, Nat.add_comm k 1]
        exact getElem?_utf8Bytes_cons_add '"' content k
      · have shifted := (leaves.cons '"').cons '\\'
        rwa [quote, backslash, ← Nat.add_assoc] at shifted
  | case3 offset c cs plain content origins hr ih =>
    have length : ((List.range c.utf8Size).map (offset + ·)).length = c.utf8Size := by
      rw [List.length_map, List.length_range]
    by_cases here : k < c.utf8Size
    · have encoded : k < (String.utf8EncodeChar c).length := by rwa [String.length_utf8EncodeChar]
      have found (ds : List Char) : (utf8Bytes (c :: ds))[k]? = some (String.utf8EncodeChar c)[k] :=
        (getElem?_utf8Bytes_of_lt here ds).trans (List.getElem?_eq_getElem encoded)
      refine ⟨k, _, ?_, found content, .same ?_ (found cs)⟩
      · rw [List.getElem?_append_left (by rwa [length]), List.getElem?_map, List.getElem?_range here]
        rfl
      · rw [escapeAt_cons_of_lt here]
        rintro ⟨-, rfl, ds, rfl⟩
        exact plain ds rfl rfl
    · obtain ⟨k, rfl⟩ := Nat.exists_eq_add_of_le (Nat.le_of_not_lt here)
      rw [hr] at ih
      rw [utf8Length_cons] at h
      obtain ⟨o, b, origin, found, leaves⟩ := ih (Nat.lt_of_add_lt_add_left h)
      refine ⟨c.utf8Size + o, b, ?_, ?_, leaves.cons c⟩
      · rw [List.getElem?_append_right (by rw [length]; exact Nat.le_add_right _ _), length, Nat.add_sub_cancel_left,
          origin, Nat.add_assoc]
      · rw [getElem?_utf8Bytes_cons_add, found]

/-- The offsets that are listed are all but those of quotes behind backslashes. -/
lemma mem_origins_iff (offset : Nat) (cs : List Char) (o : Nat) :
    offset + o ∈ (unescape offset cs).2 ↔ o ≤ utf8Length cs ∧ ¬EscapedAt cs o := by
  fun_induction unescape offset cs generalizing o with
  | case1 offset =>
    have never : ¬EscapedAt [] o := by
      rintro ⟨m, -, front, back, parts, -⟩
      exact List.cons_ne_nil _ _ (List.append_eq_nil_iff.mp parts.symm).2
    rw [List.mem_singleton, utf8Length_nil, and_iff_left never]
    omega
  | case2 offset cs content origins hr ih =>
    have quote : ('"' : Char).utf8Size = 1 := rfl
    have backslash : ('\\' : Char).utf8Size = 1 := rfl
    rw [hr] at ih
    rw [List.mem_cons, utf8Length_cons, utf8Length_cons, quote, backslash]
    rcases o with _ | _ | o
    · exact iff_of_true (.inl rfl) ⟨Nat.zero_le _, not_escapedAt_of_lt backslash.ge⟩
    · refine iff_of_false ?_ fun known => known.2 ⟨0, rfl, [], cs, rfl, rfl⟩
      rintro (same | later)
      · omega
      · have := (le_of_mem_origins (hr ▸ later : offset + 1 ∈ (unescape (offset + 2) cs).2)).1
        omega
    · have here : offset + (o + 2) = offset + 2 + o := by omega
      rw [here, ih, escapedAt_pair_add]
      constructor
      · rintro (same | ⟨le, plain⟩)
        · omega
        · exact ⟨by omega, plain⟩
      · rintro ⟨le, plain⟩
        exact .inr ⟨by omega, plain⟩
  | case3 offset c cs plain content origins hr ih =>
    rw [hr] at ih
    rw [List.mem_append, utf8Length_cons]
    by_cases here : o < c.utf8Size
    · refine iff_of_true (.inl ?_) ⟨by omega, not_escapedAt_of_lt here⟩
      exact List.mem_map.mpr ⟨o, List.mem_range.mpr here, rfl⟩
    · obtain ⟨o, rfl⟩ := Nat.exists_eq_add_of_le (Nat.le_of_not_lt here)
      have outside : offset + (c.utf8Size + o) ∉ (List.range c.utf8Size).map (offset + ·) := by
        rintro h
        obtain ⟨k, hk, same⟩ := List.mem_map.mp h
        have := List.mem_range.mp hk
        omega
      have shifted : EscapedAt (c :: cs) (c.utf8Size + o) ↔ EscapedAt cs o :=
        escapedAt_cons_add fun ds backslash quote => plain ds backslash quote
      rw [or_iff_right outside, ← Nat.add_assoc, ih, shifted, Nat.add_le_add_iff_left]

/-- What taking the backslashes away leaves, and where it comes from. -/
theorem traces_unescape (offset : Nat) (raw : List Char) :
    Traces offset raw (unescape offset raw).1 (unescape offset raw).2 where
  length := length_origins offset raw
  increasing := pairwise_origins offset raw
  last := getLast?_origins offset raw
  listed := mem_origins_iff offset raw
  byte := exists_byte offset raw
  cut := exists_origin

end Quoted

/-! ### Strings in strings -/

/-- The bytes of a text that is read for a source, inside the given strings, come in order from the source: byte by
byte, but for the quotes that are written with backslashes, which come from these. Offsets past the end of the text
lead to its end. -/
structure Source.Traces (s : Source) (literals : List Span) (site : Site) (text : List Char) : Prop where
  monotone : ∀ {a b}, a ≤ b → site.absolute a ≤ site.absolute b
  strict : ∀ {a b}, a < b → b ≤ utf8Length text → site.absolute a < site.absolute b
  inside : ∀ offset, ∀ l ∈ literals, l.start ≤ site.absolute offset ∧ site.absolute offset ≤ l.stop
  byte : ∀ {k}, k < utf8Length text → ∃ b origin, (utf8Bytes text)[k]? = some b ∧
    (utf8Bytes s.text.toList)[site.absolute k]? = some origin ∧
    (b = origin ∨ b = '"'.toUInt8 ∧ origin = '\\'.toUInt8)
  cut : ∀ {front back}, text = front ++ back → ∃ front' back', s.text.toList = front' ++ back' ∧
    site.absolute (utf8Length front) = utf8Length front'

/-- Behind the end of the content of a string, all offsets lead to its end. -/
lemma Site.absolute_within_of_le (site : Site) {origins : List Nat} {stop a : Nat} (hl : origins.length = stop + 1)
    (ha : stop ≤ a) : (site.within origins).absolute a = (site.within origins).absolute stop := by
  rcases Nat.eq_or_lt_of_le ha with rfl | beyond
  · rfl
  · have size : (origins.map site.absolute).toArray.size = stop + 1 := by
      rw [List.size_toArray, List.length_map, hl]
    have none_ : (origins.map site.absolute).toArray[a]? = none := Array.getElem?_eq_none (by omega)
    have some_ : (origins.map site.absolute).toArray[stop]? = some _ := Array.getElem?_eq_getElem (by omega)
    show ((origins.map site.absolute).toArray[a]? <|> (origins.map site.absolute).toArray.back?).getD a =
      ((origins.map site.absolute).toArray[stop]? <|> _).getD stop
    rw [none_, Array.back?_eq_getElem?, size, Nat.add_sub_cancel, some_]
    rfl

namespace Source.Reads

variable {s : Source} {literals : List Span} {site : Site} {text : List Char}

/-- Offsets past the end of the content of a string lead to its end. -/
lemma absolute_of_le (h : s.Reads literals site text) (hl : literals ≠ []) {a : Nat} (ha : utf8Length text ≤ a) :
    site.absolute a = site.absolute (utf8Length text) := by
  cases h with
  | whole => exact absurd rfl hl
  | @content _ site _ word _ origins _ c _ _ _ _ _ _ hu =>
    have length := Quoted.length_origins (c.offset + 1) word
    rw [hu] at length
    exact site.absolute_within_of_le length ha

lemma monotone (h : s.Reads literals site text) {a b : Nat} (hab : a ≤ b) : site.absolute a ≤ site.absolute b := by
  obtain ⟨quoted, mapped⟩ := h.mapped
  by_cases plain : literals = []
  · subst plain
    obtain ⟨rfl, -⟩ := h.eq_of_nil
    exact hab
  · rcases Nat.le_total b (utf8Length text) with within | beyond
    · exact mapped.regular.absolute_le hab within
    · rw [h.absolute_of_le plain beyond]
      rcases Nat.le_total a (utf8Length text) with within | beyond'
      · exact mapped.regular.absolute_le within (Nat.le_refl _)
      · rw [h.absolute_of_le plain beyond']

/-- Every offset leads inside of all strings that the text is in. -/
lemma inside_offset (h : s.Reads literals site text) (offset : Nat) :
    ∀ l ∈ literals, l.start ≤ site.absolute offset ∧ site.absolute offset ≤ l.stop := by
  intro l hl
  have inside := h.inside l hl
  refine ⟨inside.start.trans (h.monotone (Nat.zero_le _)), ?_⟩
  rcases Nat.le_total offset (utf8Length text) with within | beyond
  · exact (h.monotone within).trans inside.stop
  · rw [h.absolute_of_le (List.ne_nil_of_mem hl) beyond]
    exact inside.stop

/-- Every byte comes from the same one of the source, or is a quote that comes from a backslash. -/
lemma exists_origin (h : s.Reads literals site text) {k : Nat} (hk : k < utf8Length text) :
    ∃ b origin, (utf8Bytes text)[k]? = some b ∧ (utf8Bytes s.text.toList)[site.absolute k]? = some origin ∧
      (b = origin ∨ b = '"'.toUInt8 ∧ origin = '\\'.toUInt8) := by
  induction h generalizing k with
  | whole =>
    have found := List.getElem?_eq_getElem (by rwa [length_utf8Bytes] : k < (utf8Bytes s.text.toList).length)
    exact ⟨_, _, found, found, .inl rfl⟩
  | @content literals site text word content origins t c d us reads ht holds hword hu ih =>
    obtain ⟨front, back, parts, start, -⟩ := holds.quoted ht hword
    have quote : utf8Length (front ++ ['"']) = c.offset + 1 := by
      rw [utf8Length_append, start]
      rfl
    have traces := Quoted.traces_unescape (c.offset + 1) word
    rw [hu] at traces
    obtain ⟨o, b, listed, found, leaves⟩ := traces.byte hk
    obtain ⟨x, hx, same⟩ := leaves.byte
    have inside := lt_of_getElem?_utf8Bytes hx
    -- the byte of the text around the string that this one comes from
    have around : (utf8Bytes text)[c.offset + 1 + o]? = some x := by
      rw [← hx, parts, ← quote, List.append_assoc, getElem?_utf8Bytes_add, utf8Bytes_append,
        List.getElem?_append_left (by rwa [length_utf8Bytes])]
    obtain ⟨y, origin, hy, source, kept⟩ := ih (lt_of_getElem?_utf8Bytes around)
    obtain rfl : x = y := Option.some.inj (around.symm.trans hy)
    refine ⟨b, origin, found, by rwa [site.absolute_within listed], ?_⟩
    rcases same with rfl | ⟨rfl, rfl⟩
    · exact kept
    · rcases kept with rfl | ⟨other, -⟩
      · exact .inr ⟨rfl, rfl⟩
      · exact absurd other (by decide)

lemma traces (h : s.Reads literals site text) : s.Traces literals site text := by
  obtain ⟨quoted, mapped⟩ := h.mapped
  refine ⟨h.monotone, mapped.regular.strict, h.inside_offset, h.exists_origin, fun parts => ?_⟩
  obtain ⟨front', back', chars, cut⟩ := mapped.cut parts
  rw [mapped.chars, h.source] at chars
  exact ⟨front', back', chars, cut⟩

end Source.Reads

/-- The strings in double quotes that are found in a text, as they are written. -/
def stringsIn (text : List Char) : List (List Char) :=
  match readTree text with
  | .ok t => (t.parts.filter (·.rule = .dqString)).map fun u => u.start.upTo u.stop
  | .error _ => []

/-- Where what is written in a string is found in a text that is read, it is read in its turn. -/
lemma Source.Reads.of_mem_stringsIn {s : Source} {literals : List Span} {site : Site} {text content : List Char}
    (h : s.Reads literals site text) (hc : '"' :: Quoted.escape content ++ ['"'] ∈ stringsIn text) :
    ∃ literal site', s.Reads (literal :: literals) site' content := by
  unfold stringsIn at hc
  split at hc
  · next t ht =>
    obtain ⟨⟨r, c, d, us⟩, hu, written⟩ := List.mem_map.mp hc
    obtain ⟨mem, hr⟩ := List.mem_filter.mp hu
    obtain rfl : r = .dqString := of_decide_eq_true hr
    exact ⟨_, _, h.content ht ((Tree.mem_parts _ t).mp mem) written (Prod.ext (Quoted.unescape_escape _ _) rfl)⟩
  · cases hc

/-- **Origins are exact.** Taking the backslashes before quotes away leaves a text with one origin for every byte and
one for the end, from which everything that is left comes in order; escaping a text's quotes and taking the
backslashes away gives the text back; and where strings are read in strings, however deep, the composed origins of
what is read stay in order, and inside of all strings around it. -/
theorem Quoted.origins_exact :
    (∀ offset raw, Traces offset raw (unescape offset raw).1 (unescape offset raw).2) ∧
      (∀ offset text, (unescape offset (escape text)).1 = text) ∧
      ∀ s literals site text, Source.Reads s literals site text → s.Traces literals site text :=
  ⟨traces_unescape, unescape_escape, fun _ _ _ _ reads => reads.traces⟩

/-- A string in a string, behind characters of several bytes. -/
theorem Quoted.origins_exact_nested : ∃ literals site,
    Source.Reads ⟨"t", "é#set($a = \"x$b[\\\"é$c\\\"]\")"⟩ literals site "é$c".toList ∧ literals.length = 2 ∧
      Source.Traces ⟨"t", "é#set($a = \"x$b[\\\"é$c\\\"]\")"⟩ literals site "é$c".toList := by
  have outer : '"' :: Quoted.escape "x$b[\"é$c\"]".toList ++ ['"'] ∈
      stringsIn "é#set($a = \"x$b[\\\"é$c\\\"]\")".toList := by
    decide +kernel
  have inner : '"' :: Quoted.escape "é$c".toList ++ ['"'] ∈ stringsIn "x$b[\"é$c\"]".toList := by
    decide +kernel
  have reads := Source.Reads.whole (s := ⟨"t", "é#set($a = \"x$b[\\\"é$c\\\"]\")"⟩)
  obtain ⟨_, _, reads⟩ := reads.of_mem_stringsIn outer
  obtain ⟨_, _, reads⟩ := reads.of_mem_stringsIn inner
  exact ⟨_, _, reads, rfl, Quoted.origins_exact.2.2 _ _ _ _ reads⟩

end Stencil
