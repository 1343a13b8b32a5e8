import Mathlib.Data.List.Pairwise
import Stencil.Ast.Site
import Stencil.Proofs.Reading.Faithful

/-!
# Texts in templates

The content of a string is read as a text of its own, whose bytes lie in order in the template. Main
statements: `Quoted.pairwise_origins`, taking backslashes away keeps the order of what is left, and
`Site.Regular.within`, the site of a string's content covers the content as it was written.
-/

namespace Stencil

/-! ### Strings -/

namespace Quoted

lemma le_of_mem_origins {offset : Nat} {cs : List Char} {o : Nat} (h : o ∈ (unescape offset cs).2) :
    offset ≤ o ∧ o ≤ offset + utf8Length cs := by
  fun_induction unescape offset cs with
  | case1 =>
    obtain rfl := List.mem_singleton.mp h
    exact ⟨Nat.le_refl _, Nat.le_add_right _ _⟩
  | case2 offset cs content origins hr ih =>
    rw [hr] at ih
    simp only [utf8Length_cons]
    rcases List.mem_cons.mp h with rfl | h
    · omega
    · have bounds := ih h
      have : ('\\' : Char).utf8Size = 1 := rfl
      have : ('"' : Char).utf8Size = 1 := rfl
      omega
  | case3 offset c cs _ content origins hr ih =>
    rw [hr] at ih
    simp only [utf8Length_cons]
    rcases List.mem_append.mp h with h | h
    · obtain ⟨k, hk, rfl⟩ := List.mem_map.mp h
      have := List.mem_range.mp hk
      omega
    · have bounds := ih h
      omega

lemma pairwise_origins (offset : Nat) (cs : List Char) : (unescape offset cs).2.Pairwise (· < ·) := by
  fun_induction unescape offset cs with
  | case1 => exact List.pairwise_singleton _ _
  | case2 offset cs content origins hr ih =>
    refine List.pairwise_cons.mpr ⟨?_, by rwa [hr] at ih⟩
    intro o ho
    have bounds := le_of_mem_origins (hr ▸ ho : o ∈ (unescape (offset + 2) cs).2)
    omega
  | case3 offset c cs _ content origins hr ih =>
    refine List.pairwise_append.mpr ⟨?_, by rwa [hr] at ih, ?_⟩
    · rw [List.pairwise_map]
      exact List.pairwise_lt_range.imp fun h => by omega
    · intro x hx o ho
      obtain ⟨k, hk, rfl⟩ := List.mem_map.mp hx
      have bounds := le_of_mem_origins (hr ▸ ho : o ∈ (unescape (offset + c.utf8Size) cs).2)
      have := List.mem_range.mp hk
      omega

lemma head?_origins (offset : Nat) (cs : List Char) : (unescape offset cs).2.head? = some offset := by
  fun_cases unescape offset cs with
  | case1 => rfl
  | case2 => rfl
  | case3 c cs _ content origins hr =>
    obtain ⟨k, hk⟩ := Nat.exists_eq_add_one.mpr c.utf8Size_pos
    rw [hk, List.range_succ_eq_map]
    rfl

lemma getLast?_origins (offset : Nat) (cs : List Char) :
    (unescape offset cs).2.getLast? = some (offset + utf8Length cs) := by
  fun_induction unescape offset cs with
  | case1 => rfl
  | case2 offset cs content origins hr ih =>
    rw [hr] at ih
    rw [List.getLast?_cons, ih]
    have : ('\\' : Char).utf8Size = 1 := rfl
    have : ('"' : Char).utf8Size = 1 := rfl
    simp only [utf8Length_cons, Option.getD_some, Option.some.injEq]
    omega
  | case3 offset c cs _ content origins hr ih =>
    rw [hr] at ih
    rw [List.getLast?_append, ih, utf8Length_cons, Nat.add_assoc]
    rfl

end Quoted

/-! ### Stretches that were read -/

/-- Characters are the text of a source. -/
lemma Source.exists_ofList (name : String) (cs : List Char) :
    ∃ s : Source, s = ⟨name, String.ofList cs⟩ ∧ s.text.toList = cs := ⟨_, rfl, String.toList_ofList⟩

/-- A site whose text lies in order in the template; outside of strings the text is the template. -/
structure Site.Regular (site : Site) (quoted : Bool) (text : List Char) : Prop where
  strict : ∀ {a b}, a < b → b ≤ utf8Length text → site.absolute a < site.absolute b
  plain : quoted = false → site.origins = none ∧ site.chars = text

/-- A stretch of a site's text that was read as the characters `w`. -/
structure Site.Read (site : Site) (quoted : Bool) (text : List Char) (c d : Cursor) (w : List Char) :
    Prop where
  regular : site.Regular quoted text
  before : ∃ front, (Cursor.start text).Reaches c front
  reaches : c.Reaches d w

namespace Site

variable {site : Site} {quoted : Bool} {text w : List Char} {c d : Cursor}

lemma Regular.absolute_le (h : site.Regular quoted text) {a b : Nat} (hab : a ≤ b)
    (hb : b ≤ utf8Length text) : site.absolute a ≤ site.absolute b := by
  rcases Nat.lt_or_eq_of_le hab with lt | rfl
  · exact Nat.le_of_lt (h.strict lt hb)
  · exact Nat.le_refl _

lemma span_position (site : Site) (c d : Cursor) :
    (site.position c d).span = ⟨site.absolute c.offset, site.absolute d.offset⟩ := rfl

/-- Where a stretch lies in the text. -/
lemma Read.parts (h : site.Read quoted text c d w) :
    ∃ front, text = front ++ w ++ d.rest ∧ c.offset = utf8Length front ∧
      d.offset = utf8Length (front ++ w) := by
  obtain ⟨front, hr, ho⟩ := h.before
  obtain ⟨hw, hd⟩ := h.reaches
  have start : c.offset = utf8Length front := by simpa [Cursor.start] using ho
  refine ⟨front, ?_, start, ?_⟩
  · rw [List.append_assoc, ← hw]
    exact hr
  · rw [hd, start, utf8Length_append]

/-- Outside of strings, the position of a stretch spells it. -/
lemma Read.spells (h : site.Read quoted text c d w) (hq : quoted = false) :
    (site.position c d).span.Spells site.chars w := by
  obtain ⟨none, chars⟩ := h.regular.plain hq
  obtain ⟨front, htext, hc, hd⟩ := h.parts
  have absolute (offset : Nat) : site.absolute offset = offset := by
    unfold Site.absolute
    rw [none]
  refine ⟨front, d.rest, by rw [chars, htext], ?_⟩
  rw [span_position, absolute, absolute, hc, hd]

end Site

namespace Site

variable {site : Site} {quoted : Bool} {text : List Char}

lemma absolute_within (site : Site) {origins : List Nat} {k o : Nat} (h : origins[k]? = some o) :
    (site.within origins).absolute k = site.absolute o := by
  have found : (origins.map site.absolute).toArray[k]? = some (site.absolute o) := by
    rw [List.getElem?_toArray, List.getElem?_map, h]
    rfl
  show ((origins.map site.absolute).toArray[k]? <|> _).getD k = _
  rw [found]
  rfl

/-- The content of a string lies in order in the template, from where it starts to where it ends. -/
theorem Regular.within (h : site.Regular quoted text) {front w back content : List Char} {origins : List Nat}
    (ht : text = front ++ w ++ back)
    (hw : Quoted.unescape (utf8Length front) w = (content, origins)) :
    (site.within origins).Regular true content ∧
      (site.within origins).absolute 0 = site.absolute (utf8Length front) ∧
      (site.within origins).absolute (utf8Length content) = site.absolute (utf8Length (front ++ w)) := by
  have length := Quoted.length_origins (utf8Length front) w
  have ordered := Quoted.pairwise_origins (utf8Length front) w
  have first := Quoted.head?_origins (utf8Length front) w
  have last := Quoted.getLast?_origins (utf8Length front) w
  have bounds {o : Nat} (ho : o ∈ origins) : o ≤ utf8Length text := by
    have inside := Quoted.le_of_mem_origins (hw ▸ ho : o ∈ (Quoted.unescape (utf8Length front) w).2)
    rw [ht, utf8Length_append, utf8Length_append]
    omega
  rw [hw] at length ordered first last
  dsimp only at length ordered first last
  refine ⟨⟨?_, nofun⟩, ?_, ?_⟩
  · intro a b hab hb
    have hb' : b < origins.length := by omega
    have ha' : a < origins.length := by omega
    rw [site.absolute_within (List.getElem?_eq_getElem ha'),
      site.absolute_within (List.getElem?_eq_getElem hb')]
    exact h.strict (List.pairwise_iff_getElem.mp ordered a b ha' hb' hab) (bounds (List.getElem_mem hb'))
  · rw [List.head?_eq_getElem?] at first
    exact site.absolute_within first
  · rw [List.getLast?_eq_getElem?, length, Nat.add_sub_cancel] at last
    rw [site.absolute_within last, utf8Length_append]

end Site

end Stencil
