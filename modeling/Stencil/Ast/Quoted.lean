import Stencil.Source

/-!
# Strings in double quotes

Inside double quotes a quote is written with a backslash. Taking the backslashes away keeps, for every
byte that is left and for the end, the offset that it came from. Main statements: there is one offset
more than bytes, and a text whose quotes were escaped comes back.
-/

namespace Stencil.Quoted

/-- Takes away the backslashes before quotes of a text that starts at `offset`; the second part lists
where the bytes of the first came from, and where the text ends. -/
def unescape (offset : Nat) : List Char → List Char × List Nat
  | [] => ([], [offset])
  | '\\' :: '"' :: cs =>
    let (content, origins) := unescape (offset + 2) cs
    ('"' :: content, offset :: origins)
  | c :: cs =>
    let (content, origins) := unescape (offset + c.utf8Size) cs
    (c :: content, (List.range c.utf8Size).map (offset + ·) ++ origins)

def escape : List Char → List Char
  | [] => []
  | c :: cs => if c = '"' then '\\' :: '"' :: escape cs else c :: escape cs

/-- There is an offset for every byte and one for the end. -/
theorem length_origins (offset : Nat) (cs : List Char) :
    (unescape offset cs).2.length = utf8Length (unescape offset cs).1 + 1 := by
  fun_induction unescape offset cs with
  | case1 => rfl
  | case2 offset cs content origins h ih =>
    rw [h] at ih
    simp only [List.length_cons, utf8Length_cons] at ih ⊢
    have : ('"' : Char).utf8Size = 1 := rfl
    omega
  | case3 offset c cs _ content origins h ih =>
    rw [h] at ih
    simp only [List.length_append, List.length_map, List.length_range, utf8Length_cons] at ih ⊢
    omega

/-- No escaped text starts with a quote. -/
theorem escape_ne_quote_cons (cs ds : List Char) : escape cs ≠ '"' :: ds := by
  cases cs with
  | nil => simp [escape]
  | cons c cs =>
    by_cases hc : c = '"' <;> simp [escape, hc]

/-- An escaped text comes back. -/
theorem unescape_escape (offset : Nat) (cs : List Char) : (unescape offset (escape cs)).1 = cs := by
  induction cs generalizing offset with
  | nil => rfl
  | cons c cs ih =>
    by_cases hc : c = '"'
    · simp [escape, hc, unescape, ih]
    · simp only [escape, if_neg hc]
      rw [unescape.eq_3]
      · simp [ih]
      · exact fun ds _ h => escape_ne_quote_cons cs ds h

end Stencil.Quoted
