import Stencil.Text.CaseTable

/-!
# Upper and lower case of a text

The full case maps: a character may map to several, and a sigma that ends a word has a lower case of
its own. ASCII letters map as usual.
-/

namespace Stencil.Text

private def inCaseRanges (ranges : List (Nat × Nat)) (n : Nat) : Bool :=
  ranges.any fun r => r.1 ≤ n && n ≤ r.2

private def mapByRuns (runs : List CaseRun) (c : Char) : Char :=
  match runs.findSome? (·.image? c.toNat) with
  | some n => Char.ofNat n
  | none => c

def upperChar (c : Char) : List Char :=
  if c.toNat < 0x80 then [c.toUpper]
  else
    match upperSequences.lookup c.toNat with
    | some ns => ns.map Char.ofNat
    | none => [mapByRuns upperRuns c]

def lowerChar (c : Char) : List Char :=
  if c.toNat < 0x80 then [c.toLower]
  else if c == 'İ' then ['i', '\u0307']
  else [mapByRuns lowerRuns c]

/-- The cased characters are those with an upper, lower or title case form. -/
def isCased (c : Char) : Bool :=
  c.isAlpha || inCaseRanges casedRanges c.toNat

/-- The characters that do not interrupt a word of cased characters. -/
def isCaseIgnorable (c : Char) : Bool := inCaseRanges caseIgnorableRanges c.toNat

private def meetsCased (cs : List Char) : Bool :=
  match cs.dropWhile isCaseIgnorable with
  | [] => false
  | c :: _ => isCased c

def upper (cs : List Char) : List Char := cs.flatMap upperChar

private def lowerAfter : List Char → List Char → List Char
  | _, [] => []
  | before, c :: cs =>
    let image :=
      if c == 'Σ' then
        if meetsCased before && !meetsCased cs then ['ς'] else ['σ']
      else lowerChar c
    image ++ lowerAfter (c :: before) cs

/-- The lower case of a text; a `Σ` that ends a word becomes `ς`, any other `σ`. -/
def lower (cs : List Char) : List Char := lowerAfter [] cs

def capitalize : List Char → List Char
  | [] => []
  | c :: cs => upperChar c ++ cs

private theorem mem_upperSequences {n : Nat} {ns : List Nat} (h : upperSequences.lookup n = some ns) :
    (n, ns) ∈ upperSequences := by
  obtain ⟨before, after, split, -⟩ := List.lookup_eq_some_iff.mp h
  rw [split]
  exact List.mem_append_right _ (List.mem_cons_self ..)

/-- Runs of upper case lead beyond the letters of ASCII. -/
private theorem lt_image_upperRuns {n m : Nat} (h : upperRuns.findSome? (·.image? n) = some m) : 'E'.toNat < m := by
  have far : ∀ run ∈ upperRuns, ('E'.toNat : Int) < run.first + run.offset := by decide +kernel
  obtain ⟨run, there, image⟩ := List.exists_of_findSome?_eq_some h
  have lt := far run there
  unfold CaseRun.image? at image
  split at image
  · next inside =>
    cases image
    omega
  · cases image

private theorem toNat_ofNat (n : Nat) : (Char.ofNat n).toNat = n ∨ (Char.ofNat n).toNat = 0 := by
  unfold Char.ofNat
  by_cases h : n.isValidChar
  · rw [dif_pos h]
    exact .inl rfl
  · rw [dif_neg h]
    exact .inr rfl

/-- The only characters whose upper case starts with an `E` are its own two forms. -/
theorem eq_of_head?_upperChar {c : Char} (h : (upperChar c).head? = some 'E') : c = 'e' ∨ c = 'E' := by
  have ascii : ∀ n < 0x80, (Char.ofNat n).toUpper = 'E' → Char.ofNat n = 'e' ∨ Char.ofNat n = 'E' := by decide
  have sequences : ∀ e ∈ upperSequences, (e.2.map Char.ofNat).head? ≠ some 'E' := by decide +kernel
  unfold upperChar at h
  split at h
  · next small =>
    rw [← c.ofNat_toNat] at h ⊢
    exact ascii _ small (Option.some.inj h)
  · next large =>
    split at h
    · next ns found =>
      exact absurd h (sequences _ (mem_upperSequences found))
    · have image := Option.some.inj h
      unfold mapByRuns at image
      split at image
      · next n found =>
        have number := toNat_ofNat n
        rw [image] at number
        rcases number with same | zero
        · exact absurd same (Nat.ne_of_lt (lt_image_upperRuns found))
        · cases zero
      · exact .inr image

theorem upperChar_ne_nil (c : Char) : upperChar c ≠ [] := by
  have sequences : ∀ e ∈ upperSequences, e.2.map Char.ofNat ≠ [] := by decide +kernel
  unfold upperChar
  split
  · nofun
  · split
    · next ns found =>
      exact sequences _ (mem_upperSequences found)
    · nofun

/-- What is capitalized to begin with an `E` begins with one of its forms. -/
theorem eq_of_capitalize {cs ds : List Char} (h : capitalize cs = 'E' :: ds) : cs = 'e' :: ds ∨ cs = 'E' :: ds := by
  cases cs with
  | nil => cases h
  | cons c cs =>
    have first : (upperChar c).head? = some 'E' := by
      cases hu : upperChar c with
      | nil => exact absurd hu (upperChar_ne_nil c)
      | cons u us =>
        rw [capitalize, hu] at h
        exact congrArg some (List.cons.inj h).1
    rcases eq_of_head?_upperChar first with rfl | rfl
    · exact .inl (congrArg ('e' :: ·) (List.cons.inj h).2)
    · exact .inr h

end Stencil.Text
