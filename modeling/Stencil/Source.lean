/-!
# Sources and positions

A source is a named text. Places in it are offsets in bytes of its UTF-8 form; a position adds the line
and the column that a reader counts, both from one.
-/

namespace Stencil

/-- A range of bytes, `stop` excluded. -/
structure Span where
  start : Nat
  stop : Nat
  deriving Repr, DecidableEq, Inhabited

def Span.length (s : Span) : Nat := s.stop - s.start

/-- A template's text under the template's name. -/
structure Source where
  name : String
  text : String
  deriving Repr, DecidableEq, Inhabited

/-- A place in the template of the given name. -/
structure Position where
  template : String
  line : Nat
  column : Nat
  span : Span
  deriving Repr, DecidableEq, Inhabited

def Position.display (p : Position) : String := s!"{p.template}:{p.line}:{p.column}"

def utf8Length (cs : List Char) : Nat := cs.foldr (fun c n => c.utf8Size + n) 0

@[simp] theorem utf8Length_nil : utf8Length [] = 0 := rfl

@[simp] theorem utf8Length_cons (c : Char) (cs : List Char) :
    utf8Length (c :: cs) = c.utf8Size + utf8Length cs := by
  simp [utf8Length]

@[simp] theorem utf8Length_append (cs ds : List Char) :
    utf8Length (cs ++ ds) = utf8Length cs + utf8Length ds := by
  induction cs with
  | nil => simp
  | cons c cs ih => simp [ih, Nat.add_assoc]

def takeBytes : Nat → List Char → List Char
  | _, [] => []
  | n, c :: cs => if n < c.utf8Size then [] else c :: takeBytes (n - c.utf8Size) cs

/-- The characters after those that fit into the first `n` bytes. -/
def dropBytes : Nat → List Char → List Char
  | _, [] => []
  | n, c :: cs => if n < c.utf8Size then c :: cs else dropBytes (n - c.utf8Size) cs

/-- The two parts make up the whole. -/
theorem takeBytes_append_dropBytes (n : Nat) (cs : List Char) :
    takeBytes n cs ++ dropBytes n cs = cs := by
  induction cs generalizing n with
  | nil => rfl
  | cons c cs ih =>
    simp only [takeBytes, dropBytes]
    split
    · rfl
    · simp [ih]

/-- A part that ends between two characters is taken exactly. -/
theorem takeBytes_append (cs ds : List Char) : takeBytes (utf8Length cs) (cs ++ ds) = cs := by
  induction cs with
  | nil =>
    cases ds with
    | nil => rfl
    | cons d ds => simp [takeBytes, Char.utf8Size_pos]
  | cons c cs ih => simp [takeBytes, ih]

def slice (cs : List Char) (s : Span) : List Char := takeBytes s.length (dropBytes s.start cs)

/-- The line and column after the characters `read`, which start at the given ones. -/
def lineColumnAfter : Nat × Nat → List Char → Nat × Nat
  | at_, [] => at_
  | (line, column), c :: cs =>
    lineColumnAfter (if c = '\n' then (line + 1, 1) else (line, column + 1)) cs

/-- The line and column of the byte at `offset`; inside a character they are the character's. -/
def lineColumn (cs : List Char) (offset : Nat) : Nat × Nat :=
  lineColumnAfter (1, 1) (takeBytes offset cs)

/-- The line is one more than the number of line feeds before. -/
theorem lineColumnAfter_fst (l c : Nat) (cs : List Char) :
    (lineColumnAfter (l, c) cs).1 = l + cs.count '\n' := by
  induction cs generalizing l c with
  | nil => rfl
  | cons d cs ih =>
    by_cases hd : d = '\n'
    · simp [lineColumnAfter, hd, ih]; omega
    · simp [lineColumnAfter, hd, ih]

/-- Without a line feed the column moves on by one for every character. -/
theorem lineColumnAfter_of_not_mem {l c : Nat} {cs : List Char} (h : '\n' ∉ cs) :
    lineColumnAfter (l, c) cs = (l, c + cs.length) := by
  induction cs generalizing c with
  | nil => rfl
  | cons d cs ih =>
    have hd : d ≠ '\n' := fun e => h (by simp [e])
    simp only [lineColumnAfter, if_neg hd]
    rw [ih fun hm => h (by simp [hm])]
    simp only [List.length_cons]
    rw [Nat.add_right_comm, Nat.add_assoc]

end Stencil
