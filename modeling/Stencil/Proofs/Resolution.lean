import Stencil.Proofs.Confinement
import Stencil.Proofs.Cuts

/-!
# Where relative names lead

A path leads somewhere part by part: down into what is named, up again, or nowhere else. A relative name is to lead
where its parts lead from the directory of the template, and to be written without detours. Main statements:
`Place.foldl_follow`, what does the same at every detour does not tell a path from its normal form, and
`resolves_within`, where a relative name leads.
-/

namespace Stencil

/-! ### Places -/

/-- Whether a part of a path is a name, and not a part that stays or leads upwards. -/
def IsName (part : String) : Prop := part ≠ "" ∧ part ≠ "." ∧ part ≠ ".."

/-- A place as it is seen from a directory: so many steps up, and from there down to what is named, the last name
first. -/
structure Place where
  ups : Nat
  names : List String
  deriving DecidableEq

namespace Place

/-- The directory itself. -/
def here : Place := ⟨0, []⟩

/-- Where a part of a path leads: nothing and a dot lead nowhere else, two dots lead up to what is around, and a name
leads down to what is called so. -/
def step (p : Place) (part : String) : Place :=
  if part = "" ∨ part = "." then p
  else if part = ".." then
    match p.names with
    | [] => ⟨p.ups + 1, []⟩
    | _ :: names => ⟨p.ups, names⟩
  else ⟨p.ups, part :: p.names⟩

/-- Where the parts of a path lead, one after the other. -/
def follow (p : Place) (parts : List String) : Place := parts.foldl step p

/-- The path that leads to a place without detours. -/
def parts (p : Place) : List String := List.replicate p.ups ".." ++ p.names.reverse

end Place

/-- Whether a path has no empty parts and no dots, and steps upwards only in front. -/
def IsNormal (path : List String) : Prop :=
  ∃ ups names, path = List.replicate ups ".." ++ names ∧ ∀ name ∈ names, IsName name

/-- Whether a text is that of the normal form of a path: the normal path that leads to the same place. -/
def IsNormalForm (text : String) (path : List String) : Prop :=
  ∃ parts, text = "/".intercalate parts ∧ IsNormal parts ∧ Place.here.follow parts = Place.here.follow path

/-- A part of a path leads nowhere else, or upwards, or to a name. -/
lemma part_cases (part : String) : (part = "" ∨ part = ".") ∨ part = ".." ∨ IsName part := by
  unfold IsName
  tauto

/-! ### Detours -/

/-- A function that goes from one thing to another by the parts of a path, takes no part that leads nowhere else for a
step, and comes back from a name by a step upwards. -/
structure ComesBack {α : Type} (f : α → String → α) : Prop where
  stay : ∀ {x part}, part = "" ∨ part = "." → f x part = x
  back : ∀ {x name}, IsName name → f (f x name) ".." = x

lemma comesBack_addPart : ComesBack addPart where
  stay h := if_pos h
  back h := addPart_up_addPart _ h.1 h.2.1 h.2.2

lemma Place.step_name {p : Place} {name : String} (h : IsName name) : p.step name = ⟨p.ups, name :: p.names⟩ := by
  have stays : ¬(name = "" ∨ name = ".") := not_or.mpr ⟨h.1, h.2.1⟩
  rw [step, if_neg stays, if_neg h.2.2]

lemma comesBack_step : ComesBack Place.step where
  stay h := if_pos h
  back h := by
    rw [Place.step_name h]
    rfl

namespace Place

lemma follow_append (p : Place) (xs ys : List String) : p.follow (xs ++ ys) = (p.follow xs).follow ys :=
  List.foldl_append

/-- Only names lead down, those of the path. -/
lemma isName_follow (path : List String) : ∀ name ∈ (here.follow path).names, IsName name ∧ name ∈ path := by
  induction path using List.reverseRecOn with
  | nil => exact nofun
  | append_singleton path part ih =>
    have before : ∀ name ∈ (here.follow path).names, IsName name ∧ name ∈ path ++ [part] :=
      fun name h => ⟨(ih name h).1, List.mem_append_left _ (ih name h).2⟩
    rw [follow_append]
    show ∀ name ∈ ((here.follow path).step part).names, _
    generalize here.follow path = p at before
    rcases part_cases part with stays | rfl | isName
    · rwa [comesBack_step.stay stays]
    · obtain ⟨ups, names⟩ := p
      cases names with
      | nil => exact nofun
      | cons name names => exact fun other h => before other (List.mem_cons_of_mem _ h)
    · rw [step_name isName]
      exact List.forall_mem_cons.mpr ⟨⟨isName, List.mem_append_right _ (List.mem_singleton_self _)⟩, before⟩

/-- What comes back from every name does not tell a path from the path without detours. -/
theorem foldl_follow {α : Type} {f : α → String → α} (h : ComesBack f) (path : List String) (x : α) :
    path.foldl f x = (here.follow path).parts.foldl f x := by
  induction path using List.reverseRecOn with
  | nil => rfl
  | append_singleton path part ih =>
    have named := isName_follow path
    rw [List.foldl_append, ih, follow_append]
    show f _ part = ((here.follow path).step part).parts.foldl f x
    generalize here.follow path = p at named ⊢
    rcases part_cases part with stays | rfl | isName
    · rw [h.stay stays, comesBack_step.stay stays]
    · obtain ⟨ups, names⟩ := p
      cases names with
      | nil =>
        show f ((List.replicate ups ".." ++ []).foldl f x) ".." = (List.replicate (ups + 1) ".." ++ []).foldl f x
        rw [List.append_nil, List.append_nil, List.replicate_succ', List.foldl_append]
        rfl
      | cons name names =>
        show f ((List.replicate ups ".." ++ (name :: names).reverse).foldl f x) ".." =
          (List.replicate ups ".." ++ names.reverse).foldl f x
        rw [List.reverse_cons, ← List.append_assoc, List.foldl_append]
        exact h.back (named name (List.mem_cons_self ..)).1
    · rw [step_name isName]
      show f _ part = (List.replicate p.ups ".." ++ (part :: p.names).reverse).foldl f x
      rw [List.reverse_cons, ← List.append_assoc, List.foldl_append]
      rfl

lemma follow_parts (path : List String) (p : Place) : p.follow path = p.follow (here.follow path).parts :=
  foldl_follow comesBack_step path p

lemma isNormal_parts (path : List String) : IsNormal (here.follow path).parts :=
  ⟨_, _, rfl, fun name h => (isName_follow path name (List.mem_reverse.mp h)).1⟩

/-- Names lead down. -/
lemma follow_names {names : List String} (h : ∀ name ∈ names, IsName name) (p : Place) :
    p.follow names = ⟨p.ups, names.reverse ++ p.names⟩ := by
  induction names generalizing p with
  | nil => rfl
  | cons name names ih =>
    obtain ⟨isName, others⟩ := List.forall_mem_cons.mp h
    show (p.step name).follow names = _
    rw [step_name isName, ih others, List.reverse_cons, List.append_assoc]
    rfl

lemma follow_ups (ups : Nat) : here.follow (List.replicate ups "..") = ⟨ups, []⟩ := by
  induction ups with
  | zero => rfl
  | succ ups ih =>
    rw [List.replicate_succ', follow_append, ih]
    rfl

/-- The path without detours leads to the place. -/
lemma parts_follow {path : List String} (h : IsNormal path) : (here.follow path).parts = path := by
  obtain ⟨ups, names, rfl, isName⟩ := h
  rw [follow_append, follow_ups, follow_names isName, parts, List.append_nil, List.reverse_reverse]

end Place

/-! ### The directory -/

/-- The parts of a template's name that say in which directory it is. -/
def directoryParts (current : String) : List String := (pathParts current).dropLast

/-- What so many steps upwards take away of a directory: the last parts of it, one for each step, up to a step upwards
that is a part of the directory itself. -/
structure TakesAway (directory : List String) (ups : Nat) (kept taken : List String) : Prop where
  parts : directory = kept ++ taken
  ordinary : ".." ∉ taken
  length : taken.length ≤ ups
  most : taken.length < ups → kept = [] ∨ kept.getLast? = some ".."

/-- The path to a place from what is kept of a directory, where so many of the steps upwards are done. -/
def Place.onto (p : Place) (kept : List String) (done : Nat) : List String :=
  kept ++ (List.replicate (p.ups - done) ".." ++ p.names.reverse)

/-- At the top, or behind a step upwards, every further one is kept. -/
lemma foldl_addPart_stuck {path : List String} (h : path = [] ∨ path.head? = some "..") (ups : Nat) :
    (List.replicate ups "..").foldl addPart path = List.replicate ups ".." ++ path := by
  induction ups generalizing path with
  | zero => rfl
  | succ ups ih =>
    have added : addPart path ".." = ".." :: path := by
      cases path with
      | nil => rfl
      | cons last rest =>
        obtain rfl : last = ".." := by simpa using h
        rfl
    rw [List.replicate_succ', List.append_assoc, ← List.replicate_succ', List.replicate_succ, List.foldl_cons, added,
      ih (.inr rfl)]
    rfl

/-- Steps upwards take parts of a directory away, and those for which there is none are kept. -/
lemma exists_takesAway (directory : List String) (ups : Nat) :
    ∃ kept taken, TakesAway directory ups kept taken ∧
      (List.replicate ups "..").foldl addPart directory.reverse =
        List.replicate (ups - taken.length) ".." ++ kept.reverse := by
  induction ups generalizing directory with
  | zero =>
    exact ⟨directory, [], ⟨(List.append_nil _).symm, List.not_mem_nil, Nat.le_refl _, nofun⟩, rfl⟩
  | succ ups ih =>
    by_cases stuck : directory = [] ∨ directory.getLast? = some ".."
    · refine ⟨directory, [], ⟨(List.append_nil _).symm, List.not_mem_nil, Nat.zero_le _, fun _ => stuck⟩, ?_⟩
      refine foldl_addPart_stuck ?_ (ups + 1)
      rwa [List.head?_reverse, List.reverse_eq_nil_iff]
    · obtain ⟨filled, last⟩ := not_or.mp stuck
      obtain ⟨front, part, rfl⟩ := (List.eq_nil_or_concat' directory).resolve_left filled
      rw [List.getLast?_concat, Option.some.injEq] at last
      obtain ⟨kept, taken, ⟨parts, ordinary, length, most⟩, climbed⟩ := ih front
      have longer : (taken ++ [part]).length = taken.length + 1 := List.length_append
      refine ⟨kept, taken ++ [part], ⟨?_, ?_, ?_, fun more => most (by omega)⟩, ?_⟩
      · rw [parts, List.append_assoc]
      · rw [List.mem_append, List.mem_singleton, not_or]
        exact ⟨ordinary, Ne.symm last⟩
      · omega
      · rw [longer, Nat.add_sub_add_right, ← climbed, List.reverse_append, List.replicate_succ, List.foldl_cons]
        have back : addPart (part :: front.reverse) ".." = front.reverse := by simp [addPart, last]
        exact congrArg (List.foldl addPart · _) back

lemma foldl_addPart_names {names : List String} (h : ∀ name ∈ names, IsName name) (path : List String) :
    names.foldl addPart path = names.reverse ++ path := by
  induction names generalizing path with
  | nil => rfl
  | cons name names ih =>
    obtain ⟨⟨full, noDot, noUp⟩, others⟩ := List.forall_mem_cons.mp h
    have added : addPart path name = name :: path := by simp [addPart, full, noDot, noUp]
    rw [List.foldl_cons, added, ih others, List.reverse_cons, List.append_assoc]
    rfl

/-- What a relative name means: the steps upwards of its normal form take parts of the directory away, as they stand,
and the names of it follow. -/
lemma exists_nameWithin_eq (current name : String) :
    ∃ kept taken, TakesAway (directoryParts current) (Place.here.follow (pathParts name)).ups kept taken ∧
      nameWithin current name = "/".intercalate ((Place.here.follow (pathParts name)).onto kept taken.length) := by
  have named (part : String) (h : part ∈ (Place.here.follow (pathParts name)).names) :=
    (Place.isName_follow (pathParts name) part h).1
  have same := Place.foldl_follow comesBack_addPart (pathParts name) (directoryParts current).reverse
  generalize Place.here.follow (pathParts name) = p at named same ⊢
  obtain ⟨kept, taken, takes, climbed⟩ := exists_takesAway (directoryParts current) p.ups
  refine ⟨kept, taken, takes, ?_⟩
  show "/".intercalate ((pathParts name).foldl addPart (directoryParts current).reverse).reverse = _
  rw [same, Place.parts, List.foldl_append, climbed,
    foldl_addPart_names fun name h => named name (List.mem_reverse.mp h), Place.onto]
  simp only [List.reverse_append, List.reverse_reverse, List.reverse_replicate, List.append_assoc]

/-! ### The same place -/

namespace Place

/-- How far below a directory a place is, or above it. -/
def height (p : Place) : Int := p.names.length - p.ups

lemma height_up (p : Place) : (p.step "..").height = p.height - 1 := by
  obtain ⟨ups, names⟩ := p
  cases names with
  | nil =>
    show (0 : Int) - (ups + 1 : Nat) = 0 - ups - 1
    omega
  | cons name names =>
    show (names.length : Int) - ups = (name :: names).length - ups - 1
    rw [List.length_cons]
    omega

lemma height_follow_ups (p : Place) (ups : Nat) : (p.follow (List.replicate ups "..")).height = p.height - ups := by
  induction ups generalizing p with
  | zero => exact (Int.sub_zero _).symm
  | succ ups ih =>
    show ((p.step "..").follow (List.replicate ups "..")).height = _
    rw [ih, height_up]
    omega

/-- Without steps upwards, a path leads down by all of its parts only if these are names. -/
lemma height_follow {path : List String} (h : ".." ∉ path) (p : Place) :
    (p.follow path).height ≤ p.height + path.length ∧
      ((p.follow path).height = p.height + path.length → ∀ part ∈ path, IsName part) := by
  induction path generalizing p with
  | nil => exact ⟨Int.le_of_eq (Int.add_zero p.height).symm, fun _ => nofun⟩
  | cons part path ih =>
    obtain ⟨other, later⟩ := List.ne_and_not_mem_of_not_mem_cons h
    have rest := ih later (p.step part)
    rw [show p.follow (part :: path) = (p.step part).follow path from rfl, List.length_cons]
    rcases part_cases part with stays | rfl | isName
    · rw [comesBack_step.stay stays] at rest ⊢
      exact ⟨by omega, fun same => by omega⟩
    · exact absurd rfl other
    · have lower : (p.step part).height = p.height + 1 := by
        rw [step_name isName]
        show ((part :: p.names).length : Int) - p.ups = p.names.length - p.ups + 1
        rw [List.length_cons]
        omega
      rw [lower] at rest
      refine ⟨by omega, fun same => List.forall_mem_cons.mpr ⟨isName, rest.2 (by omega)⟩⟩

/-- Steps upwards come back from names. -/
lemma follow_back {names : List String} (h : ∀ name ∈ names, IsName name) (p : Place) :
    (p.follow names).follow (List.replicate names.length "..") = p := by
  induction names generalizing p with
  | nil => rfl
  | cons name names ih =>
    obtain ⟨isName, others⟩ := List.forall_mem_cons.mp h
    rw [List.length_cons, List.replicate_succ', follow_append]
    show (((p.step name).follow names).follow (List.replicate names.length "..")).step ".." = p
    rw [ih others]
    exact comesBack_step.back isName

end Place

/-- With parts of the directory taken away for steps upwards, the place is the same exactly if these are names. -/
lemma TakesAway.same_place_iff {directory kept taken : List String} {p : Place}
    (h : TakesAway directory p.ups kept taken) (named : ∀ name ∈ p.names, IsName name) :
    Place.here.follow (p.onto kept taken.length) = Place.here.follow (directory ++ p.parts) ↔
      ∀ part ∈ taken, IsName part := by
  have named : ∀ name ∈ p.names.reverse, IsName name := fun name h => named name (List.mem_reverse.mp h)
  have inner {q r : Place} : q.follow p.names.reverse = r.follow p.names.reverse ↔ q = r := by
    rw [Place.follow_names named, Place.follow_names named]
    constructor
    · intro same
      obtain ⟨ups, names⟩ := Place.mk.inj same
      exact congr (congrArg Place.mk ups) (List.append_cancel_left names)
    · rintro rfl
      rfl
  have steps : List.replicate p.ups ".." =
      List.replicate taken.length ".." ++ List.replicate (p.ups - taken.length) ".." := by
    rw [← List.replicate_add, Nat.add_sub_cancel' h.length]
  rw [h.parts, Place.onto, Place.parts]
  simp only [Place.follow_append]
  rw [inner]
  constructor
  · intro same
    have heights := congrArg Place.height same
    rw [Place.height_follow_ups, Place.height_follow_ups] at heights
    have below := Place.height_follow h.ordinary (Place.here.follow kept)
    have := h.length
    exact below.2 (by omega)
  · intro named
    rw [steps, Place.follow_append, Place.follow_back named]

/-! ### Texts of paths -/

/-- Between slashes there are none. -/
lemma not_mem_of_mem_pathParts {path part : String} (h : part ∈ pathParts path) : '/' ∉ part.toList := by
  obtain ⟨chars, listed, rfl⟩ := List.mem_map.mp h
  rw [String.toList_ofList]
  intro slash
  obtain ⟨front, back, split⟩ := List.append_of_mem slash
  refine Text.not_infix_of_mem_splitOn (List.cons_ne_nil _ _) chars listed ⟨front, back, ?_⟩
  rw [split, List.append_assoc]
  rfl

lemma pathParts_of_not_mem {part : String} (h : '/' ∉ part.toList) : pathParts part = [part] := by
  have alone : ∀ {cs : List Char}, '/' ∉ cs → Text.splitOn ['/'] cs = [cs] := by
    intro cs
    induction cs with
    | nil => exact fun _ => Text.splitOn_slash_nil
    | cons c cs ih =>
      intro h
      obtain ⟨other, later⟩ := List.ne_and_not_mem_of_not_mem_cons h
      rw [Text.splitOn_slash_cons, if_neg other.symm, ih later]
      rfl
  unfold pathParts
  rw [alone h, List.map_singleton, String.ofList_toList]

/-- A path of parts without slashes is made of these parts. -/
lemma pathParts_intercalate {parts : List String} (h : ∀ part ∈ parts, '/' ∉ part.toList) (filled : parts ≠ []) :
    pathParts ("/".intercalate parts) = parts := by
  induction parts with
  | nil => exact absurd rfl filled
  | cons part parts ih =>
    obtain ⟨here, later⟩ := List.forall_mem_cons.mp h
    by_cases last : parts = []
    · subst last
      rw [String.intercalate_singleton]
      exact pathParts_of_not_mem here
    · rw [String.intercalate_cons_of_ne_nil last, pathParts_append_slash, ih later last, pathParts_of_not_mem here]
      rfl

/-- The text of a path leads where the path does. -/
lemma follow_intercalate {parts : List String} (h : ∀ part ∈ parts, '/' ∉ part.toList) :
    Place.here.follow (pathParts ("/".intercalate parts)) = Place.here.follow parts := by
  by_cases filled : parts = []
  · subst filled
    rw [String.intercalate_nil, pathParts_empty]
    rfl
  · rw [pathParts_intercalate h filled]

/-! ### Normal forms -/

lemma IsNormal.front {xs ys : List String} (h : IsNormal (xs ++ ys)) : IsNormal xs := by
  obtain ⟨ups, names, same, named⟩ := h
  rcases List.append_eq_append_iff.mp same with ⟨rest, steps, -⟩ | ⟨rest, rfl, rfl⟩
  · obtain ⟨-, steps, -⟩ := List.append_eq_replicate_iff.mp steps.symm
    exact ⟨xs.length, [], by rw [List.append_nil, ← steps], nofun⟩
  · exact ⟨ups, rest, rfl, fun name h => named name (List.mem_append_left _ h)⟩

/-- The parts of a normal path that are no steps upwards are names. -/
lemma IsNormal.isName {path : List String} (h : IsNormal path) : ∀ part ∈ path, part = ".." ∨ IsName part := by
  obtain ⟨ups, names, rfl, named⟩ := h
  intro part listed
  rcases List.mem_append.mp listed with step | name
  · exact .inl (List.eq_of_mem_replicate step)
  · exact .inr (named part name)

/-- What is left of a directory and the names that follow make a normal path exactly if what is left is one. -/
lemma TakesAway.isNormal_iff {directory kept taken : List String} {p : Place} (h : TakesAway directory p.ups kept taken)
    (named : ∀ name ∈ p.names, IsName name) : IsNormal (p.onto kept taken.length) ↔ IsNormal kept := by
  have named : ∀ name ∈ p.names.reverse, IsName name := fun name h => named name (List.mem_reverse.mp h)
  refine ⟨IsNormal.front, ?_⟩
  rintro ⟨front, inner, rfl, innerNamed⟩
  by_cases more : taken.length < p.ups
  · -- what is left is nothing or ends with a step upwards, and so has no names
    have noNames : inner = [] := by
      by_contra filled
      obtain ⟨inner, last, rfl⟩ := (List.eq_nil_or_concat' inner).resolve_left filled
      rcases h.most more with nothing | up
      · exact absurd nothing (by simp)
      · rw [← List.append_assoc, List.getLast?_concat, Option.some.injEq] at up
        exact (innerNamed last (List.mem_append_right _ (List.mem_singleton_self _))).2.2 up
    refine ⟨front + (p.ups - taken.length), p.names.reverse, ?_, named⟩
    rw [noNames, List.append_nil, Place.onto, ← List.append_assoc, List.replicate_add]
  · have none : p.ups - taken.length = 0 := by omega
    refine ⟨front, inner ++ p.names.reverse, ?_, List.forall_mem_append.mpr ⟨innerNamed, named⟩⟩
    rw [Place.onto, none, List.append_assoc]
    rfl

/-- A path is the only normal one that leads where it does. -/
lemma IsNormal.eq {xs ys : List String} (hx : IsNormal xs) (hy : IsNormal ys)
    (same : Place.here.follow xs = Place.here.follow ys) : xs = ys := by
  rw [← Place.parts_follow hx, same, Place.parts_follow hy]

/-- Where two texts of paths are the same, so are the paths, but for that of no parts and that of an empty one. -/
lemma eq_of_intercalate_eq {xs ys : List String} (hx : ∀ part ∈ xs, '/' ∉ part.toList)
    (hy : ∀ part ∈ ys, '/' ∉ part.toList) (same : "/".intercalate xs = "/".intercalate ys) :
    xs = ys ∨ xs = [""] ∨ ys = [""] := by
  by_cases emptyX : xs = []
  · by_cases emptyY : ys = []
    · exact .inl (emptyX.trans emptyY.symm)
    · refine .inr (.inr ?_)
      rw [← pathParts_intercalate hy emptyY, ← same, emptyX, String.intercalate_nil, pathParts_empty]
  · by_cases emptyY : ys = []
    · refine .inr (.inl ?_)
      rw [← pathParts_intercalate hx emptyX, same, emptyY, String.intercalate_nil, pathParts_empty]
    · left
      rw [← pathParts_intercalate hx emptyX, same, pathParts_intercalate hy emptyY]

/-- The normal form of a path is the path that leads to the same place without detours. -/
lemma isNormalForm_iff {text : String} {path : List String} :
    IsNormalForm text path ↔ text = "/".intercalate (Place.here.follow path).parts := by
  constructor
  · rintro ⟨parts, rfl, normal, same⟩
    rw [← same, Place.parts_follow normal]
  · intro same
    exact ⟨_, same, Place.isNormal_parts path, (Place.follow_parts path _).symm⟩

/-- No part of a template's name has a slash, whatever follows from the parts. -/
lemma not_mem_of_mem_directoryParts {current part : String} (h : part ∈ directoryParts current) : '/' ∉ part.toList :=
  not_mem_of_mem_pathParts (List.dropLast_subset _ h)

lemma Place.not_mem_parts {path : List String} (h : ∀ part ∈ path, '/' ∉ part.toList) :
    ∀ part ∈ (here.follow path).parts, '/' ∉ part.toList := by
  intro part listed
  rcases List.mem_append.mp listed with step | name
  · rw [List.eq_of_mem_replicate step]
    decide
  · exact h part (isName_follow path part (List.mem_reverse.mp name)).2

section

variable {current name : String} {kept taken : List String}

/-- No part of what a relative name means has a slash. -/
lemma TakesAway.not_mem (h : TakesAway (directoryParts current) (Place.here.follow (pathParts name)).ups kept taken) :
    ∀ part ∈ (Place.here.follow (pathParts name)).onto kept taken.length, '/' ∉ part.toList := by
  have names : ∀ part ∈ (Place.here.follow (pathParts name)).parts, '/' ∉ part.toList :=
    Place.not_mem_parts fun _ => not_mem_of_mem_pathParts
  intro part listed
  rcases List.mem_append.mp listed with before | listed
  · exact not_mem_of_mem_directoryParts (h.parts ▸ List.mem_append_left _ before)
  · rcases List.mem_append.mp listed with step | name
    · rw [List.eq_of_mem_replicate step]
      decide
    · exact names part (List.mem_append_right _ name)

lemma TakesAway.leads_iff (h : TakesAway (directoryParts current) (Place.here.follow (pathParts name)).ups kept taken) :
    Place.here.follow ((Place.here.follow (pathParts name)).onto kept taken.length) =
      Place.here.follow (directoryParts current ++ pathParts name) ↔ ∀ part ∈ taken, IsName part := by
  have named := fun part hpart => (Place.isName_follow (pathParts name) part hpart).1
  have direct : Place.here.follow (directoryParts current ++ pathParts name) =
      Place.here.follow (directoryParts current ++ (Place.here.follow (pathParts name)).parts) := by
    rw [Place.follow_append, Place.follow_append, ← Place.follow_parts]
  rw [direct]
  exact h.same_place_iff named

/-- What a relative name means is in normal form if it leads where it is to, and what is left of the directory is in
normal form. -/
lemma TakesAway.isNormalForm_iff
    (h : TakesAway (directoryParts current) (Place.here.follow (pathParts name)).ups kept taken) {text : String}
    (written : text = "/".intercalate ((Place.here.follow (pathParts name)).onto kept taken.length)) :
    IsNormalForm text (directoryParts current ++ pathParts name) ↔
      (∀ part ∈ taken, IsName part) ∧ (IsNormal kept ∨ text = "") := by
  have named := fun part hpart => (Place.isName_follow (pathParts name) part hpart).1
  have noSlash : ∀ part ∈ directoryParts current ++ pathParts name, '/' ∉ part.toList :=
    fun part hpart => (List.mem_append.mp hpart).elim not_mem_of_mem_directoryParts not_mem_of_mem_pathParts
  constructor
  · intro form
    have direct := Stencil.isNormalForm_iff.mp form
    have texts := written.symm.trans direct
    refine ⟨h.leads_iff.mp ?_, ?_⟩
    · rw [← follow_intercalate h.not_mem, texts, follow_intercalate (Place.not_mem_parts noSlash), ← Place.follow_parts]
    · rcases eq_of_intercalate_eq h.not_mem (Place.not_mem_parts noSlash) texts with parts | empty | empty
      · exact .inl ((h.isNormal_iff named).mp (parts ▸ Place.isNormal_parts _))
      · exact .inr (by rw [written, empty, String.intercalate_singleton])
      · exact .inr (by rw [direct, empty, String.intercalate_singleton])
  · rintro ⟨names, left | empty⟩
    · exact ⟨_, written, (h.isNormal_iff named).mpr left, h.leads_iff.mpr names⟩
    · refine ⟨[], by rw [empty, String.intercalate_nil], ⟨0, [], rfl, nofun⟩, ?_⟩
      rw [← h.leads_iff.mpr names, ← follow_intercalate h.not_mem, ← written, empty, pathParts_empty]
      rfl

end

/-- **Where a relative name leads.** The normal form of the name is a number of steps upwards and then names. The steps
upwards take the last parts of the template's directory away, as they stand, and those that cannot are kept. So the name
leads where its parts lead from the directory exactly if all parts that are taken away are names, and it is written in
normal form exactly if, besides, what is left of the directory is so; in particular where the whole directory is. -/
theorem resolves_within (current name : String) :
    ∃ kept taken, TakesAway (directoryParts current) (Place.here.follow (pathParts name)).ups kept taken ∧
      nameWithin current name = "/".intercalate ((Place.here.follow (pathParts name)).onto kept taken.length) ∧
      (Place.here.follow (pathParts (nameWithin current name)) =
          Place.here.follow (directoryParts current ++ pathParts name) ↔ ∀ part ∈ taken, IsName part) ∧
      (IsNormalForm (nameWithin current name) (directoryParts current ++ pathParts name) ↔
        (∀ part ∈ taken, IsName part) ∧ (IsNormal kept ∨ nameWithin current name = "")) ∧
      (IsNormal (directoryParts current) →
        IsNormalForm (nameWithin current name) (directoryParts current ++ pathParts name)) := by
  obtain ⟨kept, taken, takes, text⟩ := exists_nameWithin_eq current name
  have form := takes.isNormalForm_iff text
  refine ⟨kept, taken, takes, text, ?_, form, fun whole => form.mpr ⟨?_, .inl ?_⟩⟩
  · rw [text, follow_intercalate takes.not_mem]
    exact takes.leads_iff
  · intro part listed
    have inside : part ∈ directoryParts current := takes.parts ▸ List.mem_append_right _ listed
    exact (whole.isName part inside).resolve_left fun up => takes.ordinary (up ▸ listed)
  · exact IsNormal.front (takes.parts ▸ whole)

/-- From a directory beside the one around, a name may lead further up. -/
theorem resolves_within_beside : IsNormal (directoryParts "../pages/home.vm") ∧
    nameWithin "../pages/home.vm" "./x/../../../part.vm" = "../../part.vm" ∧
      IsNormalForm (nameWithin "../pages/home.vm" "./x/../../../part.vm")
        (directoryParts "../pages/home.vm" ++ pathParts "./x/../../../part.vm") := by
  have named : ∀ part ∈ ["pages"], IsName part :=
    List.forall_mem_singleton.mpr ⟨by decide, by decide, by decide⟩
  have normal : IsNormal (directoryParts "../pages/home.vm") := ⟨1, ["pages"], by decide +kernel, named⟩
  obtain ⟨_, _, -, -, -, -, form⟩ := resolves_within "../pages/home.vm" "./x/../../../part.vm"
  exact ⟨normal, by decide +kernel, form normal⟩

/-- A dot in the name of a template is taken for a directory: the step upwards takes the dot away, and leads nowhere. -/
theorem resolves_beside_dot : nameWithin "a/./home.vm" "../part.vm" = "a/part.vm" ∧
    Place.here.follow (pathParts "a/part.vm") = ⟨0, ["part.vm", "a"]⟩ ∧
      Place.here.follow (directoryParts "a/./home.vm" ++ pathParts "../part.vm") = ⟨0, ["part.vm"]⟩ ∧
      ¬IsNormalForm (nameWithin "a/./home.vm" "../part.vm") (directoryParts "a/./home.vm" ++ pathParts "../part.vm") ∧
      let h := Host.ofTemplates [("a/./home.vm", "#parse('../part.vm')"), ("a/part.vm", "A"), ("part.vm", "P")] id
      ((Engine.initial .standard).renderNamed h "a/./home.vm" .empty .empty .empty).sink.written = "A" := by
  refine ⟨by decide +kernel, by decide +kernel, by decide +kernel, ?_, by decide +kernel⟩
  rw [isNormalForm_iff]
  decide +kernel

end Stencil
