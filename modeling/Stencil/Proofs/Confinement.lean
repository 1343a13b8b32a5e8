import Stencil.Loader.Files
import Stencil.Proofs.Copies

/-!
# Names that stay below the roots

A loader of files reads nothing outside its root directories, whatever a template asks for: a name that starts at the
top or has a step upwards is refused, and any other name leads from a root downwards. Main statement:
`FileLoader.confines_resourceName`.
-/

namespace Stencil

/-! ### Components of paths -/

/-- What a path is made of. -/
inductive PathComponent where
  /-- The top, where a path with a slash in front starts. -/
  | top
  /-- A dot in front. -/
  | here
  /-- A step upwards. -/
  | up
  | ordinary (name : String)
  deriving DecidableEq

namespace PathComponent

/-- The component that stands between slashes; nothing and a dot count for none there. -/
def ofPart? (part : String) : Option PathComponent :=
  if part = "" ∨ part = "." then none
  else if part = ".." then some up
  else some (ordinary part)

/-- Whether a component stays where it is or leads downwards. -/
def Descends (c : PathComponent) : Prop := c = here ∨ ∃ name, c = ordinary name

end PathComponent

/-- The component that the start of a path stands for. -/
def pathStart (path : String) : List PathComponent :=
  if path.toList.head? = some '/' then [.top]
  else if (pathParts path).head? = some "." then [.here]
  else []

/-- The components of a path, in order. -/
def pathComponents (path : String) : List PathComponent :=
  pathStart path ++ (pathParts path).filterMap PathComponent.ofPart?

/-- A step upwards is a part of its own. -/
lemma up_mem_pathComponents {path : String} : .up ∈ pathComponents path ↔ ".." ∈ pathParts path := by
  have start : PathComponent.up ∉ pathStart path := by
    unfold pathStart
    split
    · decide
    · split <;> decide
  unfold pathComponents
  rw [List.mem_append, or_iff_right start, List.mem_filterMap]
  constructor
  · rintro ⟨part, listed, h⟩
    unfold PathComponent.ofPart? at h
    split at h
    · cases h
    · split at h
      · next hp => rwa [hp] at listed
      · cases h
  · intro listed
    exact ⟨"..", listed, rfl⟩

/-- The top can only be the start. -/
lemma top_mem_pathComponents {path : String} : .top ∈ pathComponents path ↔ path.toList.head? = some '/' := by
  have parts : PathComponent.top ∉ (pathParts path).filterMap PathComponent.ofPart? := by
    rw [List.mem_filterMap]
    rintro ⟨part, -, h⟩
    unfold PathComponent.ofPart? at h
    split at h
    · cases h
    · split at h <;> cases h
  unfold pathComponents
  rw [List.mem_append, or_iff_left parts]
  unfold pathStart
  split
  · next h => exact iff_of_true List.mem_cons_self h
  · next h =>
    refine iff_of_false ?_ h
    split <;> decide

/-- A name that a loader of files refuses: it is empty, starts at the top or has a step upwards. -/
def LeavesRoots (name : String) : Prop :=
  name = "" ∨ .top ∈ pathComponents name ∨ .up ∈ pathComponents name

lemma isInsideName_iff {name : String} : isInsideName name = true ↔ ¬ LeavesRoots name := by
  unfold LeavesRoots
  rw [up_mem_pathComponents, top_mem_pathComponents]
  simp [isInsideName, and_assoc]

/-- The components of a name that is not refused lead downwards. -/
lemma descends_of_not_leavesRoots {name : String} (h : ¬ LeavesRoots name) :
    ∀ c ∈ pathComponents name, c.Descends := by
  intro c hc
  cases c with
  | top => exact absurd (.inr (.inl hc)) h
  | here => exact .inl rfl
  | up => exact absurd (.inr (.inr hc)) h
  | ordinary part => exact .inr ⟨part, rfl⟩

/-! ### Joined paths -/

namespace Text

/-- A slash parts what stands before it from what stands after it. -/
lemma splitOn_slash_append (cs ds : List Char) :
    splitOn ['/'] (cs ++ '/' :: ds) = splitOn ['/'] cs ++ splitOn ['/'] ds := by
  induction cs with
  | nil =>
    rw [List.nil_append, splitOn_slash_cons, if_pos rfl, splitOn_slash_nil]
    rfl
  | cons c cs ih =>
    rw [List.cons_append, splitOn_slash_cons, splitOn_slash_cons, ih]
    split
    · rfl
    · obtain ⟨p, ps, hp⟩ := List.exists_cons_of_ne_nil (splitOn_ne_nil ['/'] cs)
      rw [hp]
      rfl

end Text

lemma pathParts_append_slash (a b : String) : pathParts (a ++ "/" ++ b) = pathParts a ++ pathParts b := by
  have slash : (a ++ "/" ++ b).toList = a.toList ++ '/' :: b.toList := by
    rw [String.toList_append, String.toList_append, List.append_assoc]
    rfl
  unfold pathParts
  rw [slash, Text.splitOn_slash_append, List.map_append]

lemma pathParts_ne_nil (path : String) : pathParts path ≠ [] := by
  unfold pathParts
  rw [Ne, List.map_eq_nil_iff]
  exact Text.splitOn_ne_nil _ _

lemma pathParts_empty : pathParts "" = [""] := by
  unfold pathParts
  rw [show "".toList = [] from rfl, Text.splitOn_slash_nil]
  rfl

/-- A path below a directory: the name alone where the directory is the present one, and otherwise the parts of the
name after those of the directory, of which a last empty one is gone. -/
lemma joinPath_cases (root name : String) :
    root = "" ∧ joinPath root name = name ∨
    root ≠ "" ∧ (joinPath root name).toList.head? = root.toList.head? ∧
      ∃ parts, parts ≠ [] ∧ (pathParts root = parts ∨ pathParts root = parts ++ [""]) ∧
        pathParts (joinPath root name) = parts ++ pathParts name := by
  unfold joinPath
  by_cases empty : root = ""
  · subst empty
    exact .inl ⟨rfl, String.empty_append⟩
  have head (tail : String) : (root ++ tail).toList.head? = root.toList.head? := by
    rw [String.toList_append, List.head?_append_of_ne_nil]
    exact fun none => empty (String.toList_eq_nil_iff.mp none)
  refine .inr ⟨empty, ?_⟩
  by_cases slash : root.endsWith "/" = true
  · obtain ⟨front, hf⟩ : ['/'] <:+ root.toList := by
      rw [← String.endsWith_toSlice, String.Slice.endsWith_string_iff, String.copy_toSlice] at slash
      exact slash
    obtain rfl : String.ofList front ++ "/" = root := by
      rw [← String.toList_inj, String.toList_append, String.toList_ofList]
      exact hf
    rw [slash, Bool.or_true, if_pos rfl]
    refine ⟨head name, pathParts (String.ofList front), pathParts_ne_nil _, .inr ?_, pathParts_append_slash _ _⟩
    have last := pathParts_append_slash (String.ofList front) ""
    rwa [String.append_empty, pathParts_empty] at last
  · rw [Bool.not_eq_true] at slash
    have other : root.isEmpty = false := by
      rw [← Bool.not_eq_true, String.isEmpty_iff]
      exact empty
    rw [slash, other, Bool.or_false, if_neg Bool.false_ne_true]
    refine ⟨?_, pathParts root, pathParts_ne_nil _, .inl rfl, pathParts_append_slash _ _⟩
    rw [String.append_assoc]
    exact head _

/-- A path below a directory is made of the components of the directory and such as lead downwards. -/
lemma pathComponents_joinPath {root name : String} (h : ¬ LeavesRoots name) :
    ∃ cs, pathComponents (joinPath root name) = pathComponents root ++ cs ∧ ∀ c ∈ cs, c.Descends := by
  have down := descends_of_not_leavesRoots h
  obtain ⟨rfl, join⟩ | ⟨-, head, parts, nonempty, roots, join⟩ := joinPath_cases root name
  · refine ⟨pathComponents name, ?_, down⟩
    have none : pathComponents "" = [] := by
      simp [pathComponents, pathStart, pathParts_empty, PathComponent.ofPart?]
    rw [join, none, List.nil_append]
  have start : pathStart (joinPath root name) = pathStart root := by
    have first : (pathParts (joinPath root name)).head? = (pathParts root).head? := by
      rw [join, List.head?_append_of_ne_nil _ nonempty]
      obtain roots | roots := roots
      · rw [roots]
      · rw [roots, List.head?_append_of_ne_nil _ nonempty]
    unfold pathStart
    rw [head, first]
  have shared : parts.filterMap PathComponent.ofPart? = (pathParts root).filterMap PathComponent.ofPart? := by
    obtain roots | roots := roots
    · rw [roots]
    · rw [roots, List.filterMap_append]
      exact (List.append_nil _).symm
  refine ⟨(pathParts name).filterMap PathComponent.ofPart?, ?_, fun c hc => down c (List.mem_append_right _ hc)⟩
  unfold pathComponents
  rw [start, join, List.filterMap_append, shared, List.append_assoc]

/-! ### Places -/

namespace FileTree

variable {t : FileTree}

lemma follow_append (place : List String) (parts others : List String) :
    t.follow place (parts ++ others) = (t.follow place parts).bind (t.follow · others) := by
  fun_induction t.follow place parts with
  | case1 => rfl
  | case2 place part parts outside =>
    rw [List.cons_append, follow, if_pos outside]
    rfl
  | case3 place part parts inside still ih =>
    rw [List.cons_append, follow, if_neg inside, if_pos still, ih]
  | case4 place part parts inside moves up ih =>
    rw [List.cons_append, follow, if_neg inside, if_neg moves, if_pos up, ih]
  | case5 place part parts inside moves other ih =>
    rw [List.cons_append, follow, if_neg inside, if_neg moves, if_neg other, ih]

/-- Parts without a step upwards lead downwards. -/
lemma follow_down {place parts goal : List String} (h : t.follow place parts = some goal) (hp : ".." ∉ parts) :
    ∃ names, goal = place ++ names ∧ ∀ name ∈ names, name ≠ "" ∧ name ≠ "." ∧ name ≠ ".." := by
  fun_induction t.follow place parts with
  | case1 place =>
    cases h
    exact ⟨[], (List.append_nil _).symm, List.forall_mem_nil _⟩
  | case2 => cases h
  | case3 place part parts inside still ih => exact ih h (List.not_mem_of_not_mem_cons hp)
  | case4 place part parts inside moves up =>
    rw [eq_of_beq up] at hp
    exact absurd List.mem_cons_self hp
  | case5 place part parts inside moves other ih =>
    obtain ⟨names, rfl, ordinary⟩ := ih h (List.not_mem_of_not_mem_cons hp)
    refine ⟨part :: names, List.append_assoc .., List.forall_mem_cons.mpr ⟨?_, ordinary⟩⟩
    simpa [not_or, and_assoc] using And.intro moves other

/-- Whatever stands at a path below a directory stands below the place of that directory. -/
lemma place?_joinPath {root name : String} {goal : List String} (h : ¬ LeavesRoots name)
    (hp : t.place? (joinPath root name) = some goal) :
    ∃ place names, t.place? root = some place ∧ goal = place ++ names ∧
      ∀ name ∈ names, name ≠ "" ∧ name ≠ "." ∧ name ≠ ".." := by
  have down : ".." ∉ pathParts name := fun up => h (.inr (.inr (up_mem_pathComponents.mpr up)))
  have inner : name.toList.head? ≠ some '/' := fun top => h (.inr (.inl (top_mem_pathComponents.mpr top)))
  unfold place? at hp ⊢
  obtain ⟨rfl, join⟩ | ⟨-, head, parts, nonempty, roots, join⟩ := joinPath_cases root name
  · rw [join, if_neg inner] at hp
    obtain ⟨names, rfl, ordinary⟩ := follow_down hp down
    have present : t.isDirectory t.here = true := by
      unfold isDirectory
      rw [List.isPrefixOf_iff_prefix.mpr (List.prefix_refl _), Bool.true_or]
    refine ⟨t.here, names, ?_, rfl, ordinary⟩
    rw [pathParts_empty, if_neg (by decide), follow, present]
    rfl
  rw [head, join, follow_append] at hp
  obtain ⟨place, before, after⟩ := Option.bind_eq_some_iff.mp hp
  obtain ⟨names, rfl, ordinary⟩ := follow_down after down
  refine ⟨place, names, ?_, rfl, ordinary⟩
  obtain roots | roots := roots
  · rw [roots, before]
  · obtain ⟨part, rest, hn⟩ := List.exists_cons_of_ne_nil (pathParts_ne_nil name)
    rw [roots, follow_append, before]
    rw [hn, follow] at after
    split at after
    · cases after
    · next inside =>
      show t.follow place [""] = some place
      rw [follow, if_neg inside]
      rfl

end FileTree

/-! ### Loaders -/

namespace FileLoader

variable {l : FileLoader} {t : FileTree}

/-- The file that a name stands for: that of the first root that has one under the name. It lies below the root, and
its path goes on from the root downwards. -/
structure Finds (l : FileLoader) (t : FileTree) (name path : String) (f : File) : Prop where
  first : ∃ front root back, l.roots = front ++ root :: back ∧ path = joinPath root name ∧
    (∀ earlier ∈ front, t.file? (joinPath earlier name) = none) ∧
    (∃ cs, pathComponents path = pathComponents root ++ cs ∧ ∀ c ∈ cs, c.Descends) ∧
    ∃ place names, t.place? root = some place ∧ t.place? path = some (place ++ names) ∧
      ∀ part ∈ names, part ≠ "" ∧ part ≠ "." ∧ part ≠ ".."
  file : t.file? path = some f

/-- What a loader answers for a name, with its errors: a name that leaves the roots is refused, and for any other one
the file below the first root that has one is read, if there is any. -/
structure Confines (l : FileLoader) (t : FileTree) (name : String) : Prop where
  refuses : LeavesRoots name → (l.loader t).load name = .error (.of (.nameOutsideRoots name)) ∧
    (TemplateError.of (.nameOutsideRoots name)).kind = .resourceNotFound ∧ (l.loader t).stamp? name = none
  reads : ¬ LeavesRoots name →
    (∀ root ∈ l.roots, t.file? (joinPath root name) = none) ∧
      (l.loader t).load name = .ok none ∧ (l.loader t).stamp? name = none ∨
    ∃ path f, l.Finds t name path f ∧ (l.loader t).stamp? name = some f.stamp ∧
      (l.loader t).load name =
        match String.fromUTF8? f.bytes with
        | some text => .ok (some ⟨text, some f.stamp⟩)
        | none => .error (.of (.io (.notUtf8 path)))

/-- Names are confined to the roots. -/
lemma confines (l : FileLoader) (t : FileTree) (name : String) : l.Confines t name where
  refuses leaves := by
    have outside : isInsideName name = false := by
      rw [← Bool.not_eq_true, isInsideName_iff, not_not]
      exact leaves
    refine ⟨?_, rfl, l.stamp?_of_not_inside t outside⟩
    simp only [loader, locate, outside]
    rfl
  reads stays := by
    have inside : isInsideName name = true := isInsideName_iff.mpr stays
    cases found : (l.roots.map (joinPath · name)).find? fun path => (t.file? path).isSome with
    | none =>
      have located : l.locate t name = .ok none := by
        rw [locate, if_pos inside, found]
      refine .inl ⟨fun root listed => ?_, ?_, ?_⟩
      · have missing := List.find?_eq_none.mp found _ (List.mem_map_of_mem listed)
        rwa [Bool.not_eq_true, Option.isSome_eq_false_iff, Option.isNone_iff_eq_none] at missing
      · simp only [loader, located]
        rfl
      · simp only [loader, located]
    | some path =>
      have located : l.locate t name = .ok (some path) := by
        rw [locate, if_pos inside, found]
      obtain ⟨has, before, after, roots, others⟩ := List.find?_eq_some_iff_append.mp found
      obtain ⟨f, file⟩ := Option.isSome_iff_exists.mp has
      obtain ⟨front, rest, split, rfl, hrest⟩ := List.map_eq_append_iff.mp roots
      obtain ⟨root, back, rfl, rfl, rfl⟩ := List.map_eq_cons_iff.mp hrest
      obtain ⟨goal, reached, -⟩ := Option.bind_eq_some_iff.mp file
      obtain ⟨place, names, below, rfl, ordinary⟩ := FileTree.place?_joinPath stays reached
      refine .inr ⟨_, f, ⟨⟨front, root, back, split, rfl, fun earlier listed => ?_,
        pathComponents_joinPath stays, place, names, below, reached, ordinary⟩, file⟩, ?_, ?_⟩
      · have missing := others _ (List.mem_map_of_mem listed)
        rwa [Bool.not_eq_true', Option.isSome_eq_false_iff, Option.isNone_iff_eq_none] at missing
      · simp only [loader, located, file]
        rfl
      · simp only [loader, located]
        show (t.text? (joinPath root name)).bind _ = _
        cases decoded : String.fromUTF8? f.bytes with
        | none =>
          have text : t.text? (joinPath root name) = .error (.of (.io (.notUtf8 (joinPath root name)))) := by
            simp only [FileTree.text?, file, decoded]
          rw [text]
          rfl
        | some text =>
          have text : t.text? (joinPath root name) = .ok (some (text, f.stamp)) := by
            simp only [FileTree.text?, file, decoded]
          rw [text]
          rfl

end FileLoader

/-! ### Names that templates ask for -/

/-- The name that a template asks for: what is given, or where that is relative and there is a present template, what
it means there. -/
def nameFrom (current : Option String) (given : String) : String :=
  match current with
  | some current => if isRelativeName given then nameWithin current given else given
  | none => given

namespace Interpreter

variable {self : Interpreter} {arg : Expr} {directive : String} {env : RenderEnv} {s s' : RenderState}

lemma resourceName_of_value {v : Value} (value : self.value arg env s = .ok v s') (null : v.isNull = false) :
    self.resourceName arg directive env s =
      .ok (nameFrom (env.templates.head?.map (·.name)) (v.display s'.store)) s' := by
  obtain ⟨_, _, _, _, _, templates, _, _⟩ := env
  cases templates with
  | nil =>
    rw [resourceName, Render.bind_apply, value]
    simp only [null, Bool.false_eq_true, if_false]
    rfl
  | cons current outer =>
    rw [resourceName, Render.bind_apply, value]
    simp only [null, Bool.false_eq_true, if_false]
    rfl

/-- The name of a resource is the text of the argument, as it is meant in the present template. -/
lemma value_of_resourceName {name : String} (h : self.resourceName arg directive env s = .ok name s') :
    ∃ v, self.value arg env s = .ok v s' ∧ v.isNull = false ∧
      name = nameFrom (env.templates.head?.map (·.name)) (v.display s'.store) := by
  cases value : self.value arg env s with
  | error halt t =>
    rw [resourceName, Render.bind_apply, value] at h
    cases h
  | ok v t =>
    refine ⟨v, ?_⟩
    cases null : v.isNull with
    | true =>
      rw [resourceName, Render.bind_apply, value] at h
      simp only [null, if_true] at h
      cases h
    | false =>
      rw [resourceName_of_value value null] at h
      cases h
      exact ⟨rfl, rfl, rfl⟩

end Interpreter

/-- **No name leaves the roots.** Whatever argument a directive has, and whatever the present template is called: the
name that is asked for is the text of the argument as it is meant there, and a loader of files reads nothing for it
but the file that it names below the first root which has one. A name that is empty, starts at the top
or has a step upwards is refused, and gone. -/
theorem FileLoader.confines_resourceName (l : FileLoader) (t : FileTree) {self : Interpreter} {arg : Expr}
    {directive : String} {env : RenderEnv} {s s' : RenderState} {name : String}
    (asked : self.resourceName arg directive env s = .ok name s') :
    (∃ v, self.value arg env s = .ok v s' ∧ v.isNull = false ∧
      name = nameFrom (env.templates.head?.map (·.name)) (v.display s'.store)) ∧ l.Confines t name :=
  ⟨Interpreter.value_of_resourceName asked, l.confines t name⟩

/-- A page that asks for a file above its root is refused it. -/
theorem FileLoader.confines_resourceName_climbing :
    let arg : Expr := ⟨.literal (.str "./../secret"), ⟨"page", 1, 8, ⟨7, 20⟩⟩⟩
    let env : RenderEnv :=
      ⟨.standard, fun _ => none, [], .empty, id, [⟨⟨"page", ""⟩, [], ∅, .inline⟩], [], .inline⟩
    let s : RenderState := ⟨.empty, .empty, [], .empty, .empty 0 .none, .empty, [], 0, 0⟩
    (Interpreter.ofDepth 1).resourceName arg "#parse" env s = .ok "../secret" s ∧
      (∃ v, (Interpreter.ofDepth 1).value arg env s = .ok v s ∧ v.isNull = false ∧
        "../secret" = nameFrom (env.templates.head?.map (·.name)) (v.display s.store)) ∧
      Confines ⟨["site"]⟩ ⟨[], []⟩ "../secret" := by
  intro arg env s
  have asked : (Interpreter.ofDepth 1).resourceName arg "#parse" env s = .ok "../secret" s := by
    have name : nameFrom (some "page") "./../secret" = "../secret" := by decide +kernel
    have value : (Interpreter.ofDepth 1).value arg env s = .ok (.str "./../secret") s := rfl
    rw [← name]
    exact Interpreter.resourceName_of_value value rfl
  exact ⟨asked, FileLoader.confines_resourceName _ _ asked⟩

end Stencil
