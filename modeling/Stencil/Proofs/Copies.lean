import Stencil.Proofs.History.Related
import Stencil.Proofs.Reading.Literals
import Stencil.Proofs.Renaming

/-!
# Renders of copied code

Code that is copied to another place in templates of the same directory does what the original does: it computes the
same values, writes the same texts and binds the same variables, and where it fails, it fails for the same reason. The
places may differ, and so may the choices of members that are remembered for them. Main statements:
`Copying.agrees`, expressions and blocks agree with their copies, however deep the code is nested.
-/

namespace Stencil

/-! ### Directories -/

/-- The parts of a template's name that say where it is. -/
def directory (name : String) : List (List Char) := (Text.splitOn ['/'] name.toList).dropLast

/-- What a relative name means depends on where the template is, and on nothing else of it. -/
lemma nameWithin_congr {current current' : String} (h : directory current = directory current') (name : String) :
    nameWithin current name = nameWithin current' name := by
  have parts (current : String) : (pathParts current).dropLast = (directory current).map String.ofList :=
    (List.map_dropLast ..).symm
  unfold nameWithin
  rw [parts, parts, h]

namespace Text

lemma splitOn_slash_nil : splitOn ['/'] [] = [[]] := by
  unfold splitOn
  simp [find?]

/-- A slash starts a new part, and any other character belongs to the first part. -/
lemma splitOn_slash_cons (c : Char) (cs : List Char) :
    splitOn ['/'] (c :: cs) =
      if c = '/' then [] :: splitOn ['/'] cs else (splitOn ['/'] cs).modifyHead (c :: ·) := by
  have first : find? ['/'] (c :: cs) = if c = '/' then some 0 else (find? ['/'] cs).map (· + 1) := by
    by_cases hc : c = '/'
    · subst hc
      rfl
    · have other : ['/'].isPrefixOf (c :: cs) = false := by
        rw [List.isPrefixOf, beq_eq_false_iff_ne.mpr (Ne.symm hc), Bool.false_and]
      rw [find?, other, if_neg Bool.false_ne_true, if_neg hc]
  rw [splitOn, dif_neg (List.cons_ne_nil _ _)]
  by_cases hc : c = '/'
  · rw [if_pos hc] at first
    rw [if_pos hc]
    split
    · next h =>
      rw [h] at first
      cases first
    · next i h =>
      rw [first] at h
      cases h
      rfl
  · rw [if_neg hc] at first
    rw [if_neg hc, splitOn.eq_def _ cs, dif_neg (List.cons_ne_nil _ _)]
    split
    · next h =>
      rw [first, Option.map_eq_none_iff] at h
      split
      · rfl
      · next h' =>
        rw [h] at h'
        cases h'
    · next i h =>
      rw [first] at h
      obtain ⟨j, hj, rfl⟩ := Option.map_eq_some_iff.mp h
      split
      · next h' =>
        rw [hj] at h'
        cases h'
      · next k h' =>
        rw [hj] at h'
        cases h'
        rfl

lemma dropLast_modifyHead {α : Type} (f : α → α) (xs : List α) :
    (xs.modifyHead f).dropLast = xs.dropLast.modifyHead f := by
  match xs with
  | [] => rfl
  | [x] => rfl
  | x :: y :: xs => rfl

/-- What is written before a path is written before its first part. -/
lemma dropLast_splitOn_append_left {v : List Char} (hv : '/' ∉ v) (cs : List Char) :
    (splitOn ['/'] (v ++ cs)).dropLast = (splitOn ['/'] cs).dropLast.modifyHead (v ++ ·) := by
  induction v with
  | nil =>
    show _ = List.modifyHead id _
    rw [List.modifyHead_id]
    rfl
  | cons c v ih =>
    obtain ⟨hc, hv⟩ := List.ne_and_not_mem_of_not_mem_cons hv
    rw [List.cons_append, splitOn_slash_cons, if_neg (Ne.symm hc), dropLast_modifyHead, ih hv,
      List.modifyHead_modifyHead]
    rfl

/-- What is written after a path is written after its last part. -/
lemma dropLast_splitOn_append_right {w : List Char} (hw : '/' ∉ w) (cs : List Char) :
    (splitOn ['/'] (cs ++ w)).dropLast = (splitOn ['/'] cs).dropLast := by
  induction cs with
  | nil =>
    have alone := dropLast_splitOn_append_left hw []
    rw [List.append_nil, splitOn_slash_nil] at alone
    rw [List.nil_append, alone, splitOn_slash_nil]
    rfl
  | cons c cs ih =>
    rw [List.cons_append, splitOn_slash_cons, splitOn_slash_cons]
    split
    · rw [List.dropLast_cons_of_ne_nil (splitOn_ne_nil _ _), List.dropLast_cons_of_ne_nil (splitOn_ne_nil _ _), ih]
    · rw [dropLast_modifyHead, dropLast_modifyHead, ih]

end Text

/-- An evaluated text is named after the place of its directive: the first part of its path says so. -/
lemma directory_of_evaluated (p : Position) :
    directory ("#evaluate at " ++ p.display) = (directory p.template).modifyHead ("#evaluate at ".toList ++ ·) := by
  have digits (n : Nat) : '/' ∉ (toString n).toList := fun h =>
    absurd (Rule.isDigit_toDigits n '/' (by simpa [toString, Nat.repr] using h)) (by decide)
  have shown : p.display.toList =
      p.template.toList ++ (":".toList ++ (toString p.line).toList ++ ":".toList ++ (toString p.column).toList) := by
    unfold Position.display
    simp only [String.toList_append, toString, List.append_assoc]
  have noSlash : '/' ∉ ":".toList ++ (toString p.line).toList ++ ":".toList ++ (toString p.column).toList := by
    have colon : '/' ∉ ":".toList := by decide
    simp only [List.mem_append, not_or]
    exact ⟨⟨⟨colon, digits _⟩, colon⟩, digits _⟩
  unfold directory
  rw [String.toList_append, shown, Text.dropLast_splitOn_append_left (by decide),
    Text.dropLast_splitOn_append_right noSlash]

/-- A text that is evaluated stands where the directive stands. -/
lemma directory_evaluated {p q : Position} (h : directory p.template = directory q.template) :
    directory ("#evaluate at " ++ p.display) = directory ("#evaluate at " ++ q.display) := by
  rw [directory_of_evaluated, directory_of_evaluated, h]

lemma unplacedName_evaluated (p : Position) : unplacedName ("#evaluate at " ++ p.display) = "#evaluate" := by
  refine if_pos (List.isPrefixOf_iff_prefix.mpr ?_)
  rw [String.toList_append]
  exact List.prefix_append _ _

/-! ### Copies in the same directory -/

namespace Relocation

/-- Whether everything stays in its directory. -/
structure Near (g : Relocation) : Prop where
  position : ∀ p, directory (g.position p).template = directory p.template
  source : ∀ s, directory (g.source s).name = directory s.name

lemma near_stay : stay.Near := ⟨fun _ => rfl, fun _ => rfl⟩

/-- What stands in a source is put where the source's text stands at a site. -/
def into (site : Site) (s : Source) : Relocation where
  position p :=
    { site.positionOf ⟨site.absolute p.span.start, site.absolute p.span.stop⟩ with
      template := if p.template = s.name then site.source.name else p.template }
  source s' := if s' = s then site.source else s'

variable {site : Site} {s s' : Source}

lemma rigid_into : (into site s).Rigid where
  touch h := congrArg site.absolute h
  stretch _ _ := rfl

lemma carries_into : (into site s).Carries (.ofSource s) site where
  position a b := by
    show { site.positionOf ⟨site.absolute a, site.absolute b⟩ with
      template := if s.name = s.name then site.source.name else s.name } = _
    rw [if_pos rfl]
    rfl
  source := if_pos rfl

lemma near_into (h : directory site.source.name = directory s.name) : (into site s).Near where
  position p := by
    show directory (if p.template = s.name then site.source.name else p.template) = directory p.template
    split
    · next same => rw [same, h]
    · rfl
  source s' := by
    show directory (if s' = s then site.source else s').name = directory s'.name
    split
    · next same => rw [same, h]
    · rfl

/-- The same text under another name. -/
lemma renames_into (h : s'.text = s.text) : (into (.ofSource s') s).Renames s s' where
  text := h
  rigid := rigid_into
  spans _ := rfl
  carries := carries_into

end Relocation

/-! ### What is found around copied code -/

/-- Two others of templates, each a copy of another one in its directory. -/
inductive Stacked : (Bool → List Template) → Prop
  | nil : Stacked fun _ => []
  | cons {t : Template} {copies : Bool → Template} {g : Bool → Relocation} {others : Bool → List Template} :
    (∀ i, (g i).Near) → (∀ i, (g i).Copies t (copies i)) → Stacked others → Stacked fun i => copies i :: others i

lemma Relocation.copies_stay (t : Template) : stay.Copies t t := by
  refine ⟨?_, rfl, fun name => ?_⟩
  · rw [block, nodeList_stay]
  · rw [funext macroDef_stay, Option.map_id']

lemma Stacked.same (ts : List Template) : Stacked fun _ => ts := by
  induction ts with
  | nil => exact .nil
  | cons t ts ih => exact .cons (fun _ => Relocation.near_stay) (fun _ => Relocation.copies_stay t) ih

namespace Copying

/-- Surroundings that differ only in units and in templates, which are copies. -/
structure Around (types : HostTypes) (env : Bool → RenderEnv) : Prop where
  settings : ∃ c, ∀ i, (env i).settings = c
  types : ∀ i, (env i).types = types
  loaders : ∃ ls, ∀ i, (env i).loaders = ls
  library : ∃ l, ∀ i, (env i).library = l
  clock : ∃ k, ∀ i, (env i).clock = k
  calls : ∃ names, ∀ i, (env i).calls = names
  templates : Stacked fun i => (env i).templates

/-- States that look the same and remember the same, but for choices of members, none of which is wrong. -/
structure Related (types : HostTypes) (s t : RenderState) : Prop where
  view : s.view = t.view
  cache : s.cache = t.cache
  evaluated : s.evaluated = t.evaluated
  readings : s.readings = t.readings
  left : s.Recalls types
  right : t.Recalls types

variable {types : HostTypes} {env : Bool → RenderEnv} {s t : RenderState}

lemma Related.plain {α : Type} {f : RenderState → α × RenderState} (hf : RenderState.Plain f)
    (h : Related types s t) : Related types (f s).2 (f t).2 := by
  have hs := hf.memos s
  have ht := hf.memos t
  simp only [RenderState.memos, Memos.mk.injEq] at hs ht
  obtain ⟨cache, memory, choices, evaluated, readings⟩ := hs
  obtain ⟨cache', memory', choices', evaluated', readings'⟩ := ht
  refine ⟨hf.view h.view, ?_, ?_, ?_, ⟨memory ▸ h.left.memory, choices ▸ h.left.choices⟩,
    ⟨memory' ▸ h.right.memory, choices' ▸ h.right.choices⟩⟩
  · rw [cache, cache', h.cache]
  · rw [evaluated, evaluated', h.evaluated]
  · rw [readings, readings', h.readings]

/-- Renders that fail alike up to places and sources. -/
def pairing (types : HostTypes) : Pairing where
  Related := Related types
  Alike e e' := e.unplaced = e'.unplaced
  view := Related.view
  plain hf _ _ := Related.plain hf
  same _ := rfl

/-! ### Surroundings -/

lemma Around.of_env (env : RenderEnv) : Around env.types fun _ => env where
  settings := ⟨env.settings, fun _ => rfl⟩
  types _ := rfl
  loaders := ⟨env.loaders, fun _ => rfl⟩
  library := ⟨env.library, fun _ => rfl⟩
  clock := ⟨env.clock, fun _ => rfl⟩
  calls := ⟨env.calls, fun _ => rfl⟩
  templates := .same env.templates

lemma Around.opening (ha : Around types env) {t : Template} {copies : Bool → Template} {g : Bool → Relocation}
    (hg : ∀ i, (g i).Near) (hc : ∀ i, (g i).Copies t (copies i)) :
    Around types fun i => (env i).opening (copies i) where
  settings := ha.settings
  types := ha.types
  loaders := ha.loaders
  library := ha.library
  clock := ha.clock
  calls := ha.calls
  templates := .cons hg hc ha.templates

lemma Around.calling (ha : Around types env) (name : String) (u : Bool → CodeUnit) :
    Around types fun i => (env i).calling name (u i) where
  settings := ha.settings
  types := ha.types
  loaders := ha.loaders
  library := ha.library
  clock := ha.clock
  calls := by
    obtain ⟨names, hn⟩ := ha.calls
    exact ⟨name :: names, fun i => congrArg (name :: ·) (hn i)⟩
  templates := ha.templates

lemma opened {ts : Bool → List Template} (h : Stacked ts) : ∃ opened, ∀ i, (ts i).length = opened := by
  induction h with
  | nil => exact ⟨0, fun _ => rfl⟩
  | cons _ _ _ ih =>
    obtain ⟨opened, ho⟩ := ih
    exact ⟨opened + 1, fun i => congrArg (· + 1) (ho i)⟩

lemma resolve {env : Bool → RenderEnv} (h : Stacked fun i => (env i).templates) :
    ∃ resolve, ∀ i, (env i).resolve = resolve := by
  generalize hts : (fun i => (env i).templates) = ts at h
  have templates (i : Bool) : (env i).templates = ts i := congrFun hts i
  cases h with
  | nil =>
    refine ⟨id, fun i => ?_⟩
    unfold RenderEnv.resolve
    rw [templates]
    rfl
  | @cons t copies g others hg hc =>
    refine ⟨fun name => if isRelativeName name then nameWithin t.name name else name, fun i => ?_⟩
    have directories : directory (copies i).name = directory t.name := by
      unfold Template.name
      rw [(hc i).source, (hg i).source]
    unfold RenderEnv.resolve
    rw [templates]
    funext name
    dsimp only
    rw [nameWithin_congr directories]

/-- The macro of a name is a copy of the same macro in both, or there is none. -/
lemma Around.macro? (ha : Around types env) (name : String) : (∀ i, (env i).macro? name = none) ∨
    ∃ (u : Bool → CodeUnit) (k : Bool → Relocation) (d : MacroDef), (∀ i, (k i).Near) ∧
      ∀ i, (env i).macro? name = some (u i, (k i).macroDef d) := by
  have inner {ts : Bool → List Template} (h : Stacked ts) :
      (∀ i, ((ts i).findSome? fun t => (t.macros.get? name).map fun d => (t.unit, d)) = none) ∨
      ∃ (u : Bool → CodeUnit) (k : Bool → Relocation) (d : MacroDef), (∀ i, (k i).Near) ∧
        ∀ i, ((ts i).findSome? fun t => (t.macros.get? name).map fun d => (t.unit, d)) =
          some (u i, (k i).macroDef d) := by
    induction h with
    | nil => exact .inl fun _ => rfl
    | @cons t copies g others hg hc _ ih =>
      simp only [List.findSome?_cons, (hc _).macros]
      cases t.macros.get? name with
      | none => exact ih
      | some d => exact .inr ⟨fun i => (copies i).unit, g, d, hg, fun i => rfl⟩
  obtain ⟨library, hl⟩ := ha.library
  unfold RenderEnv.macro?
  simp only [hl]
  rcases inner ha.templates with none | ⟨u, k, d, hk, found⟩
  · simp only [none]
    cases library.get? name with
    | none => exact .inl fun _ => rfl
    | some found =>
      refine .inr ⟨fun _ => found.1, fun _ => .stay, found.2, fun _ => Relocation.near_stay, fun _ => ?_⟩
      rw [Relocation.macroDef_stay]
      rfl
  · refine .inr ⟨u, k, d, hk, fun i => ?_⟩
    rw [found i]
    rfl

/-- Renders of code and of its copies. -/
def pace (types : HostTypes) : Pace Bool where
  Strict b := ∃ strict, b = fun _ => strict
  Around := Around types
  Place p := directory (p false).template = directory (p true).template
  Holds := (pairing types).Holds
  strict_and := @alike_and Bool
  settings ha := by
    obtain ⟨c, hc⟩ := ha.settings
    exact ⟨c, _, ⟨c.strictReferences, rfl⟩, hc⟩
  types ha := ⟨types, ha.types⟩
  calls ha := ha.calls
  opened ha := opened ha.templates
  resolve ha := resolve ha.templates
  holds_pure := Pairing.holds_pure
  holds_bind := Pairing.holds_bind
  holds_fail {_ _ p} c _ := Pairing.holds_raise (TemplateError.unplaced_at_ c (p false) (p true))
  holds_fail_if := by
    rintro α env _ p m c ⟨strict, rfl⟩ _ h
    cases strict with
    | true => exact Pairing.holds_raise (TemplateError.unplaced_at_ c (p false) (p true))
    | false => exact h
  holds_read h := h
  holds_get he := Pairing.holds_get fun i _ _ h => he i (RenderState.scene_congr h)
  holds_change _ := Pairing.holds_modifyGet (RenderState.plain_change _)
  holds_put name v := Pairing.holds_modifyGet (RenderState.plain_put name v)
  holds_emit := Pairing.holds_emit
  holds_captured := Pairing.holds_captured
  holds_inFrame := Pairing.holds_inFrame
  holds_restoreLoop var item status := Pairing.holds_andThen (RenderState.plain_restoreLoop var item status)
  holds_chosen := by
    intro env p ha _ q s t h
    have left : s.Recalls (env false).types := by
      rw [ha.types]
      exact h.left
    have right : t.Recalls (env true).types := by
      rw [ha.types]
      exact h.right
    obtain ⟨m, cs, hs, ss⟩ := History.chosen_spec left (p false) q
    obtain ⟨m', cs', ht, st⟩ := History.chosen_spec right (p true) q
    rw [ha.types] at hs ht ss st
    show (pairing types).Agree (Render.chosen (p false) q (env false) s) (Render.chosen (p true) q (env true) t)
    rw [hs, ht]
    exact .ok _ ⟨h.view, h.cache, h.evaluated, h.readings, ss, st⟩

lemma sited {g : Bool → Relocation} (hg : ∀ i, (g i).Near) (ps : List Position) : (pace types).Sited g ps := by
  intro p _
  show directory ((g false).position p).template = directory ((g true).position p).template
  rw [(hg false).position, (hg true).position]

/-! ### Calls -/

/-- The one in the first render, and the other in the second. -/
def pair {α : Type} (x y : α) : Bool → α
  | false => x
  | true => y

section

variable {α : Type} {p : Bool → Position}

/-- Errors that are the same up to places and sources. -/
lemma holds_raise {e : Bool → TemplateError} (h : (e false).unplaced = (e true).unplaced) :
    (pace types).Holds env fun i => (Render.raise (e i) : Render α) :=
  Pairing.holds_raise (P := pairing types) h

/-- An error that leaves an activation at either place stays the same error. -/
lemma holds_leaving {source : Bool → Source} {m : Bool → Render α} (a : Activation) (p : Bool → Position)
    (h : (pace types).Holds env m) :
    (pace types).Holds env fun i => (m i).onError fun e => (e.inSource (source i)).leaving a (p i) := by
  have told {e e' : TemplateError} (same : e.unplaced = e'.unplaced) :
      ((e.inSource (source false)).leaving a (p false)).unplaced =
        ((e'.inSource (source true)).leaving a (p true)).unplaced := by
    refine TemplateError.unplaced_leaving_congr ?_ a _ _
    rw [TemplateError.unplaced_inSource, TemplateError.unplaced_inSource, same]
  exact Pairing.holds_onError (P := pairing types) (f := fun i e => (e.inSource (source i)).leaving a (p i)) told h

lemma holds_orRaise (a : Activation) (p : Bool → Position) (r : Except TemplateError α) :
    (pace types).Holds env fun i => Render.orRaise (·.leaving a (p i)) r := by
  cases r with
  | ok x => exact (pace types).holds_pure x
  | error e => exact holds_raise (TemplateError.unplaced_leaving_congr rfl a _ _)

/-- Asking for a template answers the same in both renders, and so does asking for a text. -/
lemma holds_template (ha : Around types env) (name : String) :
    (pace types).Holds env fun _ => Render.template name := by
  obtain ⟨ls, hl⟩ := ha.loaders
  obtain ⟨clock, hc⟩ := ha.clock
  intro s t h
  have run {e : RenderEnv} (hl : e.loaders = ls) (hc : e.clock = clock) (s : RenderState) :
      Render.template name e s = .ok (s.cache.get ls (clock s.readings) name).answer
        { s with cache := (s.cache.get ls (clock s.readings) name).cache, readings := s.readings + 1 } := by
    subst hl hc
    rfl
  show (pairing types).Agree (Render.template name (env false) s) (Render.template name (env true) t)
  rw [run (hl false) (hc false), run (hl true) (hc true), h.cache, h.readings]
  exact .ok _ ⟨h.view, rfl, h.evaluated, rfl, ⟨h.left.memory, h.left.choices⟩, ⟨h.right.memory, h.right.choices⟩⟩

lemma holds_resource (ha : Around types env) (name : String) :
    (pace types).Holds env fun _ => Render.resource name := by
  obtain ⟨ls, hl⟩ := ha.loaders
  intro s t h
  have run {e : RenderEnv} (hl : e.loaders = ls) (s : RenderState) :
      Render.resource name e s =
        .ok (s.cache.readText name 0 ls).answer { s with cache := (s.cache.readText name 0 ls).cache } := by
    subst hl
    rfl
  show (pairing types).Agree (Render.resource name (env false) s) (Render.resource name (env true) t)
  rw [run (hl false), run (hl true), h.cache]
  exact .ok _ ⟨h.view, rfl, h.evaluated, h.readings, ⟨h.left.memory, h.left.choices⟩,
    ⟨h.right.memory, h.right.choices⟩⟩

lemma holds_nextUnit : (pace types).Holds env fun _ => Render.nextUnit := by
  intro s t h
  show (pairing types).Agree (.ok (CodeUnit.evaluated s.evaluated) { s with evaluated := s.evaluated + 1 })
    (.ok (CodeUnit.evaluated t.evaluated) { t with evaluated := t.evaluated + 1 })
  rw [h.evaluated]
  exact .ok _ ⟨h.view, h.cache, rfl, h.readings, ⟨h.left.memory, h.left.choices⟩,
    ⟨h.right.memory, h.right.choices⟩⟩

end

/-- Expressions and blocks that are copied in their directories agree with one another, however deep they follow
code. -/
def Agrees (types : HostTypes) (depth : Nat) : Prop :=
  ∀ {env : Bool → RenderEnv} {g : Bool → Relocation}, Around types env → (∀ i, (g i).Near) →
    (∀ e, (pace types).Evaluates (fun _ => .ofDepth depth) g env e) ∧
      ∀ b, (pace types).Renders (fun _ => .ofDepth depth) g env b

section

variable {depth : Nat} {g : Bool → Relocation}

lemma holds_nested (h : Agrees types depth) (ha : Around types env) {t : Template} {copies : Bool → Template}
    (hg : ∀ i, (g i).Near) (hc : ∀ i, (g i).Copies t (copies i)) (a : Activation) (p : Bool → Position)
    {around : Render Flow → Render Flow}
    (hr : ∀ {env} {m : Bool → Render Flow}, (pace types).Holds env m →
      (pace types).Holds env fun i => around (m i)) :
    (pace types).Holds env fun i => (Interpreter.ofDepth depth).nested (copies i) a (p i) around := by
  have root := hr ((h (ha.opening hg hc) hg).2 t.root)
  have opened : (pace types).Holds env fun i =>
      (around ((Interpreter.ofDepth depth).render (copies i).root)).inTemplate (copies i) := by
    simp only [(hc _).root]
    exact root
  exact holds_leaving a p opened

lemma holds_parse (h : Agrees types depth) (ha : Around types env) (hg : ∀ i, (g i).Near) (arg : Expr)
    (p : Position) : (pace types).Holds env fun i =>
      (Interpreter.ofDepth depth).parse ((g i).expr arg) ((g i).position p) := by
  simp only [Interpreter.parse_eq]
  refine (pace types).holds_parseBy ha (sited hg _ _ (List.mem_singleton_self _)) ((h ha hg).1 arg)
    (sited hg _ _ (List.mem_singleton_self _)) (f := fun i name => do
      let t ← Render.orRaise (·.leaving (.parse name) ((g i).position p)) (← Render.template name)
      let flow ← (Interpreter.ofDepth depth).nested t (.parse name) ((g i).position p) Render.inFrame
      return if flow.endsTemplate then .next else flow) fun _ name => ?_
  refine (pace types).holds_bind (holds_template ha name) fun answer => ?_
  refine (pace types).holds_bind (holds_orRaise _ _ answer) fun t => ?_
  have nested := holds_nested h ha (fun _ => Relocation.near_stay) (fun _ => Relocation.copies_stay t) (.parse name)
    (fun i => (g i).position p) (pace types).holds_inFrame
  exact (pace types).holds_bind nested fun flow => (pace types).holds_pure _

lemma holds_inclusions (h : Agrees types depth) (ha : Around types env) (hg : ∀ i, (g i).Near) (args : List Expr)
    (p : Position) : (pace types).Holds env fun i =>
      ((g i).exprList args).forM ((Interpreter.ofDepth depth).inclusion ((g i).position p)) := by
  refine (pace types).holds_forM fun arg _ => ?_
  simp only [Interpreter.inclusion_eq]
  refine (pace types).holds_includeBy ha (sited hg _ _ (List.mem_singleton_self _)) ((h ha hg).1 arg) fun name => ?_
  exact (pace types).holds_bind (holds_resource ha name) fun answer => holds_orRaise _ _ answer

/-- A text that is evaluated at two places compiles to a template and a copy of it, or fails alike. -/
lemma holds_evaluateText (h : Agrees types depth) (ha : Around types env) (hg : ∀ i, (g i).Near) (arg : Expr)
    (p : Position) : (pace types).Holds env fun i =>
      (Interpreter.ofDepth depth).evaluateText ((g i).expr arg) ((g i).position p) := by
  obtain ⟨c, hs⟩ := ha.settings
  have place : (pace types).Place fun i => (g i).position p := sited hg _ _ (List.mem_singleton_self p)
  simp only [Interpreter.evaluateText_eq]
  refine (pace types).holds_evaluateBy ((h ha hg).1 arg) (f := fun i text => do
      let unit ← Render.nextUnit
      let policy := (← read).settings.gobbling
      let t ← Render.orRaise (·.leaving .evaluation ((g i).position p))
        (Template.compile unit ⟨"#evaluate at " ++ ((g i).position p).display, text⟩ policy)
      (Interpreter.ofDepth depth).nested t .evaluation ((g i).position p) id) fun text => ?_
  refine (pace types).holds_bind holds_nextUnit fun unit => ?_
  refine (pace types).holds_read ?_
  simp only [hs]
  have names := (unplacedName_evaluated ((g false).position p)).trans
    (unplacedName_evaluated ((g true).position p)).symm
  obtain ⟨k, near, renames⟩ : ∃ k : Relocation, k.Near ∧
      k.Renames ⟨"#evaluate at " ++ ((g false).position p).display, text⟩
        ⟨"#evaluate at " ++ ((g true).position p).display, text⟩ :=
    ⟨_, Relocation.near_into (directory_evaluated place).symm, Relocation.renames_into rfl⟩
  rcases Template.compile_moved renames names unit unit c.gobbling with
    ⟨t, t', compiled, compiled', copies⟩ | ⟨e, e', refused, refused', same⟩
  · have near (i : Bool) : (pair .stay k i).Near := by
      cases i
      · exact Relocation.near_stay
      · exact near
    have copied (i : Bool) : (pair .stay k i).Copies t (pair t t' i) := by
      cases i
      · exact Relocation.copies_stay t
      · exact copies
    have both : (pace types).Holds env fun i =>
        (Interpreter.ofDepth depth).nested (pair t t' i) .evaluation ((g i).position p) id :=
      holds_nested h ha near copied .evaluation (fun i => (g i).position p) fun hm => hm
    refine (pace types).holds_congr both fun i => ?_
    cases i
    · rw [compiled]
      rfl
    · rw [compiled']
      rfl
  · have raised : (pace types).Holds env fun i =>
        (Render.raise ((pair e e' i).leaving .evaluation ((g i).position p)) : Render Flow) :=
      holds_raise (TemplateError.unplaced_leaving_congr same _ _ _)
    refine (pace types).holds_congr raised fun i => ?_
    cases i
    · rw [refused]
      rfl
    · rw [refused']
      rfl

/-- A macro and its copy do the same, where either of them may be called. -/
lemma holds_invoke (h : Agrees types depth) (ha : Around types env) {k : Bool → Relocation} (hk : ∀ i, (k i).Near)
    (u : Bool → CodeUnit) (d : MacroDef) {p : Bool → Position} (hp : (pace types).Place p) (args : Arguments)
    (content : Option String) : (pace types).Holds env fun i =>
      (Interpreter.ofDepth depth).invoke (u i) ((k i).macroDef d) (p i) args content := by
  obtain ⟨c, hs⟩ := ha.settings
  obtain ⟨calls, hn⟩ := ha.calls
  have name (i : Bool) : ((k i).macroDef d).name = d.name := by cases d; rfl
  have body : (pace types).Holds env fun i => Interpreter.inMacro (u i) ((k i).macroDef d) (p i)
      ((Interpreter.ofDepth depth).runMacro ((k i).macroDef d) args content) := by
    unfold Interpreter.inMacro
    refine (pace types).holds_read ?_
    simp only [hs, hn, name]
    by_cases deep : c.macroMaxDepth ≤ calls.length
    · simp only [if_pos deep]
      exact (pace types).holds_fail _ hp
    · simp only [if_neg deep]
      have inside := h (ha.calling d.name u) hk
      exact (pace types).holds_runMacro (fun q _ e _ => inside.1 e) (inside.2 d.body) args content
  unfold Interpreter.invoke
  simp only [name]
  exact (pace types).holds_bind (holds_leaving (.macroCall d.name) p body) fun flow => (pace types).holds_pure _

/-! ### Nodes -/

/-- A node and its copy do the same. -/
lemma holds_node (h : Agrees types depth) (ha : Around types env) (hg : ∀ i, (g i).Near) (n : Node) :
    (pace types).Holds env fun i => (Interpreter.ofDepth depth).node ((g i).node n) := by
  have inside := h ha hg
  refine (pace types).holds_node ha (sited hg _) (fun e _ => inside.1 e) (fun b _ => inside.2 b) fun hc => ?_
  obtain ⟨kind, p⟩ := n
  cases kind with
  | macroCall c =>
    have here : (pace types).Place fun i => (g i).position p := sited hg _ p (List.mem_singleton_self _)
    refine (pace types).holds_macroCallBy (c := c) ha here (sited hg _)
      (fun arg _ => inside.1 arg.value) (fun b _ => inside.2 b)
      (f := fun i unit d args content =>
        (Interpreter.ofDepth depth).invoke unit d ((g i).position p) args content) ?_
    rcases ha.macro? c.name with none | ⟨u, k, d, hk, found⟩
    · exact .inl none
    · exact .inr ⟨u, k, d, found, fun args content => holds_invoke h ha hk u d here args content⟩
  | parse arg => exact holds_parse h ha hg arg p
  | inclusion args => exact (pace types).holds_doing (holds_inclusions h ha hg args p)
  | evaluate arg => exact holds_evaluateText h ha hg arg p
  | _ => cases hc

/-- However deep code is nested, it agrees with its copies. -/
theorem agrees (types : HostTypes) (depth : Nat) : Agrees types depth := by
  induction depth with
  | zero => exact fun _ _ => ⟨fun e lenient _ _ h => .exhausted h, fun b _ _ h => .exhausted h⟩
  | succ depth ih =>
    intro env g ha hg
    have inside := ih ha hg
    refine ⟨fun e lenient => ?_, fun b => ?_⟩
    · exact (pace types).holds_evaluate ha (sited hg _) (fun x _ => inside.1 x) (fun b _ => inside.2 b) lenient
    · exact (pace types).holds_block fun n _ => holds_node ih ha hg n

end

end Copying

end Stencil
