import Stencil.Proofs.Confinement
import Stencil.Proofs.Copies
import Stencil.Proofs.Leaving
import Stencil.Proofs.Retention

/-!
# Relative names in evaluated texts

A text that is evaluated is named after the place of its directive, and relative names in it start from there: the words
before that place become part of the first step of the path. Main statement: `Event.Evaluates.relative_names`.
-/

namespace Stencil

/-! ### Paths whose first steps differ -/

/-- Whether the steps of a relative name lead, at some point on the way, out of all that the directory of a template is
made of. -/
def ReachesTop (current name : String) : Prop :=
  ∃ front, front <+: pathParts name ∧ front.foldl addPart (pathParts current).dropLast.reverse = []

/-- Two paths, the last part first, of which one has something before the first part of the other. Where that part is a
step upwards it cannot be taken away, whereas the other one can. -/
inductive Apart (v first : String) : List String → List String → Prop
  | kept (path : List String) : Apart v first (path ++ [v ++ first]) (path ++ [first])
  | above (path : List String) : first = ".." → Apart v first path (path ++ ["..", ".."])

section

variable {v first part : String} {path path' : List String}

/-- A part is added at one end of a path, and it does not matter what is at the other. -/
lemma addPart_append (h : path ≠ []) (rest : List String) (part : String) :
    addPart (path ++ rest) part = addPart path part ++ rest := by
  obtain ⟨top, others, rfl⟩ := List.exists_cons_of_ne_nil h
  unfold addPart
  dsimp only [List.cons_append]
  split_ifs <;> rfl

/-- What is no step upwards does not matter to the path at all. -/
lemma addPart_append_of_ne_up (h : part ≠ "..") (path rest : List String) :
    addPart (path ++ rest) part = addPart path part ++ rest := by
  unfold addPart
  rw [if_neg h, if_neg h]
  split_ifs <;> rfl

/-- A part keeps two such paths apart, unless it leads to the top. -/
lemma Apart.step (h : Apart v first path path') (ordinary : v ++ first ≠ "..") (part : String) :
    Apart v first (addPart path part) (addPart path' part) ∨ addPart path part = [] ∧ addPart path' part = [] := by
  cases h with
  | kept path =>
    by_cases up : path = [] ∧ part = ".."
    · obtain ⟨rfl, rfl⟩ := up
      by_cases above : first = ".."
      · subst above
        left
        simpa [addPart, ordinary] using Apart.above (v := v) [] rfl
      · right
        simp [addPart, ordinary, above]
    · have added (last : String) : addPart (path ++ [last]) part = addPart path part ++ [last] := by
        by_cases empty : path = []
        · exact addPart_append_of_ne_up (fun same => up ⟨empty, same⟩) path _
        · exact addPart_append empty _ part
      rw [added, added]
      exact .inl (.kept _)
  | above path up =>
    left
    have added : addPart (path ++ ["..", ".."]) part = addPart path part ++ ["..", ".."] := by
      cases path with
      | cons top rest => exact addPart_append (List.cons_ne_nil _ _) _ part
      | nil =>
        by_cases same : part = ".."
        · subst same
          rfl
        · exact addPart_append_of_ne_up same [] _
    rw [added]
    exact .above _ up

/-- Two such paths stay apart along a name, unless some steps of it lead to the top; from there on they are the same. -/
lemma Apart.steps (h : Apart v first path path') (ordinary : v ++ first ≠ "..") (parts : List String) :
    Apart v first (parts.foldl addPart path) (parts.foldl addPart path') ∨
      ∃ front, front <+: parts ∧ front.foldl addPart path = [] ∧ front.foldl addPart path' = [] := by
  induction parts generalizing path path' with
  | nil => exact .inl h
  | cons part parts ih =>
    rcases h.step ordinary part with apart | ⟨top, top'⟩
    · rcases ih apart with apart | ⟨front, initial, top, top'⟩
      · exact .inl apart
      · exact .inr ⟨part :: front, (List.prefix_cons_inj part).mpr initial, top, top'⟩
    · exact .inr ⟨[part], (List.prefix_cons_inj part).mpr (List.nil_prefix ..), top, top'⟩

lemma foldl_addPart_congr {front parts : List String} (initial : front <+: parts)
    (same : front.foldl addPart path = front.foldl addPart path') :
    parts.foldl addPart path = parts.foldl addPart path' := by
  obtain ⟨rest, rfl⟩ := initial
  rw [List.foldl_append, List.foldl_append, same]

lemma Apart.ne_nil (h : Apart v first path path') : path' ≠ [] := by
  cases h with
  | kept path => exact List.append_ne_nil_of_right_ne_nil _ (List.cons_ne_nil _ _)
  | above path => exact List.append_ne_nil_of_right_ne_nil _ (List.cons_ne_nil _ _)

/-- Paths that are apart are written differently. -/
lemma Apart.intercalate_ne (h : Apart v first path path') (hv : v ≠ "") :
    "/".intercalate path.reverse ≠ "/".intercalate path'.reverse := by
  have written : 0 < v.length := Nat.pos_of_ne_zero fun none => hv (String.length_eq_zero_iff.mp none)
  intro same
  have lengths := congrArg String.length same
  cases h with
  | kept path =>
    rw [List.reverse_append, List.reverse_append, List.reverse_singleton, List.reverse_singleton, List.singleton_append,
      List.singleton_append, String.intercalate_cons_append, String.length_append] at lengths
    omega
  | above path up =>
    rw [List.reverse_append] at lengths
    by_cases empty : path = []
    · subst empty
      exact absurd lengths (by decide)
    · rw [String.intercalate_append_of_ne_nil (by decide) (by simpa using empty), String.length_append,
        String.length_append] at lengths
      have : "/".length = 1 := rfl
      omega

end

/-! ### Names in evaluated texts -/

/-- What a relative name means does not change where the first part of the directory gets something before it, exactly
if the name leads to the top on its way. -/
theorem nameWithin_eq_iff {current current' : String} {v : String} (hv : v ≠ "") (hu : ∀ first, v ++ first ≠ "..")
    (h : directory current' = (directory current).modifyHead (v.toList ++ ·)) (name : String) :
    nameWithin current' name = nameWithin current name ↔ ReachesTop current name := by
  have parts (current : String) : (pathParts current).dropLast = (directory current).map String.ofList :=
    (List.map_dropLast ..).symm
  unfold ReachesTop nameWithin
  rw [parts, parts, h]
  cases directory current with
  | nil => exact iff_of_true rfl ⟨[], List.nil_prefix .., rfl⟩
  | cons first others =>
    rw [List.modifyHead_cons, List.map_cons, List.map_cons, List.reverse_cons, List.reverse_cons, String.ofList_append,
      String.ofList_toList]
    have apart := @Apart.kept v (.ofList first) (others.map String.ofList).reverse
    constructor
    · intro same
      rcases apart.steps (hu _) (pathParts name) with apart | ⟨front, initial, -, top⟩
      · exact absurd same (apart.intercalate_ne hv)
      · exact ⟨front, initial, top⟩
    · rintro ⟨front, initial, top⟩
      rcases apart.steps (hu _) front with apart | ⟨front', initial', top, top'⟩
      · exact absurd top apart.ne_nil
      · dsimp only
        rw [foldl_addPart_congr (initial'.trans initial) (top.trans top'.symm)]

/-! ### Templates on top of one another -/

/-- A walk in which every node is executed on top of the templates around it. -/
def Walk.Stacks {α : Type} (w : Walk α) : Prop :=
  ∀ env opened s, ∀ u ∈ w.trace env opened s, env.templates <:+ u.env.templates

namespace Walk.Stacks

variable {α β : Type} {w : Walk α}

lemma act (m : Render α) : Stacks (act m) := fun _ _ _ _ hu => by cases hu

lemma pure (x : α) : Stacks (pure x : Walk α) := fun _ _ _ _ hu => by cases hu

lemma bind (hw : w.Stacks) {f : α → Walk β} (hf : ∀ x, (f x).Stacks) : Stacks (w >>= f) := by
  intro env opened s u hu
  rw [trace_bind] at hu
  rcases List.mem_append.mp hu with first | second
  · exact hw env opened s u first
  · split at second
    · exact hf _ _ _ _ u second
    · cases second

lemma under {g : RenderEnv → RenderEnv} (hw : w.Stacks) (hg : ∀ env, env.templates <:+ (g env).templates) :
    (Walk.under g w).Stacks :=
  fun env opened s u hu => (hg env).trans (hw (g env) opened s u hu)

lemma telling (f : TemplateError → TemplateError) (hw : w.Stacks) : (Walk.telling f w).Stacks := hw

lemma opening (o : Opened) (hw : w.Stacks) : (Walk.opening o w).Stacks :=
  fun env opened s u hu => hw env (o :: opened) s u hu

lemma follow {w rest : Walk Flow} (hw : w.Stacks) (hr : rest.Stacks) : (Walk.follow w rest).Stacks := by
  refine hw.bind fun flow => ?_
  cases flow with
  | next => exact hr
  | leave scope => exact pure _
  | stop => exact pure _

lemma within (o : Opened) {w : Walk Flow} (hw : w.Stacks) : (Walk.within o w).Stacks :=
  (hw.opening o).bind fun _ => pure _

end Walk.Stacks

lemma stacks_content {depth : Nat} {body : Block} (h : ((Walker.ofDepth depth).render body).Stacks) :
    ((Walker.ofDepth depth).content body).Stacks := by
  refine .bind (.act _) fun outer => .bind (.act _) fun _ => .opening _ (.bind h fun _ => ?_)
  exact .bind (.act _) fun _ => .pure _

lemma stacks_visit (n : Node) : (Walk.visit n).Stacks := by
  intro env opened s u hu
  obtain rfl := List.mem_singleton.mp hu
  exact List.suffix_rfl

def Walk.Law.stacking : Walk.Law where
  Holds _ w := w.Stacks
  holds_act := .act
  holds_act_bind m _ hf := .bind (.act m) hf
  loosen hw := hw
  holds_follow := .follow
  holds_within _ hw := hw.within _
  holds_under hg hw := .under hw hg
  holds_telling := .telling
  holds_call hb hrest := by
    refine (stacks_content hb).bind fun (flow, text) => ?_
    dsimp only
    split
    · exact .pure _
    · exact hrest text
  holds_node {_ n} h := (stacks_visit n).bind fun _ => h

/-- Whatever a render executes, it executes on top of the templates that it started with. -/
theorem stacks_render (depth : Nat) (b : Block) : ((Walker.ofDepth depth).render b).Stacks :=
  Walk.Law.stacking.holds_render depth b

/-! ### Texts in texts -/

/-- What the name of a text starts with that is evaluated in a text, that is evaluated in a text, and so on. -/
def evaluations : Nat → String
  | 0 => ""
  | k + 1 => "#evaluate at " ++ evaluations k

lemma directory_evaluations_append (k : Nat) (name : String) :
    directory (evaluations k ++ name) = (directory name).modifyHead ((evaluations k).toList ++ ·) := by
  have noSlash : '/' ∉ (evaluations k).toList := by
    induction k with
    | zero => exact List.not_mem_nil
    | succ k ih =>
      rw [evaluations, String.toList_append, List.mem_append, not_or]
      exact ⟨by decide, ih⟩
  unfold directory
  rw [String.toList_append, Text.dropLast_splitOn_append_left noSlash]

/-- In a text that is evaluated, a relative name means the same as around it exactly if it leads to the top. -/
lemma nameWithin_evaluations_iff (k : Nat) (current name : String) :
    nameWithin (evaluations (k + 1) ++ current) name = nameWithin current name ↔ ReachesTop current name := by
  refine nameWithin_eq_iff (v := evaluations (k + 1)) (fun none => ?_) (fun first same => ?_)
    (directory_evaluations_append ..) name
  · have first := congrArg (fun text : String => text.toList.head?) none
    rw [evaluations, String.toList_append] at first
    cases first
  · have head := congrArg (fun text : String => text.toList.head?) same
    rw [evaluations, String.toList_append, String.toList_append] at head
    cases head

/-- The name of the template that is being rendered, if there is one. -/
def RenderEnv.current? (env : RenderEnv) : Option String := env.templates.head?.map (·.name)

/-- Whether a directive whose argument has the text `given` asks for the resource `name`. -/
def RenderEnv.AsksFor (env : RenderEnv) (given name : String) : Prop :=
  ∀ (self : Interpreter) (arg : Expr) (directive : String) (s s' : RenderState) (v : Value),
    self.value arg env s = .ok v s' → v.isNull = false → v.display s'.store = given →
    self.resourceName arg directive env s = .ok name s'

namespace Event

/-- The nodes that a text executes, which a number of directives have evaluated in one another: each of these stands in
the text, or in the template, that executes it. -/
inductive Evaluates (v : Event) : Nat → Event → Prop
  | here : Evaluates v 0 v
  /-- A text that is evaluated executes a node. -/
  | text {k depth : Nat} {arg : Expr} {w u : Event} : Evaluates v k w → w.node.kind = .evaluate arg →
    w.env.current? = some w.node.position.template → u ∈ w.trace depth →
    u.env.templates.length = w.env.templates.length + 1 → Evaluates v (k + 1) u
  /-- A string that is written in place executes a node. -/
  | string {k depth : Nat} {body : Block} {s : RenderState} {w u : Event} : Evaluates v k w →
    u ∈ body.watch depth w.env s → u.env.templates.length = w.env.templates.length → Evaluates v k u

/-- What is compiled while rendering has the name of its source. -/
lemma name_of_compiled {unit : CodeUnit} {source : Source} {policy : GobblingPolicy} {env : RenderEnv}
    {f : TemplateError → TemplateError} {s s' : RenderState} {t : Template}
    (compiled : Render.orRaise f (Template.compile unit source policy) env s = .ok t s') : t.name = source.name := by
  cases made : Template.compile unit source policy with
  | error e =>
    rw [made] at compiled
    cases compiled
  | ok made' =>
    rw [made] at compiled
    cases compiled
    exact congrArg Source.name (Template.eq_of_compile made).1

/-- The text that a directive evaluates is named after the place of the directive. -/
lemma current?_of_trace {depth : Nat} {arg : Expr} {w u : Event} (kind : w.node.kind = .evaluate arg)
    (executed : u ∈ w.trace depth) (above : u.env.templates.length = w.env.templates.length + 1) :
    u.env.current? = some ("#evaluate at " ++ w.node.position.display) := by
  obtain ⟨⟨_, p⟩, env, opened, s⟩ := w
  obtain rfl := kind
  rcases List.mem_cons.mp executed with rfl | inside
  · exact absurd above (Nat.ne_of_lt (Nat.lt_succ_self _))
  · change u ∈ ((Walker.ofDepth depth).evaluateText arg p).trace env opened s at inside
    unfold Walker.evaluateText at inside
    rw [Walk.trace_act_bind] at inside
    split at inside
    · next v s' value =>
      dsimp only at inside
      split at inside
      · cases inside
      · rw [Walk.trace_act_bind] at inside
        split at inside
        · next t s'' compiled =>
          have named : t.name = "#evaluate at " ++ p.display := name_of_compiled compiled
          have stacked := stacks_render depth t.root (env.opening t) opened s'' u inside
          have same := stacked.eq_of_length above.symm
          unfold RenderEnv.current?
          rw [← same]
          exact congrArg some named
        · cases inside
    · cases inside

lemma Evaluates.directory {k : Nat} {v u : Event} (h : Evaluates v k u) {current : String}
    (hv : v.env.current? = some current) :
    ∃ name, u.env.current? = some name ∧
      Stencil.directory name = (Stencil.directory current).modifyHead ((evaluations k).toList ++ ·) := by
  induction h with
  | here => exact ⟨current, hv, (congrFun List.modifyHead_id _).symm⟩
  | @text k depth arg w u _ kind written executed above ih =>
    obtain ⟨name, hw, directories⟩ := ih
    obtain rfl : w.node.position.template = name := Option.some.inj (written.symm.trans hw)
    refine ⟨_, current?_of_trace kind executed above, ?_⟩
    rw [directory_of_evaluated, directories, List.modifyHead_modifyHead, evaluations, String.toList_append]
    congr 1
  | @string k depth body s w u _ executed same ih =>
    have templates := (stacks_render depth body w.env [] s u executed).eq_of_length same.symm
    unfold RenderEnv.current? at ih ⊢
    rwa [← templates]

end Event

lemma RenderEnv.asksFor_relative {env : RenderEnv} {current given : String} (h : env.current? = some current)
    (relative : isRelativeName given = true) : env.AsksFor given (nameWithin current given) := by
  intro self arg directive s s' v value null shown
  rw [Interpreter.resourceName_of_value value null, shown]
  unfold RenderEnv.current? at h
  rw [h, nameFrom, if_pos relative]

/-- **Relative names in evaluated texts.** Where texts are evaluated in one another, a directive in the innermost one
takes a relative name for a path from a directory whose first part is no directory: it starts with the words
`#evaluate at`, once for each of the texts. It asks for the resource that it asks for in the template itself exactly if
the name leads out of the directory of that template on its way, as every name does where the template is in none. -/
theorem Event.Evaluates.relative_names {v u : Event} {k : Nat} (h : Evaluates v (k + 1) u) {current given : String}
    (hv : v.env.current? = some current) (relative : isRelativeName given = true) :
    ∃ inside direct, u.env.AsksFor given inside ∧ v.env.AsksFor given direct ∧
      inside = nameWithin (evaluations (k + 1) ++ current) given ∧ direct = nameWithin current given ∧
      (inside = direct ↔ ReachesTop current given) := by
  obtain ⟨name, hu, directories⟩ := h.directory hv
  have meant : nameWithin name given = nameWithin (evaluations (k + 1) ++ current) given :=
    nameWithin_congr (directories.trans (directory_evaluations_append ..).symm) given
  refine ⟨_, _, RenderEnv.asksFor_relative hu relative, RenderEnv.asksFor_relative hv relative, meant, rfl, ?_⟩
  rw [meant]
  exact nameWithin_evaluations_iff k current given

/-- A page in a directory that evaluates a directive: a name that leads up to the top means what it means in the
page. -/
theorem Event.Evaluates.relative_names_to_top :
    ∃ v u, Evaluates v 1 u ∧ v.env.current? = some "pages/home.vm" ∧
      ∃ name, u.env.AsksFor "../part.vm" name ∧ v.env.AsksFor "../part.vm" name := by
  have executed : (Template.compile .inline ⟨"pages/home.vm", "#evaluate('#parse(\"../part.vm\")')"⟩ .none).toOption.any
      (fun t => ((Engine.initial .standard).watch 3 (.ofTemplates [] id) t .empty .empty .empty).any fun v =>
        (v.node.kind matches .evaluate _) && v.env.current? == some "pages/home.vm" &&
          v.node.position.template == "pages/home.vm" &&
          (v.trace 2).any fun u => u.env.templates.length == v.env.templates.length + 1) = true := by
    decide +kernel
  obtain ⟨t, -, watched⟩ := (Option.any_eq_true ..).mp executed
  obtain ⟨v, -, found⟩ := List.any_eq_true.mp watched
  simp only [Bool.and_eq_true, beq_iff_eq, List.any_eq_true] at found
  obtain ⟨⟨⟨kind, current⟩, written⟩, u, inside, above⟩ := found
  have evaluates : Evaluates v 1 u := by
    split at kind
    · next arg same => exact .text .here same (current.trans (congrArg some written.symm)) inside above
    · cases kind
  have relative : isRelativeName "../part.vm" = true := by decide
  obtain ⟨name, direct, asked, asked', -, -, iff⟩ := evaluates.relative_names current relative
  have top : ReachesTop "pages/home.vm" "../part.vm" := ⟨[".."], by decide +kernel, by decide +kernel⟩
  exact ⟨v, u, evaluates, current, name, asked, iff.mpr top ▸ asked'⟩

namespace Engine

/-- A part that is beside a page is found by the page, and not by a text that the page evaluates. -/
theorem lost_in_evaluated_text :
    let h := Host.ofTemplates [("pages/home.vm", "#evaluate('#parse(\"./part.vm\")')"),
      ("pages/plain.vm", "#parse('./part.vm')"), ("pages/part.vm", "P")] id
    let render (name : String) := (initial .standard).renderNamed h name .empty .empty .empty
    (render "pages/plain.vm").halt.isNone ∧ (render "pages/plain.vm").sink.written = "P" ∧
      ((render "pages/home.vm").halt matches
        some (.failed (.single ⟨.noLoader "#evaluate at pages/part.vm", _, _, _⟩))) := by
  decide +kernel

end Engine

end Stencil
