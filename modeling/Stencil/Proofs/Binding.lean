import Stencil.Proofs.Definitions
import Stencil.Proofs.Screening
import Stencil.Proofs.Sparing

/-!
# How a macro binds its parameters

The parameters of a macro are bound in the order of their declaration, in a frame of the macro's own: to the argument
that names them, or else to the next argument without a name, or else to their default, which sees the parameters
before them, or else to null. Main statement: `Interpreter.binds_as_declared`.
-/

namespace Stencil

/-! ### What a call gives to a macro -/

/-- The arguments of a call in order, each with the name that it has, if any, and with its value. -/
abbrev Given := List (Option String × Value)

def MacroCall.given (c : MacroCall) (vs : List Value) : Given := (c.args.map (·.name)).zip vs

namespace Given

def positional (g : Given) : List Value := g.filterMap fun a => if a.1.isNone then some a.2 else none

def labelled (g : Given) : List (String × Value) := g.filterMap fun a => a.1.map (·, a.2)

def named? (g : Given) (name : String) : Option Value := g.labelled.lookup name

/-- The number of parameters that no argument names. -/
def unnamed (g : Given) (params : List Param) : Nat := params.countP fun q => (g.named? q.name).isNone

/-- The argument for a parameter, given the parameters before it: the one that names it, or else the next of those
without a name, where each of the parameters before it took one unless it was named. -/
def handed (g : Given) (earlier : List Param) (q : Param) : Option Value :=
  (g.named? q.name).or g.positional[g.unnamed earlier]?

/-- Some argument names no parameter, or references are strict and there are more arguments without a name than
parameters that no argument names. -/
def Refused (g : Given) (d : MacroDef) (strict : Bool) : Prop :=
  (∃ a ∈ g.labelled, ∀ q ∈ d.params, q.name ≠ a.1) ∨
    (strict = true ∧ g.unnamed d.params < g.positional.length)

/-- The arguments in the form in which a macro is run on them. -/
def arguments (g : Given) : Arguments := ⟨g.positional, ⟨g.labelled⟩⟩

end Given

/-- The errors with which the arguments of a call are refused. -/
inductive MacroCall.Refusal (c : MacroCall) (d : MacroDef) (p : Position) : TemplateError → Prop
  | unknown {a : Argument} {name : String} : a ∈ c.args → a.name = some name → (∀ q ∈ d.params, q.name ≠ name) →
    Refusal c d p (.at_ (.render (.unknownArgument d.name name)) a.value.position)
  | tooMany : Refusal c d p (.at_ (.render (.tooManyArguments d.name d.params.length c.args.length)) p)

/-! ### How the parameters are bound -/

namespace Interpreter

/-- The value that a parameter gets: that of its argument, or else of its default, or else null. -/
inductive Obtains (self : Interpreter) (env : RenderEnv) (s : RenderState) :
    Option Value → Option Expr → Value → RenderState → Prop
  | argument {v : Value} {fallback : Option Expr} : Obtains self env s (some v) fallback v s
  | fallback {e : Expr} {v : Value} {t : RenderState} :
    self.value e env s = .ok v t → Obtains self env s none (some e) v t
  | null : Obtains self env s none none .null s

/-- The first `n` of some parameters are bound one after the other: the `i`-th gets its value in the state `before i`,
and is put into the state that this leaves. -/
def Binds (self : Interpreter) (g : Given) (params : List Param) (env : RenderEnv) (n : Nat)
    (before : Nat → RenderState) (value : Nat → Value) : Prop :=
  ∀ i q, i < n → params[i]? = some q → ∃ t,
    self.Obtains env (before i) (g.handed (params.take i) q) q.fallback (value i) t ∧
      before (i + 1) = t.put q.name (value i)

/-- The content of the block of a call, where it has one. -/
inductive Content (self : Interpreter) (c : MacroCall) (env : RenderEnv) (s : RenderState) :
    Option String → RenderState → Prop
  | none : c.body = none → Content self c env s none s
  | some {b : Block} {flow : Flow} {text : String} {t : RenderState} : c.body = some b →
    (self.render b).captured env s = .ok (flow, text) t → flow ≠ .stop → Content self c env s (some text) t

end Interpreter

/-- The state with a frame of its own for a macro. -/
def RenderState.opened (s : RenderState) : RenderState := { s with frames := ∅ :: s.frames }

def RenderState.withContent (s : RenderState) : Option String → RenderState
  | none => s
  | some text => s.put "bodyContent" (.str text)

namespace MacroDef

/-- What an error tells that leaves a macro. -/
def told (d : MacroDef) (p : Position) (e : TemplateError) : TemplateError :=
  (e.inSource d.source).leaving (.macroCall d.name) p

/-- How a call ends whose macro ended in some way in its frame. -/
def ended (d : MacroDef) (p : Position) (r : Outcome Flow) : Outcome Flow :=
  ((r.leaving fun t => { t with frames := t.frames.tail }).telling (d.told p)).next fun flow t =>
    .ok (if flow.endsMacro then .next else flow) t

end MacroDef

namespace Interpreter

/-- How a call of a macro may go on once its arguments are accepted: its block fails or ends the render, too many macros
are being called, a default fails when the parameters before it are bound, or the body starts when all are. -/
inductive Proceeds (self : Interpreter) (c : MacroCall) (p : Position) (unit : CodeUnit) (d : MacroDef) (g : Given)
    (env : RenderEnv) (s : RenderState) : Outcome Flow → Prop
  | contentFails {b : Block} {halt : Halt} {t : RenderState} : c.body = some b →
    (self.render b).captured env s = .error halt t → Proceeds self c p unit d g env s (.error halt t)
  | contentStops {b : Block} {text : String} {t : RenderState} : c.body = some b →
    (self.render b).captured env s = .ok (.stop, text) t → Proceeds self c p unit d g env s (.ok .stop t)
  | tooDeep {content : Option String} {t : RenderState} : self.Content c env s content t →
    env.settings.macroMaxDepth ≤ env.calls.length → Proceeds self c p unit d g env s
      (.error (.failed (d.told p (.at_ (.macroDepth d.name env.settings.macroMaxDepth env.calls.reverse) p))) t)
  | defaultFails {content : Option String} {t u : RenderState} {before : Nat → RenderState} {value : Nat → Value}
      {k : Nat} {q : Param} {e : Expr} {halt : Halt} : self.Content c env s content t →
    env.calls.length < env.settings.macroMaxDepth → before 0 = t.opened →
    self.Binds g d.params (env.calling d.name unit) k before value →
    d.params[k]? = some q → g.handed (d.params.take k) q = none → q.fallback = some e →
    self.value e (env.calling d.name unit) (before k) = .error halt u →
    Proceeds self c p unit d g env s (d.ended p (.error halt u))
  | bodyStarts {content : Option String} {t : RenderState} {before : Nat → RenderState} {value : Nat → Value} :
    self.Content c env s content t → env.calls.length < env.settings.macroMaxDepth → before 0 = t.opened →
    self.Binds g d.params (env.calling d.name unit) d.params.length before value →
    Proceeds self c p unit d g env s
      (d.ended p (self.render d.body (env.calling d.name unit) ((before d.params.length).withContent content)))

/-- The values of the arguments of a call. -/
def values (self : Interpreter) (args : List Argument) : Render (List Value) := args.mapM fun a => self.value a.value

/-- What a call does before its block is rendered: it evaluates the arguments and refuses some. -/
def accept (self : Interpreter) (c : MacroCall) (d : MacroDef) (p : Position) : Render Arguments := do
  let args ← self.arguments d c.args
  checkArguments d args p
  return args

end Interpreter

/-! ### The arguments -/

section

variable {self : Interpreter} {env : RenderEnv} {s t : RenderState} {d : MacroDef} {p : Position}

/-- The arguments found so far with one more. -/
def Arguments.add (found : Arguments) (a : Option String × Value) : Arguments :=
  match a.1 with
  | none => { found with positional := found.positional ++ [a.2] }
  | some name => { found with named := found.named.insert name a.2 }

/-- Arguments with different names are found as they were given, in order. -/
lemma Given.foldl_add {g : Given} {found : Arguments}
    (distinct : (found.named.keys ++ g.labelled.map Prod.fst).Nodup) :
    g.foldl Arguments.add found = ⟨found.positional ++ g.positional, ⟨found.named.entries ++ g.labelled⟩⟩ := by
  induction g generalizing found with
  | nil => simp [Given.positional, Given.labelled]
  | cons a g ih =>
    obtain ⟨name, v⟩ := a
    cases name with
    | none =>
      have later := @ih (found.add (none, v)) distinct
      rw [List.foldl_cons, later]
      simp [Arguments.add, Given.positional, Given.labelled]
    | some name =>
      have fresh : name ∉ found.named.keys := fun known =>
        List.disjoint_of_nodup_append distinct known (List.mem_cons_self ..)
      have later := @ih (found.add (some name, v)) (by
        simpa [Arguments.add, Dict.keys, Dict.entries_insert fresh, Given.labelled] using distinct)
      rw [List.foldl_cons, later]
      simp [Arguments.add, Given.positional, Given.labelled, Dict.entries_insert fresh]

/-- Every argument is one with a name or one without. -/
lemma Given.length_positional_add (g : Given) : g.positional.length + g.labelled.length = g.length := by
  induction g with
  | nil => rfl
  | cons a g ih =>
    obtain ⟨name, v⟩ := a
    cases name with
    | none =>
      simp only [Given.positional, Given.labelled] at ih ⊢
      simp only [List.filterMap_cons, List.length_cons, Option.isNone_none, if_true, Option.map_none]
      omega
    | some name =>
      simp only [Given.positional, Given.labelled] at ih ⊢
      simp only [List.filterMap_cons, List.length_cons, Option.isNone_some, Bool.false_eq_true, if_false,
        Option.map_some]
      omega

/-- A parameter takes an argument without a name unless it is named. -/
lemma Given.unnamed_concat (g : Given) (earlier : List Param) (q : Param) :
    g.unnamed (earlier ++ [q]) = g.unnamed earlier + if (g.named? q.name).isNone then 1 else 0 := by
  unfold Given.unnamed
  rw [List.countP_append, List.countP_singleton]

namespace Interpreter

/-- Evaluates an argument and adds it to those found before, unless it names no parameter. -/
def argument (self : Interpreter) (d : MacroDef) (found : Arguments) (arg : Argument) : Render Arguments := do
  let v ← self.value arg.value
  match arg.name with
  | none => return { found with positional := found.positional ++ [v] }
  | some name =>
    if (d.param? name).isNone then
      Render.fail (.render (.unknownArgument d.name name)) arg.value.position
    return { found with named := found.named.insert name v }

lemma arguments_eq (self : Interpreter) (d : MacroDef) (args : List Argument) :
    self.arguments d args = args.foldlM (self.argument d) ⟨[], ∅⟩ := by
  cases args <;> rfl

lemma argument_apply {arg : Argument} {v : Value} (hv : self.value arg.value env s = .ok v t) (found : Arguments) :
    ((∀ name ∈ arg.name, ∃ q ∈ d.params, q.name = name) ∧
      self.argument d found arg env s = .ok (found.add (arg.name, v)) t) ∨
    ∃ name, arg.name = some name ∧ (∀ q ∈ d.params, q.name ≠ name) ∧ self.argument d found arg env s =
      .error (.failed (.at_ (.render (.unknownArgument d.name name)) arg.value.position)) t := by
  unfold argument
  simp only [Render.bind_apply, hv]
  cases ha : arg.name with
  | none => exact .inl ⟨nofun, rfl⟩
  | some name =>
    cases hq : d.param? name with
    | none =>
      refine .inr ⟨name, rfl, fun q hm => ?_, ?_⟩
      · simpa using List.find?_eq_none.mp hq q hm
      · simp only [hq]
        rfl
    | some q =>
      refine .inl ⟨?_, ?_⟩
      · intro other same
        obtain rfl := Option.some.inj same
        exact ⟨q, List.mem_of_find?_eq_some hq, by simpa using List.find?_some hq⟩
      · simp only [hq]
        rfl

lemma values_cons (self : Interpreter) (a : Argument) (args : List Argument) (env : RenderEnv) (s : RenderState) :
    self.values (a :: args) env s = Outcome.next (self.value a.value env s) fun v t =>
      Outcome.next (self.values args env t) fun vs u => .ok (v :: vs) u := by
  have next {α β : Type} (m : Render α) (f : α → Render β) (s : RenderState) :
      (m >>= f) env s = Outcome.next (m env s) fun x t => f x env t := Render.bind_apply m f env s
  unfold values
  rw [List.mapM_cons, next]
  congr
  funext v t
  exact next _ _ t

lemma length_values {args : List Argument} {vs : List Value} (h : self.values args env s = .ok vs t) :
    vs.length = args.length := by
  induction args generalizing s vs with
  | nil =>
    cases h
    rfl
  | cons a args ih =>
    rw [values_cons] at h
    cases hv : self.value a.value env s with
    | error halt u =>
      rw [hv] at h
      cases h
    | ok v u =>
      rw [hv, Outcome.next] at h
      cases hvs : self.values args env u with
      | error halt w =>
        rw [hvs] at h
        cases h
      | ok vs' w =>
        rw [hvs] at h
        cases h
        rw [List.length_cons, List.length_cons, ih hvs]

/-- The first argument that names no parameter is refused; where there is none, the arguments have been found when all
are evaluated. -/
lemma foldlM_argument (self : Interpreter) (d : MacroDef) (env : RenderEnv) (args : List Argument) (s : RenderState)
    (found : Arguments) :
    (∃ a ∈ args, ∃ name u, a.name = some name ∧ (∀ q ∈ d.params, q.name ≠ name) ∧
      args.foldlM (self.argument d) found env s =
        .error (.failed (.at_ (.render (.unknownArgument d.name name)) a.value.position)) u) ∨
    (args.foldlM (self.argument d) found env s = Outcome.next (self.values args env s) (fun vs t =>
        .ok (((args.map (·.name)).zip vs).foldl Arguments.add found) t) ∧
      ∀ vs t, self.values args env s = .ok vs t → ∀ a ∈ args, ∀ name ∈ a.name, ∃ q ∈ d.params, q.name = name) := by
  induction args generalizing s found with
  | nil => exact .inr ⟨rfl, nofun⟩
  | cons a args ih =>
    rw [List.foldlM_cons, Render.bind_apply, values_cons]
    cases hv : self.value a.value env s with
    | error halt t =>
      refine .inr ⟨?_, nofun⟩
      rw [argument, Render.bind_apply, hv]
      rfl
    | ok v t =>
      rcases argument_apply (d := d) hv found with ⟨known, ha⟩ | ⟨name, named, unknown, ha⟩
      · rw [ha, Outcome.next]
        rcases ih t (found.add (a.name, v)) with ⟨b, hb, name, u, named, unknown, refused⟩ | ⟨all, later⟩
        · exact .inl ⟨b, List.mem_cons_of_mem _ hb, name, u, named, unknown, refused⟩
        · refine .inr ⟨?_, ?_⟩
          · dsimp only
            rw [all]
            cases self.values args env t <;> rfl
          · intro vs u hvs
            cases hr : self.values args env t with
            | error halt w =>
              rw [hr] at hvs
              cases hvs
            | ok vs' w => exact List.forall_mem_cons.mpr ⟨known, later vs' w hr⟩
      · rw [ha]
        exact .inl ⟨a, List.mem_cons_self .., name, t, named, unknown, rfl⟩

lemma checkArguments_apply (d : MacroDef) (args : Arguments) (p : Position) (env : RenderEnv) (s : RenderState) :
    checkArguments d args p env s =
      if env.settings.strictReferences = true ∧
        (d.params.filter fun q => !args.named.contains q.name).length < args.positional.length then
        .error (.failed (.at_ (.render (.tooManyArguments d.name d.params.length
          (args.positional.length + args.named.size))) p)) s
      else .ok ⟨⟩ s := by
  have check : checkArguments d args p env s =
      (if decide ((d.params.filter fun q => !args.named.contains q.name).length < args.positional.length) &&
          env.settings.strictReferences then
        Render.fail (.render (.tooManyArguments d.name d.params.length (args.positional.length + args.named.size))) p
      else pure ⟨⟩ : Render Unit) env s := rfl
  rw [check]
  simp only [Bool.and_eq_true, decide_eq_true_eq, and_comm]
  split <;> rfl

lemma names_given (c : MacroCall) {vs : List Value} (h : vs.length = c.args.length) :
    (c.given vs).labelled.map Prod.fst = c.args.filterMap (·.name) := by
  have label (a : Option String × Value) : (a.1.map (·, a.2)).map Prod.fst = a.1 := by cases a.1 <;> rfl
  have names : ((c.args.map (·.name)).zip vs).map Prod.fst = c.args.map (·.name) :=
    List.map_fst_zip (by rw [List.length_map, h])
  calc (c.given vs).labelled.map Prod.fst
      = ((c.args.map (·.name)).zip vs).filterMap Prod.fst := by
        rw [Given.labelled, MacroCall.given, List.map_filterMap]
        simp only [label]
    _ = (((c.args.map (·.name)).zip vs).map Prod.fst).filterMap id := by rw [List.filterMap_map, Function.id_comp]
    _ = c.args.filterMap (·.name) := by rw [names, List.filterMap_map, Function.id_comp]

lemma unnamed_eq (g : Given) (params : List Param) :
    (params.filter fun q => !g.arguments.named.contains q.name).length = g.unnamed params := by
  unfold Given.unnamed
  rw [List.countP_eq_length_filter]
  congr 2
  funext q
  show (!(g.named? q.name).isSome) = (g.named? q.name).isNone
  cases g.named? q.name <;> rfl

/-- A call with an argument that has no value fails there, or is refused before. -/
lemma accept_of_error {c : MacroCall} {halt : Halt} (hv : self.values c.args env s = .error halt t) :
    self.accept c d p env s = .error halt t ∨
      ∃ e u, c.Refusal d p e ∧ self.accept c d p env s = .error (.failed e) u := by
  unfold accept
  rw [arguments_eq, Render.bind_apply]
  rcases foldlM_argument self d env c.args s ⟨[], ∅⟩ with ⟨a, ha, name, u, named, unknown, refused⟩ | ⟨all, -⟩
  · rw [refused]
    exact .inr ⟨_, u, .unknown ha named unknown, rfl⟩
  · rw [all, hv]
    exact .inl rfl

/-- The arguments of a call that have values are refused just where they are too many or one names no parameter. -/
theorem accept_of_ok {c : MacroCall} (distinct : (c.args.filterMap (·.name)).Nodup) {vs : List Value}
    (hv : self.values c.args env s = .ok vs t) :
    (¬(c.given vs).Refused d env.settings.strictReferences ∧
      self.accept c d p env s = .ok (c.given vs).arguments t) ∨
    ((c.given vs).Refused d env.settings.strictReferences ∧
      ∃ e u, c.Refusal d p e ∧ self.accept c d p env s = .error (.failed e) u) := by
  have length := length_values hv
  have names := names_given c length
  have total : (c.given vs).length = c.args.length := by
    simp [MacroCall.given, length]
  unfold accept
  rw [arguments_eq, Render.bind_apply]
  rcases foldlM_argument self d env c.args s ⟨[], ∅⟩ with
    ⟨a, ha, name, u, named, unknown, refused⟩ | ⟨all, known⟩
  · refine .inr ⟨.inl ?_, _, u, .unknown ha named unknown, ?_⟩
    · have mem : name ∈ (c.given vs).labelled.map Prod.fst := names ▸ List.mem_filterMap.mpr ⟨a, ha, named⟩
      obtain ⟨b, hb, rfl⟩ := List.mem_map.mp mem
      exact ⟨b, hb, unknown⟩
    · rw [refused]
  · have given : (c.given vs).foldl Arguments.add ⟨[], ∅⟩ = (c.given vs).arguments :=
      Given.foldl_add (names ▸ distinct)
    have named : ¬∃ a ∈ (c.given vs).labelled, ∀ q ∈ d.params, q.name ≠ a.1 := by
      rintro ⟨a, ha, unknown⟩
      have mem : a.1 ∈ c.args.filterMap (·.name) := names ▸ List.mem_map_of_mem ha
      obtain ⟨b, hb, hname⟩ := List.mem_filterMap.mp mem
      obtain ⟨q, hq, same⟩ := known vs t hv b hb a.1 hname
      exact unknown q hq same
    rw [hv, Outcome.next, show ((c.args.map (·.name)).zip vs).foldl Arguments.add _ = _ from given] at all
    simp only [all, Render.bind_apply, checkArguments_apply, unnamed_eq]
    by_cases many : env.settings.strictReferences = true ∧
      (c.given vs).unnamed d.params < (c.given vs).arguments.positional.length
    · refine .inr ⟨.inr many, _, t, .tooMany, ?_⟩
      rw [if_pos many, ← total, ← Given.length_positional_add]
      rfl
    · refine .inl ⟨not_or_intro named many, ?_⟩
      rw [if_neg many]
      rfl

/-! ### The parameters -/

variable {g : Given}

/-- A parameter gets its value and is bound to it, or its default fails. -/
lemma bindParams_cons (self : Interpreter) (g : Given) (env : RenderEnv) (s : RenderState) (earlier : List Param)
    (q : Param) (params : List Param) :
    (∃ v t, self.Obtains env s (g.handed earlier q) q.fallback v t ∧
      self.bindParams g.arguments.named (q :: params) (g.positional.drop (g.unnamed earlier)) env s =
        self.bindParams g.arguments.named params (g.positional.drop (g.unnamed (earlier ++ [q]))) env
          (t.put q.name v)) ∨
    ∃ e halt u, g.handed earlier q = none ∧ q.fallback = some e ∧ self.value e env s = .error halt u ∧
      self.bindParams g.arguments.named (q :: params) (g.positional.drop (g.unnamed earlier)) env s =
        .error halt u := by
  have named : g.arguments.named.get? q.name = g.named? q.name := rfl
  rw [g.unnamed_concat]
  cases hn : g.named? q.name with
  | some v =>
    have handed : g.handed earlier q = some v := by rw [Given.handed, hn, Option.some_or]
    refine .inl ⟨v, s, handed ▸ .argument, ?_⟩
    simp only [bindParams, named, hn]
    rfl
  | none =>
    have handed : g.handed earlier q = g.positional[g.unnamed earlier]? := by rw [Given.handed, hn, Option.none_or]
    rw [handed]
    cases hp : g.positional[g.unnamed earlier]? with
    | some v =>
      obtain ⟨lt, rfl⟩ := List.getElem?_eq_some_iff.mp hp
      refine .inl ⟨_, s, .argument, ?_⟩
      rw [List.drop_eq_getElem_cons lt]
      simp only [bindParams, named, hn]
      rfl
    | none =>
      have rest (n : Nat) : g.positional.drop (g.unnamed earlier + n) = [] :=
        List.drop_eq_nil_of_le (Nat.le_add_right_of_le (List.getElem?_eq_none_iff.mp hp))
      rw [show g.positional.drop (g.unnamed earlier) = [] from rest 0, rest]
      cases hf : q.fallback with
      | none =>
        refine .inl ⟨.null, s, .null, ?_⟩
        simp only [bindParams, named, hn, hf]
        rfl
      | some e =>
        have step : self.bindParams g.arguments.named (q :: params) [] env s = (do
            let v ← self.value e
            modify (·.put q.name v)
            self.bindParams g.arguments.named params [] : Render Unit) env s := by
          simp only [bindParams, named, hn, hf]
        rw [step, Render.bind_apply]
        cases hv : self.value e env s with
        | ok v t => exact .inl ⟨v, t, .fallback hv, rfl⟩
        | error halt u => exact .inr ⟨e, halt, u, rfl, rfl, hv, rfl⟩

/-- The first `n` of some parameters are bound after other ones. -/
def BindsAfter (self : Interpreter) (g : Given) (earlier params : List Param) (env : RenderEnv) (n : Nat)
    (before : Nat → RenderState) (value : Nat → Value) : Prop :=
  ∀ i q, i < n → params[i]? = some q → ∃ t,
    self.Obtains env (before i) (g.handed (earlier ++ params.take i) q) q.fallback (value i) t ∧
      before (i + 1) = t.put q.name (value i)

lemma BindsAfter.cons {earlier params : List Param} {q : Param} {n : Nat} {before : Nat → RenderState}
    {value : Nat → Value} {v : Value} (hv : self.Obtains env s (g.handed earlier q) q.fallback v t)
    (hb : before 0 = t.put q.name v) (h : self.BindsAfter g (earlier ++ [q]) params env n before value) :
    self.BindsAfter g earlier (q :: params) env (n + 1) (fun | 0 => s | i + 1 => before i)
      (fun | 0 => v | i + 1 => value i) := by
  intro i r hi hr
  cases i with
  | zero =>
    cases hr
    refine ⟨t, ?_, hb⟩
    rwa [List.take_zero, List.append_nil]
  | succ i =>
    have later := h i r (Nat.lt_of_succ_lt_succ hi) hr
    rwa [List.append_assoc] at later

/-- The parameters are bound one after the other, up to the end or to a default that fails: by induction on those that
are left. -/
theorem bindParams_run (self : Interpreter) (g : Given) (env : RenderEnv) (params earlier : List Param)
    (s : RenderState) : ∃ before value, before 0 = s ∧
      ((self.BindsAfter g earlier params env params.length before value ∧
          self.bindParams g.arguments.named params (g.positional.drop (g.unnamed earlier)) env s =
            .ok ⟨⟩ (before params.length)) ∨
        ∃ k q e halt u, self.BindsAfter g earlier params env k before value ∧ params[k]? = some q ∧
          g.handed (earlier ++ params.take k) q = none ∧ q.fallback = some e ∧
          self.value e env (before k) = .error halt u ∧
          self.bindParams g.arguments.named params (g.positional.drop (g.unnamed earlier)) env s = .error halt u) := by
  induction params generalizing earlier s with
  | nil => exact ⟨fun _ => s, fun _ => .null, rfl, .inl ⟨fun _ _ hi => absurd hi (Nat.not_lt_zero _), rfl⟩⟩
  | cons q params ih =>
    rcases bindParams_cons self g env s earlier q params with ⟨v, t, hv, step⟩ | ⟨e, halt, u, handed, hf, hv, step⟩
    · rw [step]
      obtain ⟨before, value, start, rest⟩ := ih (earlier ++ [q]) (t.put q.name v)
      refine ⟨fun | 0 => s | i + 1 => before i, fun | 0 => v | i + 1 => value i, rfl, ?_⟩
      rcases rest with ⟨all, ended⟩ | ⟨k, r, e, halt, u, some, hr, handed, hf, hv', ended⟩
      · exact .inl ⟨all.cons hv start, ended⟩
      · refine .inr ⟨k + 1, r, e, halt, u, some.cons hv start, hr, ?_, hf, hv', ended⟩
        rwa [List.append_assoc] at handed
    · refine ⟨fun _ => s, fun _ => .null, rfl, .inr ⟨0, q, e, halt, u, ?_, rfl, ?_, hf, hv, step⟩⟩
      · exact fun _ _ hi => absurd hi (Nat.not_lt_zero _)
      · rwa [List.take_zero, List.append_nil]

/-! ### The call -/

lemma runMacro_apply (self : Interpreter) (d : MacroDef) (args : Arguments) (content : Option String)
    (env : RenderEnv) (s : RenderState) :
    self.runMacro d args content env s =
      (Outcome.next (self.bindParams args.named d.params args.positional env s.opened) fun _ t =>
        self.render d.body env (t.withContent content)).leaving fun t => { t with frames := t.frames.tail } := by
  unfold runMacro RenderState.opened
  rw [Render.inFrame_apply, Render.bind_apply]
  cases self.bindParams args.named d.params args.positional env { s with frames := ∅ :: s.frames } with
  | error halt t => rfl
  | ok x t => cases content <;> rfl

/-- A macro is run in a frame of its own, unless too many are being called. -/
lemma invoke_apply (self : Interpreter) (unit : CodeUnit) (d : MacroDef) (p : Position) (args : Arguments)
    (content : Option String) (env : RenderEnv) (s : RenderState) :
    self.invoke unit d p args content env s =
      if env.settings.macroMaxDepth ≤ env.calls.length then
        .error (.failed (d.told p (.at_ (.macroDepth d.name env.settings.macroMaxDepth env.calls.reverse) p))) s
      else d.ended p (Outcome.next
        (self.bindParams args.named d.params args.positional (env.calling d.name unit) s.opened) fun _ t =>
          self.render d.body (env.calling d.name unit) (t.withContent content)) := by
  have called : self.invoke unit d p args content env s =
      Outcome.next (Outcome.telling (inMacro unit d p (self.runMacro d args content) env s) (d.told p)) fun flow t =>
        .ok (if flow.endsMacro then .next else flow) t := by
    unfold invoke
    rw [Render.bind_apply]
    rfl
  rw [called, inMacro_apply, runMacro_apply]
  split <;> rfl

/-- What a call does once its arguments are accepted. -/
def proceed (self : Interpreter) (unit : CodeUnit) (d : MacroDef) (c : MacroCall) (p : Position) (args : Arguments) :
    Render Flow := do
  match c.body with
  | none => self.invoke unit d p args none
  | some body =>
    let (flow, text) ← (self.render body).captured
    if flow == .stop then return .stop
    self.invoke unit d p args (some text)

lemma macroCall_apply (self : Interpreter) {c : MacroCall} (p : Position) {unit : CodeUnit}
    (hd : env.macro? c.name = some (unit, d)) (s : RenderState) :
    self.macroCall c p env s = (self.accept c d p >>= self.proceed unit d c p) env s := by
  have found : self.macroCall c p env s = (do
      let args ← self.arguments d c.args
      checkArguments d args p
      self.proceed unit d c p args : Render Flow) env s := by
    unfold macroCall
    rw [Render.read_bind_apply, hd]
    rfl
  rw [found, accept]
  simp only [bind_assoc, pure_bind]

lemma proceeds_invoke {self : Interpreter} {c : MacroCall} {unit : CodeUnit} {content : Option String}
    (hc : self.Content c env s content t) :
    self.Proceeds c p unit d g env s (self.invoke unit d p g.arguments content env t) := by
  rw [invoke_apply]
  by_cases deep : env.settings.macroMaxDepth ≤ env.calls.length
  · rw [if_pos deep]
    exact .tooDeep hc deep
  · rw [if_neg deep]
    obtain ⟨before, value, start, ⟨all, run⟩ | ⟨k, q, e, halt, u, some, hq, handed, hf, hv, run⟩⟩ :=
      bindParams_run self g (env.calling d.name unit) d.params [] t.opened
    · rw [show self.bindParams g.arguments.named d.params g.arguments.positional _ _ = _ from run]
      exact .bodyStarts hc (Nat.lt_of_not_le deep) start all
    · rw [show self.bindParams g.arguments.named d.params g.arguments.positional _ _ = _ from run]
      exact .defaultFails hc (Nat.lt_of_not_le deep) start some hq handed hf hv

/-- Once its arguments are accepted, a call goes on as it may. -/
theorem proceeds_proceed (self : Interpreter) (unit : CodeUnit) (d : MacroDef) (c : MacroCall) (p : Position)
    (g : Given) (env : RenderEnv) (s : RenderState) :
    self.Proceeds c p unit d g env s (self.proceed unit d c p g.arguments env s) := by
  unfold proceed
  cases hb : c.body with
  | none => exact proceeds_invoke (.none hb)
  | some b =>
    simp only [Render.bind_apply]
    cases hr : (self.render b).captured env s with
    | error halt t => exact .contentFails hb hr
    | ok r t =>
      obtain ⟨flow, text⟩ := r
      by_cases hs : flow = .stop
      · subst hs
        exact .contentStops hb hr
      · have goes : (flow == .stop) = false := beq_eq_false_iff_ne.mpr hs
        simp only [goes]
        exact proceeds_invoke (.some hb hr hs)

section

variable {c : MacroCall} {unit : CodeUnit} {vs : List Value}

lemma macroCall_of_error (hd : env.macro? c.name = some (unit, d)) {halt : Halt}
    (hv : self.values c.args env s = .error halt t) :
    self.macroCall c p env s = .error halt t ∨
      ∃ e u, c.Refusal d p e ∧ self.macroCall c p env s = .error (.failed e) u := by
  have call := macroCall_apply self p hd s
  rw [Render.bind_apply] at call
  rcases accept_of_error (d := d) (p := p) hv with failed | ⟨e, u, told, refused⟩
  · rw [failed] at call
    exact .inl call
  · rw [refused] at call
    exact .inr ⟨e, u, told, call⟩

variable (distinct : (c.args.filterMap (·.name)).Nodup) (hv : self.values c.args env s = .ok vs t)
include distinct hv

lemma accept_error_iff : (∃ halt u, self.accept c d p env s = .error halt u) ↔
    (c.given vs).Refused d env.settings.strictReferences := by
  rcases accept_of_ok (d := d) (p := p) distinct hv with ⟨free, ok⟩ | ⟨h, e, u, -, refused⟩
  · refine ⟨?_, fun h => absurd h free⟩
    rintro ⟨halt, u, refused⟩
    rw [ok] at refused
    cases refused
  · exact ⟨fun _ => h, fun _ => ⟨_, u, refused⟩⟩

lemma macroCall_of_refused (hd : env.macro? c.name = some (unit, d))
    (h : (c.given vs).Refused d env.settings.strictReferences) :
    ∃ e u, c.Refusal d p e ∧ self.macroCall c p env s = .error (.failed e) u := by
  have call := macroCall_apply self p hd s
  rcases accept_of_ok (d := d) (p := p) distinct hv with ⟨free, -⟩ | ⟨-, e, u, told, refused⟩
  · exact absurd h free
  · rw [Render.bind_apply, refused] at call
    exact ⟨e, u, told, call⟩

lemma proceeds_macroCall (hd : env.macro? c.name = some (unit, d))
    (free : ¬(c.given vs).Refused d env.settings.strictReferences) :
    self.Proceeds c p unit d (c.given vs) env t (self.macroCall c p env s) := by
  have call := macroCall_apply self p hd s
  rcases accept_of_ok (d := d) (p := p) distinct hv with ⟨-, ok⟩ | ⟨h, -⟩
  · rw [Render.bind_apply, ok] at call
    rw [call]
    exact proceeds_proceed _ unit d c p _ env t
  · exact absurd h free

end

end Interpreter

end

/-! ### What the body finds -/

lemma RenderState.get?_of_bound {s : RenderState} {name : String} {v : Value} (h : s.bound? name = some v) :
    s.get? name = if v.isNull then none else some v := by
  unfold bound? at h
  unfold get?
  cases hs : s.frames with
  | nil =>
    rw [hs] at h
    cases h
  | cons frame frames =>
    rw [hs] at h
    rw [List.findSome?_cons, show frame.get? name = some v from h]

namespace Interpreter

variable {depth n : Nat} {g : Given} {params : List Param} {env : RenderEnv} {before : Nat → RenderState}
  {value : Nat → Value}

lemma keeps_value (depth : Nat) (e : Expr) (env : RenderEnv) (s : RenderState) :
    s.Keeps (Outcome.state ((ofDepth depth).value e env s)) := by
  have all : Scoped fun _ => True := ⟨fun _ _ => trivial, fun _ => trivial⟩
  have anywhere : Surrounding fun _ => True := ⟨fun _ _ _ _ => trivial, fun _ _ => trivial⟩
  have values := (@Scoped.holds_besideGuarded _ (fun _ _ => True) (ofDepth 0) all _ anywhere
    (fun _ _ _ => trivial) depth env trivial).1
  exact (values e false s trivial).keeps

lemma Obtains.keeps {s t : RenderState} {handed : Option Value} {fallback : Option Expr} {v : Value}
    (h : (ofDepth depth).Obtains env s handed fallback v t) : s.Keeps t := by
  cases h with
  | argument => exact .refl s
  | @fallback e v t hv =>
    have kept := keeps_value depth e env s
    rwa [hv] at kept
  | null => exact .refl s

lemma Obtains.keepsVar {s t : RenderState} {handed : Option Value} {fallback : Option Expr} {v : Value} {name : String}
    (h : (ofDepth depth).Obtains env s handed fallback v t)
    (spared : ∀ e, handed = none → fallback = some e → Spares name depth e env s) : s.KeepsVar name t := by
  cases h with
  | argument => exact (Conserved.keepsVar name).refl s
  | @fallback e v t hv =>
    have kept := (spared e rfl rfl).keepsVar
    rwa [hv] at kept
  | null => exact (Conserved.keepsVar name).refl s

/-- While parameters are bound, the frames outside stay. -/
lemma Binds.keeps (h : (ofDepth depth).Binds g params env n before value) (hn : n ≤ params.length) {i : Nat}
    (hi : i ≤ n) : (before 0).Keeps (before i) := by
  induction i with
  | zero => exact .refl _
  | succ i ih =>
    have here : i < params.length := Nat.lt_of_lt_of_le hi hn
    obtain ⟨t, got, put⟩ := h i params[i] hi (List.getElem?_eq_getElem here)
    rw [put]
    exact (ih (Nat.le_of_lt hi)).trans (got.keeps.trans (t.keeps_put _ _))

/-- A parameter stays bound to its value while the later ones are bound, by induction on these, unless a default that
is evaluated for one of them sets it. -/
lemma Binds.bound (h : (ofDepth depth).Binds g params env n before value) (hn : n ≤ params.length)
    (distinct : (params.map (·.name)).Nodup) {frame : Dict Value} {frames : List (Dict Value)}
    (start : (before 0).frames = frame :: frames) {i : Nat} {q : Param} (hq : params[i]? = some q)
    (spared : ∀ j r e, i < j → params[j]? = some r → g.handed (params.take j) r = none → r.fallback = some e →
      Spares q.name depth e env (before j)) {m : Nat} (hm : i + 1 ≤ m) (hmn : m ≤ n) :
    (before m).bound? q.name = some (value i) := by
  induction m, hm using Nat.le_induction with
  | base =>
    obtain ⟨t, got, put⟩ := h i q hmn hq
    obtain ⟨frame', ht⟩ := ((h.keeps hn (Nat.le_of_lt hmn)).trans got.keeps).frames_cons start
    rw [put, RenderState.bound?_put ht, if_pos rfl]
  | succ m hm ih =>
    have here : m < params.length := Nat.lt_of_lt_of_le hmn hn
    have hr : params[m]? = some params[m] := List.getElem?_eq_getElem here
    obtain ⟨t, got, put⟩ := h m params[m] hmn hr
    have other : q.name ≠ params[m].name := fun same => by
      have names : (params.map (·.name))[i]? = (params.map (·.name))[m]? := by
        rw [List.getElem?_map, List.getElem?_map, hq, hr, Option.map_some, Option.map_some, same]
      have place := (List.getElem?_inj (by rw [List.length_map]; omega) distinct).mp names
      omega
    have kept := got.keepsVar fun e handed hf => spared m _ e hm hr handed hf
    rw [put, (t.keepsVar_put other _).bound, kept.bound]
    exact ih (Nat.le_of_lt hmn)

/-- When all parameters are bound, each reads as its value in the body. -/
lemma Binds.reads (h : (ofDepth depth).Binds g params env params.length before value)
    (distinct : (params.map (·.name)).Nodup) {frame : Dict Value} {frames : List (Dict Value)}
    (start : (before 0).frames = frame :: frames) {i : Nat} {q : Param} (hq : params[i]? = some q)
    (spared : ∀ j r e, i < j → params[j]? = some r → g.handed (params.take j) r = none → r.fallback = some e →
      Spares q.name depth e env (before j)) {content : Option String}
    (apart : content = none ∨ q.name ≠ "bodyContent") :
    ((before params.length).withContent content).get? q.name =
      if (value i).isNull then none else some (value i) := by
  have here : i < params.length := (List.getElem?_eq_some_iff.mp hq).1
  have bound := h.bound (Nat.le_refl _) distinct start hq spared here (Nat.le_refl _)
  refine RenderState.get?_of_bound (Eq.trans ?_ bound)
  cases content with
  | none => rfl
  | some text => exact (RenderState.keepsVar_put _ (apart.resolve_left nofun) _).bound

end Interpreter

/-! ### Compiled calls -/

/-- Whether a call stands somewhere in a compiled template. -/
def MacroCall.Compiled (c : MacroCall) (p : Position) : Prop :=
  ∃ t : Template, t.Compiled ∧ ∃ e, ⟨e, .node ⟨.macroCall c, p⟩⟩ ∈ t.root.spots

lemma Template.Compiled.wellFormed {t : Template} (ht : t.Compiled) : t.root.WellFormed := by
  obtain ⟨unit, s, policy, h⟩ := ht
  exact wellFormed_of_compile h

lemma MacroCall.Compiled.distinct {c : MacroCall} {p : Position} (hc : c.Compiled p) :
    (c.args.filterMap (·.name)).Nodup := by
  obtain ⟨t, ht, e, mem⟩ := hc
  exact (ht.wellFormed _ mem).2

lemma MacroDef.Compiled.distinct {d : MacroDef} (hd : d.Compiled) : (d.params.map (·.name)).Nodup := by
  obtain ⟨t, ht, e, he, rfl⟩ := hd
  have formed := ht.wellFormed
  obtain ⟨unit, s, policy, h⟩ := ht
  refine Template.forall_macros_of_compile (P := fun d => (d.params.map (·.name)).Nodup) h (fun spot hs d p here => ?_)
    e he
  have allowed := formed spot hs
  obtain ⟨enclosure, piece⟩ := spot
  obtain rfl := here
  exact allowed.2

lemma RenderEnv.macro?_opening {t : Template} {name : String} {d : MacroDef} (env : RenderEnv)
    (h : t.macros.get? name = some d) : (env.opening t).macro? name = some (t.unit, d) := by
  unfold macro? opening
  rw [List.findSome?_cons, h]
  rfl

namespace Interpreter

/-- Macro arguments bind as declared. Where all arguments of a compiled call have values, they are refused exactly when
one names no parameter or, where references are strict, when those without a name are more than the parameters that
none names. Otherwise the call goes on to bind the parameters in order in a frame of the macro's own and starts the
body when all are bound; and there each parameter reads as its value, a null as nothing, whatever stands outside,
unless the default of a later one runs a `#set` on it or the content of the call's block replaces it. A call with an
argument that cannot be evaluated fails before. -/
theorem binds_as_declared {c : MacroCall} {p : Position} (hc : c.Compiled p) {env : RenderEnv} (he : env.Compiled)
    {unit : CodeUnit} {d : MacroDef} (hd : env.macro? c.name = some (unit, d)) (depth : Nat) (s : RenderState) :
    (∀ halt t, (ofDepth depth).values c.args env s = .error halt t →
      (ofDepth depth).macroCall c p env s = .error halt t ∨
        ∃ e u, c.Refusal d p e ∧ (ofDepth depth).macroCall c p env s = .error (.failed e) u) ∧
    ∀ vs t, (ofDepth depth).values c.args env s = .ok vs t →
      ((∃ halt u, (ofDepth depth).accept c d p env s = .error halt u) ↔
        (c.given vs).Refused d env.settings.strictReferences) ∧
      ((c.given vs).Refused d env.settings.strictReferences →
        ∃ e u, c.Refusal d p e ∧ (ofDepth depth).macroCall c p env s = .error (.failed e) u) ∧
      (¬(c.given vs).Refused d env.settings.strictReferences →
        (ofDepth depth).Proceeds c p unit d (c.given vs) env t ((ofDepth depth).macroCall c p env s)) ∧
      ∀ u before value, before 0 = RenderState.opened u →
        (ofDepth depth).Binds (c.given vs) d.params (env.calling d.name unit) d.params.length before value →
        (∀ i ≤ d.params.length, ∃ frame, (before i).frames = frame :: u.frames) ∧
        ∀ content i q, d.params[i]? = some q →
          (∀ j r e, i < j → d.params[j]? = some r → (c.given vs).handed (d.params.take j) r = none →
            r.fallback = some e → Spares q.name depth e (env.calling d.name unit) (before j)) →
          (content = none ∨ q.name ≠ "bodyContent") →
          ((before d.params.length).withContent content).get? q.name =
            if (value i).isNull then none else some (value i) := by
  refine ⟨fun halt t hv => macroCall_of_error hd hv, fun vs t hv => ⟨?_, ?_, ?_, ?_⟩⟩
  · exact accept_error_iff hc.distinct hv
  · exact macroCall_of_refused hc.distinct hv hd
  · exact proceeds_macroCall hc.distinct hv hd
  · intro u before value start binds
    have opened : (before 0).frames = ∅ :: u.frames := by rw [start]; rfl
    refine ⟨fun i hi => (binds.keeps (Nat.le_refl _) hi).frames_cons opened, fun content i q hq spared apart => ?_⟩
    exact binds.reads (he.macro? hd).distinct opened hq spared apart

/-- Whether a template is a macro with a default and a call of it that names the last of three parameters. -/
def callsMixed (t : Template) : Bool :=
  match t.root, t.macros.get? "m" with
  | [_, ⟨.macroCall ⟨"m", [⟨some "c", ⟨.literal (.int _), _⟩⟩, ⟨none, ⟨.literal (.int _), _⟩⟩], none, _⟩, _⟩],
    some ⟨"m", [⟨"a", none, _⟩, ⟨"b", some _, _⟩, ⟨"c", none, _⟩], _, _, _⟩ => true
  | _, _ => false

/-- A call that names one of three parameters and leaves one to its default. -/
theorem binds_as_declared_mixed :
    ∃ (c : MacroCall) (p : Position) (env : RenderEnv) (unit : CodeUnit) (d : MacroDef), c.Compiled p ∧ env.Compiled ∧
      env.macro? c.name = some (unit, d) ∧ c.args.length = 2 ∧ d.params.length = 3 ∧ ∀ s, ∃ vs,
        (ofDepth 3).values c.args env s = .ok vs s ∧
        (ofDepth 3).Proceeds c p unit d (c.given vs) env s ((ofDepth 3).macroCall c p env s) := by
  have compiles : ((Template.compile .inline ⟨"t.vm", "#macro(m $a $b=$a $c)$c#end#m(c=3 1)"⟩ .none).toOption.map
      callsMixed) = some true := by decide +kernel
  cases ht : Template.compile .inline ⟨"t.vm", "#macro(m $a $b=$a $c)$c#end#m(c=3 1)"⟩ .none with
  | error f =>
    rw [ht] at compiles
    cases compiles
  | ok t =>
    rw [ht] at compiles
    have shape : callsMixed t = true := Option.some.inj compiles
    unfold callsMixed at shape
    split at shape
    · next first o second o' literal p _ _ _ _ body source _ hroot hm =>
      have compiled : t.Compiled := Template.compiled_of_compile ht
      have stocked : (Engine.initial .standard).Stocked := ⟨TemplateCache.stocked_empty _ _, nofun⟩
      have around := (stocked.env (.ofTemplates [] id)).opening compiled
      let c : MacroCall :=
        ⟨"m", [⟨some "c", ⟨.literal (.int first), o⟩⟩, ⟨none, ⟨.literal (.int second), o'⟩⟩], none, literal⟩
      have called : c.Compiled p := by
        refine ⟨t, compiled, ⟨false, false⟩, ?_⟩
        rw [hroot]
        exact List.mem_flatMap.mpr ⟨_, List.mem_cons_of_mem _ (List.mem_singleton_self _), Spot.self_mem_all _⟩
      have found := RenderEnv.macro?_opening ((Engine.initial .standard).env (.ofTemplates [] id)) hm
      refine ⟨c, p, _, _, _, called, around, found, rfl, rfl, fun s => ⟨[.int first, .int second], rfl, ?_⟩⟩
      refine ((binds_as_declared called around found 3 s).2 _ s rfl).2.2.1 ?_
      rintro (⟨a, ha, unknown⟩ | ⟨strict, -⟩)
      · obtain rfl := List.mem_singleton.mp ha
        exact unknown _ (List.mem_cons_of_mem _ (List.mem_cons_of_mem _ (List.mem_singleton_self _))) rfl
      · cases strict
    · cases shape

end Interpreter

end Stencil
