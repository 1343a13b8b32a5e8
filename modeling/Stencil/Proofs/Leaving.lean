import Stencil.Proofs.Jumps

/-!
# Renders that are left early

What a `#stop` and a `#break` do to a render by an engine. Main statements: `Engine.stop_ends` and
`Engine.fate_of_break`. A string in an expression is rendered by itself, and what ends its rendering ends
nothing else.
-/

namespace Stencil

namespace RenderState

/-- Putting back a variable leaves the others of the context as they are. -/
lemma restore_context (s : RenderState) {name other : String} (hn : other ≠ name)
    (binding : Option Value) : (s.restore name binding).context.get? other = s.context.get? other := by
  unfold restore put
  split
  · split
    · rfl
    · exact s.context.get?_put_of_ne hn _
  · rfl
  · exact s.context.get?_remove_of_ne hn

end RenderState

namespace Opened

open RenderState

/-- The variables that are put back when it is closed. -/
def Restores : Opened → String → Prop
  | rounds var _ _, name => name = var ∨ name = "foreach"
  | _, _ => False

/-- Where the output of a render goes that writes into a sink now. -/
def sinkBeneath (opened : List Opened) (sink : Sink) : Sink :=
  opened.foldl (fun sink o => match o with
    | callBody outer => outer
    | _ => sink) sink

lemma closeAll_cons (o : Opened) (opened : List Opened) (s : RenderState) :
    closeAll (o :: opened) s = closeAll opened (o.close s) := rfl

lemma closeAll_store (opened : List Opened) (s : RenderState) :
    (closeAll opened s).store = s.store := by
  induction opened generalizing s with
  | nil => rfl
  | cons o opened ih =>
    rw [closeAll_cons, ih]
    cases o with
    | rounds var item status => exact (restore_store _ _ _).trans (restore_store _ _ _)
    | macroBody => rfl
    | parsed => rfl
    | callBody outer => rfl

lemma closeAll_sink (opened : List Opened) (s : RenderState) :
    (closeAll opened s).sink = sinkBeneath opened s.sink := by
  induction opened generalizing s with
  | nil => rfl
  | cons o opened ih =>
    rw [closeAll_cons, ih]
    cases o with
    | rounds var item status =>
      show sinkBeneath opened (s.restoreLoop var item status).sink = sinkBeneath opened s.sink
      rw [restoreLoop, restore_sink, restore_sink]
    | macroBody => rfl
    | parsed => rfl
    | callBody outer => rfl

/-- Closing changes no variable of the context but those of loops. -/
lemma closeAll_context {opened : List Opened} {name : String} (hn : ∀ o ∈ opened, ¬o.Restores name)
    (s : RenderState) : (closeAll opened s).context.get? name = s.context.get? name := by
  induction opened generalizing s with
  | nil => rfl
  | cons o opened ih =>
    rw [closeAll_cons, ih fun o ho => hn o (List.mem_cons_of_mem _ ho)]
    have kept := hn o List.mem_cons_self
    cases o with
    | rounds var item status =>
      obtain ⟨hv, hf⟩ := not_or.mp kept
      exact (restore_context _ hf _).trans (restore_context _ hv _)
    | macroBody => rfl
    | parsed => rfl
    | callBody outer => rfl

end Opened

/-- The nodes that the rendering of a block executes by itself, in order: not those in the strings of its
expressions. -/
def Block.watch (depth : Nat) (b : Block) (env : RenderEnv) (s : RenderState) : List Event :=
  ((Walker.ofDepth depth).render b).trace env [] s

lemma fate_of_watched {depth : Nat} {b : Block} {env : RenderEnv} {s : RenderState} {u : Event}
    (hu : u ∈ b.watch depth env s) {flow : Flow} (hj : u.node.kind.jump? = some flow) :
    Fate [] (b.watch depth env s) ((Interpreter.ofDepth depth).render b env s) u flow := by
  rw [← Walker.run_ofDepth]
  exact (lawful_render depth b).fate hu hj

/-- A jump whose flow nothing catches ends the rendering. -/
lemma Fate.ends_of_escapes {trace : List Event} {outcome : Outcome Flow} {u : Event} {flow : Flow}
    (h : Fate [] trace outcome u flow) (he : Escapes u.opened flow) :
    (∃ pre, trace = pre ++ [u]) ∧ outcome = .ok flow (Opened.closeAll u.opened u.state) := by
  cases h with
  | ends inner pre ho _ ht hr =>
    rw [List.append_nil] at ho
    exact ⟨⟨pre, ht⟩, ho ▸ hr⟩
  | caught inner o outer v depth pre mid post hs ho _ hc =>
    have passes := he o (by simp [ho])
    rw [hc] at passes
    cases passes
  | dropped inner sink outer depth b env s pre mid post ho _ hf =>
    have passes : (flow == .stop) = true := he (.callBody sink) (by simp [ho])
    exact absurd (eq_of_beq passes) hf

/-- A string has the text as its value that its rendering wrote, however that ended. -/
lemma eval_interpolated {depth : Nat} {body : Block} {env : RenderEnv} {s t : RenderState} {flow : Flow}
    (hr : (Interpreter.ofDepth depth).render body env { s with sink := .empty } = .ok flow t)
    (lenient : Bool) (p : Position) :
    (Interpreter.ofDepth (depth + 1)).eval lenient ⟨.interpolated body, p⟩ env s =
      .ok (.str t.sink.written) { t with sink := s.sink } := by
  show (((Interpreter.ofDepth depth).render body).captured >>= _) env s = _
  rw [Render.bind_apply, Render.captured_apply, hr]
  rfl

namespace Engine

/-- The nodes that a render executes by itself, in order. -/
def watch (e : Engine) (depth : Nat) (h : Host) (t : Template) (σ : Store) (c : Context) (sink : Sink) :
    List Event :=
  Block.watch depth t.root ((e.env h).opening t) (e.start σ c sink)

variable {e : Engine} {depth : Nat} {h : Host} {t : Template} {σ : Store} {c : Context} {sink : Sink}

/-- Whether a render of a text without variables executes a jump can be computed. -/
lemma exists_watched (e : Engine) (depth : Nat) (h : Host) (source : String) (flow : Flow)
    (hx : (match e.inline source with
      | .ok t => (e.watch depth h t .empty .empty .empty).any fun u => u.node.kind.jump? == some flow
      | .error _ => false) = true) :
    ∃ t, e.inline source = .ok t ∧
      ∃ u ∈ e.watch depth h t .empty .empty .empty, u.node.kind.jump? = some flow := by
  cases ht : e.inline source with
  | error f =>
    rw [ht] at hx
    cases hx
  | ok t =>
    rw [ht] at hx
    obtain ⟨u, hu, hj⟩ := List.any_eq_true.mp hx
    exact ⟨t, rfl, u, hu, eq_of_beq hj⟩

/-- A `#stop` that a render executes is the last node that it executes: the render succeeds, without
writing or changing anything but the variables that open loops put back. In a string it ends the rendering
of the string only. -/
theorem stop_ends (e : Engine) (depth : Nat) (u : Event) (hk : u.node.kind = .stop) :
    (∀ h t σ c sink, u ∈ e.watch depth h t σ c sink →
      let r := e.renderWithin depth h t σ c sink
      (∃ pre, e.watch depth h t σ c sink = pre ++ [u]) ∧
      r = e.finish none (Opened.closeAll u.opened u.state) ∧
      r.store = u.state.store ∧ r.sink = Opened.sinkBeneath u.opened u.state.sink ∧
      ∀ name, (∀ o ∈ u.opened, ¬o.Restores name) →
        r.context.get? name = u.state.context.get? name) ∧
    ∀ (body : Block) lenient p env s, u ∈ body.watch depth env { s with sink := .empty } →
      let t := Opened.closeAll u.opened u.state
      (∃ pre, body.watch depth env { s with sink := .empty } = pre ++ [u]) ∧
      (Interpreter.ofDepth (depth + 1)).eval lenient ⟨.interpolated body, p⟩ env s =
        .ok (.str t.sink.written) { t with sink := s.sink } := by
  have jump : u.node.kind.jump? = some .stop := by rw [hk]; rfl
  have escapes : Escapes u.opened .stop := fun o _ => o.passes_stop
  constructor
  · intro h t σ c sink hu
    obtain ⟨last, outcome⟩ := (fate_of_watched hu jump).ends_of_escapes escapes
    have rendered := renderWithin_of_ok outcome
    dsimp only
    rw [rendered]
    exact ⟨last, rfl, Opened.closeAll_store _ _, Opened.closeAll_sink _ _,
      fun name hn => Opened.closeAll_context hn _⟩
  · intro body lenient p env s hu
    obtain ⟨last, outcome⟩ := (fate_of_watched hu jump).ends_of_escapes escapes
    exact ⟨last, eval_interpolated outcome lenient p⟩

theorem stop_ends_inside_macro :
    ∃ t, (initial .standard).inline "#macro(m)#stop#end#foreach($i in [1..3])$i#m()#end" = .ok t ∧
      ∃ u ∈ (initial .standard).watch 20 (.ofTemplates [] id) t .empty .empty .empty,
        u.node.kind = .stop ∧
        (initial .standard).renderWithin 20 (.ofTemplates [] id) t .empty .empty .empty =
          (initial .standard).finish none (Opened.closeAll u.opened u.state) := by
  obtain ⟨t, ht, u, hu, hj⟩ := exists_watched (initial .standard) 20 (.ofTemplates [] id)
    "#macro(m)#stop#end#foreach($i in [1..3])$i#m()#end" .stop (by decide +kernel)
  have stops := NodeKind.eq_stop hj
  exact ⟨t, ht, u, hu, stops, ((stop_ends _ 20 u stops).1 _ t _ _ _ hu).2.1⟩

/-- The render goes on after a `#stop` that a macro executes in a string. -/
theorem goes_on_after_stop_in_string :
    let r := (initial .standard).renderText (.ofTemplates [] id)
      "#macro(m)#stop#end#set($x=\"a#m()b\")after" .empty .empty .empty
    r.halt.isNone ∧ r.sink.written = "after" ∧ (r.context.get? "x" matches some (.str "a")) := by
  decide +kernel

/-- What becomes of a `#break`: the innermost loop, macro body or template that answers to it ends and the
render goes on, or else the render ends. In the body of a macro call and in a string, it ends no more than
these. -/
theorem fate_of_break (e : Engine) (depth : Nat) (u : Event) (scope : BreakTarget)
    (hk : u.node.kind = .leave scope) :
    (∀ h t σ c sink, u ∈ e.watch depth h t σ c sink →
      Fate [] (e.watch depth h t σ c sink)
        ((Interpreter.ofDepth depth).render t.root ((e.env h).opening t) (e.start σ c sink)) u
        (.leave scope) ∧
      (Escapes u.opened (.leave scope) →
        e.renderWithin depth h t σ c sink = e.finish none (Opened.closeAll u.opened u.state))) ∧
    ∀ (body : Block) lenient p env s, u ∈ body.watch depth env { s with sink := .empty } →
      let t := Opened.closeAll u.opened u.state
      Fate [] (body.watch depth env { s with sink := .empty })
        ((Interpreter.ofDepth depth).render body env { s with sink := .empty }) u (.leave scope) ∧
      (Escapes u.opened (.leave scope) →
        (Interpreter.ofDepth (depth + 1)).eval lenient ⟨.interpolated body, p⟩ env s =
          .ok (.str t.sink.written) { t with sink := s.sink }) := by
  have jump : u.node.kind.jump? = some (.leave scope) := by rw [hk]; rfl
  constructor
  · intro h t σ c sink hu
    have fate := fate_of_watched hu jump
    exact ⟨fate, fun escapes => renderWithin_of_ok (fate.ends_of_escapes escapes).2⟩
  · intro body lenient p env s hu
    have fate := fate_of_watched hu jump
    exact ⟨fate, fun escapes => eval_interpolated (fate.ends_of_escapes escapes).2 lenient p⟩

theorem fate_of_break_of_loop :
    ∃ t, (initial .standard).inline "#foreach($i in [1..3])$i#if($i==2)#break#end#end;" = .ok t ∧
      ∃ u ∈ (initial .standard).watch 20 (.ofTemplates [] id) t .empty .empty .empty,
        u.node.kind = .leave .innermost ∧
        Fate [] ((initial .standard).watch 20 (.ofTemplates [] id) t .empty .empty .empty)
          ((Interpreter.ofDepth 20).render t.root (((initial .standard).env (.ofTemplates [] id)).opening t)
            ((initial .standard).start .empty .empty .empty)) u (.leave .innermost) := by
  obtain ⟨t, ht, u, hu, hj⟩ := exists_watched (initial .standard) 20 (.ofTemplates [] id)
    "#foreach($i in [1..3])$i#if($i==2)#break#end#end;" (.leave .innermost) (by decide +kernel)
  have breaks := NodeKind.eq_leave hj
  exact ⟨t, ht, u, hu, breaks, ((fate_of_break _ 20 u .innermost breaks).1 _ t _ _ _ hu).1⟩

/-- The rounds of a loop go on after a `#break` in the body of a macro call, and after one that a macro
executes in a string. -/
theorem goes_on_after_break :
    (let r := (initial .standard).renderText (.ofTemplates [] id)
      "#macro(m)[$bodyContent]#end#foreach($i in [1..3])$i#@m()#break#end;#end" .empty .empty .empty
    r.halt.isNone ∧ r.sink.written = "1[];2[];3[];") ∧
    let r := (initial .standard).renderText (.ofTemplates [] id)
      "#macro(q)#break($foreach)#end#foreach($i in [1..3])$i#set($x=\"#q()\")#end" .empty .empty .empty
    r.halt.isNone ∧ r.sink.written = "123" := by
  decide +kernel

end Engine

end Stencil
