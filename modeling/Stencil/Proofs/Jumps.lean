import Stencil.Proofs.Walk.Laws

/-!
# Where jumps lead

What becomes of a `#stop` or a `#break` that a render executes: it ends the code around it as far as nothing
that is open catches its flow. Main statement: `lawful_render`.
-/

namespace Stencil

/-- The flow that a node asks for by itself. -/
def NodeKind.jump? : NodeKind → Option Flow
  | stop => some .stop
  | leave scope => some (.leave scope)
  | _ => none

lemma NodeKind.ne_next_of_jump? {kind : NodeKind} {flow : Flow} (h : kind.jump? = some flow) :
    flow ≠ .next := by
  rintro rfl
  cases kind <;> cases h

lemma NodeKind.eq_stop {kind : NodeKind} (h : kind.jump? = some .stop) : kind = .stop := by
  cases kind <;> cases h
  rfl

lemma NodeKind.eq_leave {kind : NodeKind} {scope : BreakTarget} (h : kind.jump? = some (.leave scope)) :
    kind = .leave scope := by
  cases kind <;> cases h
  rfl

namespace Event

/-- The nodes that are executed from the start of a node's execution to its end. -/
def trace (depth : Nat) (u : Event) : List Event :=
  ((Walker.ofDepth depth).node u.node).trace u.env u.opened u.state

/-- How a node's execution ends. -/
def outcome (depth : Nat) (u : Event) : Outcome Flow :=
  (Interpreter.ofDepth depth).node u.node u.env u.state

end Event

/-- Whether a flow reaches the code around. -/
def Escapes (inner : List Opened) (flow : Flow) : Prop := ∀ o ∈ inner, o.passes flow = true

/-- What becomes of a jump `u` in a walk with some code opened around it, by its flow. -/
inductive Fate (around : List Opened) (trace : List Event) (outcome : Outcome Flow) (u : Event)
    (flow : Flow) : Prop
  /-- Nothing catches the flow: it ends the walk. -/
  | ends (inner : List Opened) (pre : List Event) : u.opened = inner ++ around → Escapes inner flow →
    trace = pre ++ [u] → outcome = .ok flow (Opened.closeAll inner u.state) → Fate ..
  /-- The scope that a node `v` opened catches the flow: it ends that node, and the render goes on. -/
  | caught (inner : List Opened) (o : Opened) (outer : List Opened) (v : Event) (depth : Nat)
    (pre mid post : List Event) : o.By v.node.kind → u.opened = inner ++ o :: (outer ++ around) →
    Escapes inner flow → o.passes flow = false → v.opened = outer ++ around →
    trace = pre ++ v.trace depth ++ post → v.trace depth = mid ++ [u] →
    v.outcome depth = .ok .next (o.close (Opened.closeAll inner u.state)) → Fate ..
  /-- The body of a macro call catches the flow: it ends the body, and the call goes on. -/
  | dropped (inner : List Opened) (sink : Sink) (outer : List Opened) (depth : Nat) (b : Block)
    (env : RenderEnv) (s : RenderState) (pre mid post : List Event) :
    u.opened = inner ++ .callBody sink :: (outer ++ around) → Escapes inner flow → flow ≠ .stop →
    trace = pre ++ ((Walker.ofDepth depth).render b).trace env (.callBody sink :: (outer ++ around)) s ++
      post →
    ((Walker.ofDepth depth).render b).trace env (.callBody sink :: (outer ++ around)) s = mid ++ [u] →
    (Interpreter.ofDepth depth).render b env s = .ok flow (Opened.closeAll inner u.state) → Fate ..

/-- What becomes of a jump in a walk that may have opened scopes of its `own`. -/
inductive FateWithin (own : Opened → Prop) (around : List Opened) (trace : List Event)
    (outcome : Outcome Flow) (u : Event) (flow : Flow) : Prop
  | other : Fate around trace outcome u flow → FateWithin ..
  /-- The walk's own scope catches the flow. -/
  | here (inner : List Opened) (o : Opened) (pre : List Event) : own o →
    u.opened = inner ++ o :: around → Escapes inner flow → o.passes flow = false →
    trace = pre ++ [u] → outcome = .ok .next (o.close (Opened.closeAll inner u.state)) → FateWithin ..

section

variable {own : Opened → Prop} {around : List Opened} {trace : List Event} {outcome : Outcome Flow}
  {u : Event} {flow : Flow}

/-- What is caught or dropped in a walk, is so in every walk that it is a part of: with more open around it,
and with nodes that are executed before and after. Only what ends the walk is another matter. -/
lemma Fate.elim {outcome' : Outcome Flow} {P : Prop} (more : List Opened) (front back : List Event)
    (h : Fate (more ++ around) trace outcome u flow)
    (hends : ∀ inner pre, u.opened = inner ++ (more ++ around) → Escapes inner flow →
      trace = pre ++ [u] → outcome = .ok flow (Opened.closeAll inner u.state) → P)
    (hother : Fate around (front ++ trace ++ back) outcome' u flow → P) : P := by
  cases h with
  | ends inner pre ho he ht hr => exact hends inner pre ho he ht hr
  | caught inner o outer v depth pre mid post hs ho he hc hv ht hm hr =>
    apply hother
    rw [← List.append_assoc outer more around] at ho hv
    refine .caught inner o (outer ++ more) v depth (front ++ pre) mid (post ++ back) hs ho he hc hv ?_ hm
      hr
    simp only [ht, List.append_assoc]
  | dropped inner sink outer depth b env s pre mid post ho he hf ht hm hr =>
    apply hother
    rw [← List.append_assoc outer more around] at ho ht hm
    refine .dropped inner sink (outer ++ more) depth b env s (front ++ pre) mid (post ++ back) ho he hf ?_
      hm hr
    simp only [ht, List.append_assoc]

lemma Fate.before (h : Fate around trace outcome u flow) (front : List Event) :
    Fate around (front ++ trace) outcome u flow := by
  rw [← List.append_nil (front ++ trace)]
  refine Fate.elim [] front [] h (fun inner pre ho he ht hr => ?_) id
  refine .ends inner (front ++ pre) ho he ?_ hr
  rw [ht, List.append_nil, List.append_assoc]

/-- Nodes that are executed after a walk do not matter, if its flow keeps them from running. -/
lemma Fate.followed (h : Fate around trace outcome u flow) {back : List Event}
    {outcome' : Outcome Flow} (hb : ∀ s, outcome = .ok flow s → back = [] ∧ outcome' = outcome) :
    Fate around (trace ++ back) outcome' u flow := by
  refine Fate.elim [] [] back h (fun inner pre ho he ht hr => ?_) id
  obtain ⟨rfl, rfl⟩ := hb _ hr
  refine .ends inner pre ho he ?_ hr
  rw [ht, List.append_nil]

lemma FateWithin.before (h : FateWithin own around trace outcome u flow) (front : List Event) :
    FateWithin own around (front ++ trace) outcome u flow := by
  cases h with
  | other hf => exact .other (hf.before front)
  | here inner o pre hl ho he hc ht hr =>
    refine .here inner o (front ++ pre) hl ho he hc ?_ hr
    rw [ht, List.append_assoc]

lemma FateWithin.keep (h : FateWithin own around trace outcome u flow) {outcome' : Outcome Flow}
    (hk : ∀ x s, outcome = .ok x s → outcome' = .ok x s) :
    FateWithin own around trace outcome' u flow := by
  cases h with
  | here inner o pre hl ho he hc ht hr => exact .here inner o pre hl ho he hc ht (hk _ _ hr)
  | other hf =>
    apply FateWithin.other
    rw [← List.append_nil trace]
    refine hf.elim [] [] [] (fun inner pre ho he ht hr => ?_) id
    refine .ends inner pre ho he ?_ (hk _ _ hr)
    rw [ht, List.append_nil]

lemma FateWithin.node {v : Event} {depth : Nat}
    (h : FateWithin (·.By v.node.kind) around trace outcome u flow) (hv : v.opened = around)
    (ht : v.trace depth = v :: trace) (hr : v.outcome depth = outcome) :
    Fate around (v.trace depth) (v.outcome depth) u flow := by
  cases h with
  | other hf =>
    rw [ht, hr]
    exact hf.before [v]
  | here inner o pre hl ho he hc hp hn =>
    refine .caught inner o [] v depth [] (v :: pre) [] hl ho he hc hv ?_ ?_ (hr.trans hn)
    · rw [List.nil_append, List.append_nil]
    · rw [ht, hp]
      rfl

end

/-- A walk in which every jump has its fate, where the walk may have opened scopes of its `own`. -/
def Lawful (own : Opened → Prop) (w : Walk Flow) : Prop :=
  ∀ env around s, ∀ u ∈ w.trace env around s, ∀ flow, u.node.kind.jump? = some flow →
    FateWithin own around (w.trace env around s) (w.run env s) u flow

namespace Lawful

open Walk

variable {α : Type} {own : Opened → Prop} {w rest : Walk Flow}

lemma fate (h : Lawful noScope w) {env : RenderEnv} {around : List Opened} {s : RenderState} {u : Event}
    (hu : u ∈ w.trace env around s) {flow : Flow} (hj : u.node.kind.jump? = some flow) :
    Fate around (w.trace env around s) (w.run env s) u flow := by
  cases h env around s u hu flow hj with
  | other hf => exact hf
  | here _ _ _ hl => exact hl.elim

lemma loosen (h : Lawful noScope w) : Lawful own w := by
  intro env around s u hu flow hj
  exact .other (h.fate hu hj)

lemma act (m : Render Flow) : Lawful own (act m) := by
  intro env around s u hu
  cases hu

lemma act_bind (m : Render α) {f : α → Walk Flow} (h : ∀ x, Lawful own (f x)) :
    Lawful own (Walk.act m >>= f) := by
  intro env around s u hu flow hj
  rw [trace_act_bind] at hu ⊢
  rw [run_bind, run_act, Render.bind_apply]
  cases hm : m env s with
  | ok x s' =>
    rw [hm] at hu
    exact h x env around s' u hu flow hj
  | error halt s' =>
    rw [hm] at hu
    cases hu

/-- One walk after another: the second runs only where the first says so. -/
lemma follow (hw : Lawful noScope w) (hr : Lawful noScope rest) : Lawful noScope (Walk.follow w rest) := by
  intro env around s u hu flow hj
  have jumps := NodeKind.ne_next_of_jump? hj
  rw [trace_follow] at hu ⊢
  rw [run_follow]
  -- A jump in the first walk keeps the second from running, unless something in the first caught it.
  rcases List.mem_append.mp hu with first | second
  · refine .other ((hw.fate first hj).followed fun s' hs => ?_)
    rw [hs]
    cases flow with
    | next => exact absurd rfl jumps
    | leave scope => exact ⟨rfl, rfl⟩
    | stop => exact ⟨rfl, rfl⟩
  · cases hm : w.run env s with
    | error halt s' =>
      rw [hm] at second
      cases second
    | ok first s' =>
      rw [hm] at second
      cases first with
      | next => exact (hr env around s' u second flow hj).before _
      | leave scope => cases second
      | stop => cases second

/-- A walk with a scope around it: the scope lets the flow pass or catches it. -/
lemma within {o : Opened} (ho : own o) (hw : Lawful noScope w) : Lawful own (Walk.within o w) := by
  intro env around s u hu flow hj
  rw [trace_within] at hu ⊢
  rw [run_within, ← List.append_nil (w.trace env (o :: around) s)]
  refine (hw.fate hu hj).elim [o] [] [] (fun inner pre hi he ht hr => ?_) .other
  rw [hr, List.append_nil]
  -- Only a jump whose flow reaches the scope is its concern.
  cases hp : o.passes flow with
  | true =>
    refine .other (.ends (inner ++ [o]) pre ?_ ?_ ht ?_)
    · rw [hi, List.append_assoc]
    · intro o' ho'
      rcases List.mem_append.mp ho' with h | h
      · exact he o' h
      · rw [List.mem_singleton.mp h, hp]
    · rw [Opened.closeAll_concat]
      simp only [Opened.after, hp, if_true]
  | false =>
    refine .here inner o pre ho hi he hp ht ?_
    simp only [Opened.after, hp, Bool.false_eq_true, if_false]

lemma under (g : RenderEnv → RenderEnv) (h : Lawful own w) : Lawful own (Walk.under g w) := by
  intro env around s u hu flow hj
  exact h (g env) around s u hu flow hj

lemma telling (f : TemplateError → TemplateError) (h : Lawful own w) :
    Lawful own (Walk.telling f w) := by
  intro env around s u hu flow hj
  refine (h env around s u hu flow hj).keep fun x s' hr => ?_
  show (w.run.onError f) env s = .ok x s'
  rw [Render.onError, hr]

end Lawful

/-! ### The walks of nodes -/

section

open Walker

variable {own : Opened → Prop} {depth : Nat}

lemma run_content_apply (body : Block) (env : RenderEnv) (s : RenderState) :
    ((Walker.ofDepth depth).content body).run env s =
      match (Interpreter.ofDepth depth).render body env { s with sink := .empty } with
      | .ok flow t => .ok (flow, t.sink.written) { t with sink := s.sink }
      | .error halt t => .error halt { t with sink := s.sink } := by
  have same (b : Block) : ((Walker.ofDepth depth).render b).run = (Walker.ofDepth depth).self.render b := by
    rw [run_ofDepth, self_ofDepth]
  rw [run_content same, Render.captured_apply, self_ofDepth]
  cases (Interpreter.ofDepth depth).render body env { s with sink := .empty } <;> rfl

lemma trace_content (body : Block) (env : RenderEnv) (around : List Opened) (s : RenderState) :
    ((Walker.ofDepth depth).content body).trace env around s =
      ((Walker.ofDepth depth).render body).trace env (.callBody s.sink :: around)
        { s with sink := .empty } := by
  show ((Walker.ofDepth depth).render body).trace env (.callBody s.sink :: around)
    { s with sink := .empty } ++ _ = _
  cases ((Walker.ofDepth depth).render body).run env { s with sink := .empty } <;>
    exact List.append_nil _

/-- The body of a macro call runs before the macro; only a `#stop` in it is passed on. -/
lemma lawful_call {body : Block} (hb : Lawful noScope ((Walker.ofDepth depth).render body)) {rest : String → Walk Flow}
    (hrest : ∀ text, Lawful own (rest text)) :
    Lawful own (do
      let (flow, text) ← (Walker.ofDepth depth).content body
      if flow == .stop then return .stop
      else rest text) := by
  intro env around s u hu flow hj
  rw [Walk.trace_bind, trace_content, run_content_apply] at hu ⊢
  rw [Walk.run_bind, Render.bind_apply, run_content_apply]
  rcases List.mem_append.mp hu with first | second
  · refine (hb.fate first hj).elim [.callBody s.sink] [] _ (fun inner pre hi he ht ho => ?_) .other
    rw [run_ofDepth] at ho
    cases flow with
    | next => exact absurd rfl (NodeKind.ne_next_of_jump? hj)
    | stop =>
      -- The body is over, and so is what is around it.
      rw [ho]
      refine .other (.ends (inner ++ [.callBody s.sink]) pre ?_ ?_ ?_ ?_)
      · rw [hi, List.append_assoc]
      · intro o _
        exact o.passes_stop
      · exact (List.append_nil _).trans ht
      · rw [Opened.closeAll_concat]
        rfl
    | leave scope =>
      exact .other (.dropped inner s.sink [] depth body env { s with sink := .empty } [] pre _ hi he
        (by simp) rfl ht ho)
  · cases ended : (Interpreter.ofDepth depth).render body env { s with sink := .empty } with
    | error halt t =>
      rw [ended] at second
      cases second
    | ok found t =>
      rw [ended] at second
      refine .before ?_ _
      dsimp only at second ⊢
      split at second
      · cases second
      · next hn =>
        simp only [hn]
        exact hrest _ env around _ u second flow hj

lemma lawful_node {n : Node} (h : Lawful (·.By n.kind) ((Walker.ofDepth depth).construct n)) :
    Lawful noScope ((Walker.ofDepth depth).node n) := by
  intro env around s u hu flow hj
  have construct := h env around s u
  have run : ((Walker.ofDepth depth).construct n).run env s = Event.outcome depth ⟨n, env, around, s⟩ := by
    show ((Walker.ofDepth depth).node n).run env s = _
    rw [run_node fun b => by rw [run_ofDepth, self_ofDepth], self_ofDepth]
    rfl
  rw [run] at construct
  show FateWithin noScope around (Event.trace depth ⟨n, env, around, s⟩)
    (((Walker.ofDepth depth).construct n).run env s) u flow
  rw [run]
  apply FateWithin.other
  -- The node is a jump itself, or the jump lies in the construct that the node stands for.
  rcases List.mem_cons.mp hu with rfl | inside
  · refine .ends [] [] rfl (fun o ho => by cases ho) ?_ ?_
    all_goals
      obtain ⟨kind, p⟩ := n
      cases kind <;> cases hj <;> rfl
  · exact (construct inside flow hj).node rfl rfl rfl

end

/-- Every jump has its fate in the walks through blocks if it has it in the parts of these. -/
def Walk.Law.jumps : Walk.Law where
  Holds := Lawful
  holds_act := .act
  holds_act_bind := .act_bind
  loosen := .loosen
  holds_follow := .follow
  holds_within := .within
  holds_under _ := .under _
  holds_telling := .telling
  holds_call hb := lawful_call hb
  holds_node := lawful_node

/-- Every jump of a render has its fate. -/
theorem lawful_render (depth : Nat) (b : Block) : Lawful noScope ((Walker.ofDepth depth).render b) :=
  Walk.Law.jumps.holds_render depth b

end Stencil
