import Stencil.Proofs.Nesting
import Stencil.Proofs.Scopes

/-!
# Code that spares a variable

A variable in the innermost frame keeps its value while an expression is evaluated, unless the expression runs a `#set`
on it in that frame: a loop puts back what it binds, and macros and parsed templates bind what they bind in frames of
their own. Main statement: `Interpreter.Spares.keepsVar`.
-/

namespace Stencil

/-! ### The innermost frame -/

namespace RenderState

/-- The binding of a variable in the innermost frame. -/
def bound? (s : RenderState) (name : String) : Option Value := s.frames.head?.bind (·.get? name)

/-- Whether two states have the same frames but for the innermost one, and there the same binding of a variable. -/
structure KeepsVar (name : String) (s t : RenderState) : Prop extends s.Keeps t where
  bound : t.bound? name = s.bound? name

variable {s t u : RenderState} {name : String}

lemma bound?_congr (h : t.frames = s.frames) (name : String) : t.bound? name = s.bound? name := by
  unfold bound?
  rw [h]

lemma bound?_of_frames {frame : Dict Value} {frames : List (Dict Value)} (h : s.frames = frame :: frames)
    (name : String) : s.bound? name = frame.get? name := by
  unfold bound?
  rw [h]
  rfl

lemma local?_of_frames {frame : Dict Value} {frames : List (Dict Value)} (h : s.frames = frame :: frames)
    (name : String) : s.local? name = frame.get? name := by
  unfold local?
  rw [h]

/-- What keeps the frames but for the innermost one, keeps that there is one. -/
lemma Keeps.frames_cons (h : s.Keeps t) {frame : Dict Value} {frames : List (Dict Value)}
    (hs : s.frames = frame :: frames) : ∃ frame', t.frames = frame' :: frames := by
  have some := h.isEmpty
  have outer := h.outer
  rw [hs] at some outer
  cases ht : t.frames with
  | nil =>
    rw [ht] at some
    cases some
  | cons frame' rest =>
    rw [ht] at outer
    exact ⟨frame', congrArg (frame' :: ·) outer⟩

lemma Keeps.frames_nil (h : s.Keeps t) (hs : s.frames = []) : t.frames = [] := by
  have empty := h.isEmpty
  rw [hs] at empty
  exact List.isEmpty_iff.mp empty

lemma bound?_put {frame : Dict Value} {frames : List (Dict Value)} (h : s.frames = frame :: frames)
    (name : String) (v : Value) (other : String) :
    (s.put name v).bound? other = if other = name then some v else frame.get? other := by
  unfold bound? put
  rw [h]
  exact Dict.get?_insert ..

lemma bound?_restore {frame : Dict Value} {frames : List (Dict Value)} (h : s.frames = frame :: frames)
    (name : String) (binding : Option Value) (other : String) :
    (s.restore name binding).bound? other = if other = name then binding else frame.get? other := by
  cases binding with
  | some v => exact bound?_put h name v other
  | none =>
    unfold bound? restore
    rw [h]
    exact Dict.get?_erase ..

lemma keepsVar_put (s : RenderState) {other : String} (h : name ≠ other) (v : Value) :
    s.KeepsVar name (s.put other v) where
  toKeeps := s.keeps_put other v
  bound := by
    cases hs : s.frames with
    | nil => exact bound?_congr (((s.keeps_put other v).frames_nil hs).trans hs.symm) name
    | cons frame frames => rw [bound?_put hs, if_neg h, bound?_of_frames hs]

/-- A loop that is left puts back its variable and `foreach`; other variables are what its rounds made of them. -/
lemma Keeps.restoreLoop (h : s.Keeps t) (var : String)
    (hb : name ≠ var → name ≠ "foreach" → t.bound? name = s.bound? name) :
    s.KeepsVar name (t.restoreLoop var (s.local? var) (s.local? "foreach")) where
  toKeeps := h.trans ((t.keeps_restore var _).trans (keeps_restore _ _ _))
  bound := by
    have item := t.keeps_restore var (s.local? var)
    cases hs : s.frames with
    | nil =>
      have all := h.trans (item.trans (keeps_restore _ "foreach" (s.local? "foreach")))
      exact bound?_congr ((all.frames_nil hs).trans hs.symm) name
    | cons frame frames =>
      obtain ⟨frame', ht⟩ := h.frames_cons hs
      obtain ⟨frame'', hu⟩ := item.frames_cons ht
      have first := bound?_restore ht var (s.local? var) name
      have second := bound?_restore hu "foreach" (s.local? "foreach") name
      rw [bound?_of_frames hu, local?_of_frames hs] at first
      rw [bound?_of_frames hs, RenderState.restoreLoop, second, local?_of_frames hs]
      by_cases status : name = "foreach"
      · rw [if_pos status, status]
      · rw [if_neg status, first]
        by_cases same : name = var
        · rw [if_pos same, same]
        · have kept := hb same status
          rw [bound?_of_frames ht, bound?_of_frames hs] at kept
          rw [if_neg same, kept]

end RenderState

/-! ### What code keeps of the state -/

/-- A relation between the states before and after some code that cares for frames and the context only. -/
structure Conserved (R : RenderState → RenderState → Prop) : Prop where
  of_eq : ∀ {s t}, t.frames = s.frames → t.context = s.context → R s t
  trans : ∀ {s t u}, R s t → R t u → R s u

namespace Conserved

lemma keeps : Conserved RenderState.Keeps := ⟨.of_eq, .trans⟩

lemma keepsVar (name : String) : Conserved (RenderState.KeepsVar name) where
  of_eq hf hc := ⟨.of_eq hf hc, RenderState.bound?_congr hf name⟩
  trans h h' := ⟨h.toKeeps.trans h'.toKeeps, h'.bound.trans h.bound⟩

variable {R : RenderState → RenderState → Prop} (h : Conserved R)

include h in
lemma refl (s : RenderState) : R s s := h.of_eq rfl rfl

/-- The single render whose states before and after are related. -/
def tempo : Tempo Unit where
  Strict _ := True
  Around _ := True
  Place _ := True
  Holds env m := ∀ s, R s (Outcome.state (m () (env ()) s))
  strict_and _ _ := trivial
  settings {env} _ := ⟨(env ()).settings, fun _ => (env ()).settings.strictReferences, trivial, fun _ => rfl⟩
  types {env} _ := ⟨(env ()).types, fun _ => rfl⟩
  calls {env} _ := ⟨(env ()).calls, fun _ => rfl⟩
  opened {env} _ := ⟨(env ()).templates.length, fun _ => rfl⟩
  resolve {env} _ := ⟨(env ()).resolve, fun _ => rfl⟩
  holds_pure _ s := h.refl s
  holds_bind := by
    intro α β env m f hm hf s
    have first := hm s
    simp only [Render.bind_apply]
    cases hr : m () (env ()) s with
    | ok x t =>
      rw [hr] at first
      exact h.trans first (hf x t)
    | error halt t =>
      rw [hr] at first
      exact first
  holds_fail _ _ s := h.refl s
  holds_fail_if := by
    intro α env b p m c _ _ hm s
    dsimp only
    split
    · exact h.refl s
    · exact hm s
  holds_read hf := hf
  holds_get _ hf s := hf s s
  holds_change _ s := h.of_eq rfl rfl
  holds_emit t s := by
    simp only [Render.emit_apply]
    rcases s.sink.write t with ⟨_ | f, sink⟩
    · exact h.of_eq rfl rfl
    · exact h.of_eq rfl rfl
  holds_captured := by
    intro α env m hm s
    have silent : R s { s with sink := .empty } := h.of_eq rfl rfl
    have text := h.trans silent (hm { s with sink := .empty })
    simp only [Render.captured_apply]
    cases hr : m () (env ()) { s with sink := .empty } with
    | ok x t =>
      rw [hr] at text
      exact h.trans text (h.of_eq rfl rfl)
    | error halt t =>
      rw [hr] at text
      exact h.trans text (h.of_eq rfl rfl)
  holds_chosen := by
    intro env p _ _ q s
    obtain ⟨x, t, hr, hv⟩ := Render.chosen_ok (p ()) q (env ()) s
    simp only [hr]
    exact h.of_eq (RenderState.frames_congr hv) (RenderState.context_congr hv)

end Conserved

/-! ### Giving up at a `#set` -/

/-- Whether a node is a `#set` on a variable. -/
def NodeKind.sets (name : String) : NodeKind → Bool
  | assign target _ => target.segments.isEmpty && target.root == name
  | _ => false

namespace Interpreter

/-- Opens a template that is parsed and renders it in a frame of its own. -/
def parsed (self : Interpreter) (p : Position) (resource : String) : Render Flow := do
  let t ← Render.orRaise (·.leaving (.parse resource) p) (← Render.template resource)
  let flow ← self.nested t (.parse resource) p Render.inFrame
  return if flow.endsTemplate then .next else flow

/-- Renders a node, but gives up at a `#set` on a variable. What runs in a frame of its own is left to another
interpreter. -/
def sparingNode (self plain : Interpreter) (name : String) (n : Node) : Render Flow :=
  if n.kind.sets name then throw .exhausted
  else match n.kind with
  | .macroCall c => self.macroCallBy c n.position fun unit d args content => plain.invoke unit d n.position args content
  | .parse arg => self.parseBy arg n.position (plain.parsed n.position)
  | _ => self.node n

def sparingBlock (self plain : Interpreter) (name : String) : Block → Render Flow
  | [] => return .next
  | n :: ns => do
    match ← self.sparingNode plain name n with
    | .next => self.sparingBlock plain name ns
    | flow => return flow

lemma sparingNode_eq (self plain : Interpreter) {name : String} {n : Node} (h : n.kind.sets name = false) :
    self.sparingNode plain name n =
      match n.kind with
      | .macroCall c =>
        self.macroCallBy c n.position fun unit d args content => plain.invoke unit d n.position args content
      | .parse arg => self.parseBy arg n.position (plain.parsed n.position)
      | _ => self.node n := by
  unfold sparingNode
  rw [h, if_neg Bool.false_ne_true]

lemma sparingBlock_cons (self plain : Interpreter) (name : String) (n : Node) (b : Block) :
    self.sparingBlock plain name (n :: b) =
      self.sparingNode plain name n >>= Flow.before (self.sparingBlock plain name b) := by
  rw [sparingBlock]
  congr

/-- The interpreter that follows code nested at most `depth` deep, and gives up at every `#set` on a variable in the
frame where it starts. -/
def sparing (name : String) : Nat → Interpreter
  | 0 => .ofDepth 0
  | depth + 1 =>
    { eval := fun lenient e => (sparing name depth).evaluate lenient e
      render := fun b => (sparing name depth).sparingBlock (.ofDepth depth) name b }

/-- Evaluating an expression runs no `#set` on a variable in the frame where it starts: the interpreter that gives up
at them does not give up. -/
def Spares (name : String) (depth : Nat) (e : Expr) (env : RenderEnv) (s : RenderState) : Prop :=
  ¬Outcome.Exhausted ((sparing name depth).value e env s)

/-- The sparing interpreter of some depth beside the one that gives up nowhere. -/
def besideSparing (name : String) (depth : Nat) : Bool → Interpreter
  | false => .sparing name depth
  | true => .ofDepth depth

/-- An interpreter whose expressions and blocks relate the states before and after them. -/
structure Stays (R : RenderState → RenderState → Prop) (code : Interpreter) : Prop where
  eval : ∀ lenient e env s, R s (Outcome.state (code.eval lenient e env s))
  render : ∀ b env s, R s (Outcome.state (code.render b env s))

end Interpreter

namespace Conserved

variable {R : RenderState → RenderState → Prop} (h : Conserved R) {self : Interpreter} {env : RenderEnv}

lemma holds_stay (hs : self.Stays R) (g : Relocation) (env : RenderEnv) :
    (∀ e, h.tempo.Evaluates (fun _ => self) (fun _ => g) (fun _ => env) e) ∧
      ∀ b, h.tempo.Renders (fun _ => self) (fun _ => g) (fun _ => env) b :=
  ⟨fun e lenient s => hs.eval lenient (g.expr e) env s, fun b s => hs.render (g.block b) env s⟩

lemma sited (g : Unit → Relocation) (ps : List Position) : h.tempo.Sited g ps := fun _ _ => trivial

include h in
/-- The value of an expression, given what its parts do. -/
lemma evaluate (hs : self.Stays R) (lenient : Bool) (e : Expr) (env : RenderEnv) (s : RenderState) :
    R s (Outcome.state (self.evaluate lenient e env s)) := by
  obtain ⟨values, blocks⟩ := h.holds_stay hs .stay env
  have value : h.tempo.Holds (fun _ => env) fun _ => self.evaluate lenient (Relocation.stay.expr e) :=
    h.tempo.holds_evaluate trivial (h.sited _ _) (fun x _ => values x) (fun b _ => blocks b) lenient
  simpa only [Relocation.expr_stay] using value s

/-- A macro leaves the frames and the context of its caller as they are. -/
lemma holds_invoke (depth : Nat) (unit : CodeUnit) (d : MacroDef) (p : Position) (args : Arguments)
    (content : Option String) :
    h.tempo.Holds (fun _ => env) fun _ => (Interpreter.ofDepth depth).invoke unit d p args content := fun s =>
  have call := Interpreter.isolated_invoke unit d p args content env s
  h.of_eq (call.frames depth) (call.context depth)

/-- So does a parsed template. -/
lemma holds_parsed (depth : Nat) (p : Position) (resource : String) :
    h.tempo.Holds (fun _ => env) fun _ => (Interpreter.ofDepth depth).parsed p resource := by
  refine h.tempo.holds_bind (fun s => h.of_eq rfl rfl) fun answer => ?_
  refine h.tempo.holds_bind (fun s => ?_) fun t => ?_
  · cases answer <;> exact h.refl s
  · refine h.tempo.holds_bind (fun s => ?_) fun flow => h.tempo.holds_pure _
    have nested := Interpreter.isolated_parsed t (.parse resource) p env s
    exact h.of_eq (nested.frames depth) (nested.context depth)

lemma holds_macroCall (hs : self.Stays R) (depth : Nat) (c : MacroCall) (p : Position) :
    h.tempo.Holds (fun _ => env) fun _ =>
      self.macroCallBy c p fun unit d args content => (Interpreter.ofDepth depth).invoke unit d p args content := by
  obtain ⟨values, blocks⟩ := h.holds_stay hs .stay env
  exact h.tempo.holds_macroCallBy_stay trivial trivial (h.sited _ _) (fun arg _ => values arg.value)
    (fun b _ => blocks b) fun _ args content => h.holds_invoke depth _ _ p args content

lemma holds_parse (hs : self.Stays R) (depth : Nat) (arg : Expr) (p : Position) :
    h.tempo.Holds (fun _ => env) fun _ => self.parseBy arg p ((Interpreter.ofDepth depth).parsed p) := by
  have parsed : h.tempo.Holds (fun _ => env) fun _ =>
      self.parseBy (Relocation.stay.expr arg) p ((Interpreter.ofDepth depth).parsed p) :=
    h.tempo.holds_parseBy trivial trivial ((h.holds_stay hs .stay env).1 arg) trivial fun _ resource =>
      h.holds_parsed depth p resource
  simpa only [Relocation.expr_stay] using parsed

lemma holds_inclusions (hs : self.Stays R) (args : List Expr) (p : Position) :
    h.tempo.Holds (fun _ => env) fun _ => args.forM (self.inclusion p) := by
  have included : h.tempo.Holds (fun _ => env) fun _ => (Relocation.stay.exprList args).forM (self.inclusion p) := by
    refine h.tempo.holds_forM fun arg _ => ?_
    simp only [Interpreter.inclusion_eq]
    refine h.tempo.holds_includeBy trivial trivial ((h.holds_stay hs .stay env).1 arg) fun resource => ?_
    refine h.tempo.holds_bind (fun s => h.of_eq rfl rfl) fun answer s => ?_
    cases answer <;> exact h.refl s
  simpa only [Relocation.exprList_stay] using included

/-- A text that is evaluated has no frame of its own. -/
lemma holds_evaluateText (hs : self.Stays R) (arg : Expr) (p : Position) :
    h.tempo.Holds (fun _ => env) fun _ => self.evaluateText arg p := by
  have evaluated : h.tempo.Holds (fun _ => env) fun _ => self.evaluateText (Relocation.stay.expr arg) p := by
    simp only [Interpreter.evaluateText_eq]
    refine h.tempo.holds_evaluateBy ((h.holds_stay hs .stay env).1 arg) fun text => ?_
    refine h.tempo.holds_bind (fun s => h.of_eq rfl rfl) fun unit => ?_
    refine h.tempo.holds_read (h.tempo.holds_bind (fun s => ?_) fun t s => ?_)
    · cases Template.compile unit ⟨"#evaluate at " ++ p.display, text⟩ env.settings.gobbling <;> exact h.refl s
    · show R s (Outcome.state (Outcome.telling (self.render t.root (env.opening t) s) _))
      rw [Outcome.state_telling]
      exact hs.render t.root _ s
  simpa only [Relocation.expr_stay] using evaluated

/-- The rendering of a node that calls nothing and binds nothing. -/
lemma holds_node (hs : self.Stays R) {n : Node} (hc : n.kind.callsOut = false) (hv : n.kind.binds = false) :
    h.tempo.Holds (fun _ => env) fun _ => self.node n := by
  obtain ⟨values, blocks⟩ := h.holds_stay hs .stay env
  have node : h.tempo.Holds (fun _ => env) fun _ => self.node (Relocation.stay.node n) :=
    h.tempo.holds_nodeBy trivial (h.sited _ _) (fun e _ => values e) (fun b _ => blocks b)
      (fun calls => absurd calls (ne_true_of_eq_false hc)) fun binds => absurd binds (ne_true_of_eq_false hv)
  simpa only [Relocation.node_stay] using node

end Conserved

/-! ### What keeps a variable -/

namespace Conserved

variable {name : String} {self : Interpreter} {env : RenderEnv}

lemma holds_put_of_ne {other : String} (h : name ≠ other) (v : Value) :
    (keepsVar name).tempo.Holds (fun _ => env) fun _ => (modify (·.put other v) : Render PUnit) :=
  fun s => s.keepsVar_put h v

/-- A loop keeps every variable that the rounds keep, and its own variables in any case. -/
lemma holds_looping (hs : self.Stays (RenderState.KeepsVar name)) (g : Relocation) (var : String) (body : Block)
    (items : List (Option String × Value)) :
    (keepsVar name).tempo.Holds (fun _ => env) fun _ => self.looping var (g.block body) items := by
  intro s
  have plain : self.Stays RenderState.Keeps :=
    ⟨fun lenient e env s => (hs.eval lenient e env s).toKeeps, fun b env s => (hs.render b env s).toKeeps⟩
  -- Whatever the rounds bind, they leave the frames; and what they do not bind, they keep.
  have frames : keeps.tempo.Holds (fun _ => env) fun _ =>
      self.rounds var (g.block body) ((s.get? "foreach").getD .null) items.length 0 items :=
    keeps.tempo.holds_rounds (keeps.tempo.holds_startRound (fun v s => s.keeps_put _ v) fun v s => s.keeps_put _ v)
      ((keeps.holds_stay plain g env).2 body) _ _ _ _
  have others (hv : name ≠ var) (hf : name ≠ "foreach") : (keepsVar name).tempo.Holds (fun _ => env) fun _ =>
      self.rounds var (g.block body) ((s.get? "foreach").getD .null) items.length 0 items :=
    (keepsVar name).tempo.holds_rounds
      ((keepsVar name).tempo.holds_startRound (holds_put_of_ne hf) (holds_put_of_ne hv))
      (((keepsVar name).holds_stay hs g env).2 body) _ _ _ _
  show RenderState.KeepsVar name s (Outcome.state (Outcome.leaving _ fun t => t.restoreLoop var _ _))
  rw [Outcome.state_leaving]
  exact RenderState.Keeps.restoreLoop (frames s) var fun hv hf => (others hv hf s).bound

lemma holds_loop (hs : self.Stays (RenderState.KeepsVar name)) (var : String) (iterable : Expr) (body : Block)
    (otherwise : Option Block) :
    (keepsVar name).tempo.Holds (fun _ => env) fun _ => self.loop var iterable body otherwise := by
  obtain ⟨values, blocks⟩ := (keepsVar name).holds_stay hs .stay env
  have loop : (keepsVar name).tempo.Holds (fun _ => env) fun _ => self.loop var (Relocation.stay.expr iterable)
      (Relocation.stay.block body) (Relocation.stay.blockOption otherwise) :=
    (keepsVar name).tempo.holds_loopBy trivial var trivial (values iterable) (fun x _ => values x)
      (holds_looping hs .stay var body) fun b _ => blocks b
  simpa only [Relocation.expr_stay, Relocation.block, Relocation.nodeList_stay, Relocation.blockOption_stay] using loop

lemma holds_assign (hs : self.Stays (RenderState.KeepsVar name)) (target : Reference) {value : Expr} (v : Value)
    (hn : (NodeKind.assign target value).sets name = false) :
    (keepsVar name).tempo.Holds (fun _ => env) fun _ => Render.assign self.value target v := by
  have assigned : (keepsVar name).tempo.Holds (fun _ => env) fun _ =>
      Render.assign self.value (Relocation.stay.reference target) v := by
    refine (keepsVar name).tempo.holds_assignBy trivial ((keepsVar name).sited _ _)
      (fun e _ s => hs.eval false _ env s) v fun whole => holds_put_of_ne (fun same => ?_) v
    simp [NodeKind.sets, whole, same] at hn
  simpa only [Relocation.reference_stay] using assigned

/-- A node that is rendered sparingly keeps the variable. -/
lemma holds_sparingNode (hs : self.Stays (RenderState.KeepsVar name)) (depth : Nat) (n : Node) :
    (keepsVar name).tempo.Holds (fun _ => env) fun _ => self.sparingNode (.ofDepth depth) name n := by
  unfold Interpreter.sparingNode
  cases hn : n.kind.sets name with
  | true => exact fun s => (keepsVar name).refl s
  | false =>
    rw [if_neg Bool.false_ne_true]
    obtain ⟨kind, p⟩ := n
    cases kind with
    | macroCall c => exact (keepsVar name).holds_macroCall hs depth c p
    | parse arg => exact (keepsVar name).holds_parse hs depth arg p
    | inclusion args => exact (keepsVar name).tempo.holds_doing ((keepsVar name).holds_inclusions hs args p)
    | evaluate arg => exact (keepsVar name).holds_evaluateText hs arg p
    | loop var iterable body otherwise => exact holds_loop hs var iterable body otherwise
    | assign target value =>
      refine (keepsVar name).tempo.holds_doing ((keepsVar name).tempo.holds_bind (fun s => ?_) fun v => ?_)
      · exact hs.eval false value env s
      · exact holds_assign hs target v hn
    | _ => exact (keepsVar name).holds_node hs rfl rfl

/-- What is rendered or evaluated sparingly keeps the variable: by induction on how deep the code is nested. -/
theorem stays_sparing (name : String) (depth : Nat) :
    (Interpreter.sparing name depth).Stays (RenderState.KeepsVar name) := by
  induction depth with
  | zero => exact ⟨fun _ _ _ s => (keepsVar name).refl s, fun _ _ s => (keepsVar name).refl s⟩
  | succ depth ih =>
    constructor
    · exact (keepsVar name).evaluate ih
    · intro b env
      induction b with
      | nil => exact fun s => (keepsVar name).refl s
      | cons n b rest =>
        have later : (keepsVar name).tempo.Holds (fun _ => env) fun _ =>
          (Interpreter.sparing name depth).sparingBlock (.ofDepth depth) name b := rest
        have block := (keepsVar name).tempo.holds_bind (holds_sparingNode ih depth n)
          ((keepsVar name).tempo.holds_before later)
        exact (keepsVar name).tempo.holds_congr block fun _ => Interpreter.sparingBlock_cons ..

end Conserved

/-! ### Giving up is all that the sparing interpreter does otherwise -/

section

open Interpreter (besideSparing)

variable {name : String} {env : RenderEnv}

section

variable {depth : Nat}
  (parts : ∀ env, (∀ e, (agreement True).lockstep.Evaluates (besideSparing name depth) (fun _ => env) e) ∧
    ∀ b, (agreement True).lockstep.Renders (besideSparing name depth) (fun _ => env) b)
include parts

/-- Parts that give up or do the same are enough for what is called out to. -/
lemma callees_besideSparing :
    (agreement True).lockstep.Callees (besideSparing name depth) fun _ => env where
  calling := by
    rintro _ _ d ⟨u, rfl⟩ - -
    exact ⟨fun q _ e _ => (parts _).1 e, (parts _).2 d.body⟩
  parsing := by
    rintro _ ⟨u, rfl⟩ t - -
    exact (parts _).2 t.root
  evaluating := by
    rintro _ ⟨u, rfl⟩ - t -
    exact (parts _).2 t.root

/-- A node whose macro or parsed template is left to the plain interpreter on both sides. -/
lemma agrees_sparingBy (n : Node) :
    (agreement True).lockstep.Holds (fun _ => env) fun i =>
      match n.kind with
      | .macroCall c => (besideSparing name depth i).macroCallBy c n.position fun unit d args content =>
        (Interpreter.ofDepth depth).invoke unit d n.position args content
      | .parse arg =>
        (besideSparing name depth i).parseBy arg n.position ((Interpreter.ofDepth depth).parsed n.position)
      | _ => (besideSparing name depth i).node n := by
  have around : (agreement True).lockstep.Around fun _ => env := ⟨env, rfl⟩
  obtain ⟨values, blocks⟩ := parts env
  obtain ⟨kind, p⟩ := n
  cases kind with
  | macroCall c =>
    refine Lockstep.holds_macroCallBy _ around (fun arg _ => values arg.value) (fun b _ => blocks b) p ?_
    rintro _ d ⟨u, rfl⟩ - args content s
    exact .inl rfl
  | parse arg => exact Lockstep.holds_parseBy _ around (values arg) p fun _ resource s => .inl rfl
  | _ => exact Lockstep.holds_node _ around (callees_besideSparing parts) (fun e _ => values e) fun b _ => blocks b

lemma agrees_node (n : Node) :
    (agreement True).lockstep.Holds (fun _ => env) fun
      | false => (Interpreter.sparing name depth).sparingNode (.ofDepth depth) name n
      | true => (Interpreter.ofDepth depth).node n := by
  cases hn : n.kind.sets name with
  | true =>
    intro s
    refine .inr ⟨trivial, ?_⟩
    dsimp only
    unfold Interpreter.sparingNode
    rw [hn]
    trivial
  | false =>
    refine Lockstep.holds_congr _ (agrees_sparingBy parts n) fun i => ?_
    cases i with
    | false => exact Interpreter.sparingNode_eq _ _ hn
    | true =>
      obtain ⟨kind, p⟩ := n
      cases kind <;> rfl

end

/-- The sparing interpreter does what the other one does, or gives up: by induction on how deep the code is nested. -/
theorem agrees_sparing (name : String) (depth : Nat) (env : RenderEnv) :
    (∀ e, (agreement True).lockstep.Evaluates (besideSparing name depth) (fun _ => env) e) ∧
      ∀ b, (agreement True).lockstep.Renders (besideSparing name depth) (fun _ => env) b := by
  induction depth generalizing env with
  | zero => exact ⟨fun _ _ _ => .inr ⟨trivial, trivial⟩, fun _ _ => .inr ⟨trivial, trivial⟩⟩
  | succ depth ih =>
    have around : (agreement True).lockstep.Around fun _ => env := ⟨env, rfl⟩
    constructor
    · intro e lenient
      have value : (agreement True).lockstep.Holds (fun _ => env) fun i =>
          (besideSparing name depth i).evaluate lenient e :=
        Lockstep.holds_evaluate _ around (fun x _ => (ih env).1 x) (fun b _ => (ih env).2 b) lenient
      exact Lockstep.holds_congr _ value fun i => by cases i <;> rfl
    · intro b
      induction b with
      | nil => exact fun s => .inl rfl
      | cons n b rest =>
        refine Lockstep.holds_congr _ (Lockstep.holds_bind _ (agrees_node ih n) (Lockstep.holds_before _ rest))
          fun i => ?_
        cases i with
        | false => exact Interpreter.sparingBlock_cons ..
        | true => exact Interpreter.block_cons ..

end

namespace Interpreter

variable {name : String} {depth : Nat} {e : Expr} {env : RenderEnv} {s : RenderState}

lemma Spares.value_eq (h : Spares name depth e env s) :
    (sparing name depth).value e env s = (ofDepth depth).value e env s := by
  rcases (agrees_sparing name depth env).1 e false s with same | ⟨-, given_up⟩
  · exact same
  · exact absurd given_up h

/-- An expression that runs no `#set` on a variable of the innermost frame leaves it as it is. -/
theorem Spares.keepsVar (h : Spares name depth e env s) :
    s.KeepsVar name (Outcome.state ((ofDepth depth).value e env s)) := by
  rw [← h.value_eq]
  exact (Conserved.stays_sparing name depth).eval false e env s

end Interpreter

end Stencil
