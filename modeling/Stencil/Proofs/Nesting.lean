import Stencil.Engine
import Stencil.Proofs.Lockstep.Node
import Stencil.Proofs.Lockstep.Uniform

/-!
# How deep code is nested

An interpreter may do something else in place of the blocks that it meets in some surroundings. Where a
render never meets those, that makes no difference. Main statements: `Engine.keepsOff_limits`, macro calls
and parsed templates are never nested deeper than the settings allow; `Engine.renderWithin_of_le`, a render
that is followed deep enough stays what it is when it is followed deeper.
-/

namespace Stencil

def CodeUnit.isEvaluated : CodeUnit → Bool
  | evaluated _ => true
  | _ => false

namespace RenderEnv

/-- The number of texts that are being evaluated. -/
def evaluations (env : RenderEnv) : Nat := env.templates.countP (·.unit.isEvaluated)

/-- The number of templates that are being rendered and are no evaluated texts. -/
def parsed (env : RenderEnv) : Nat := env.templates.countP (!·.unit.isEvaluated)

lemma parsed_le_length (env : RenderEnv) : env.parsed ≤ env.templates.length := List.countP_le_length

lemma evaluations_opening (env : RenderEnv) (t : Template) :
    (env.opening t).evaluations = env.evaluations + if t.unit.isEvaluated then 1 else 0 :=
  List.countP_cons

lemma parsed_opening (env : RenderEnv) (t : Template) :
    (env.opening t).parsed = env.parsed + if !t.unit.isEvaluated then 1 else 0 :=
  List.countP_cons

/-- More macro calls or more parsed templates than the settings allow. -/
def beyondLimits (env : RenderEnv) : Bool :=
  env.settings.macroMaxDepth < env.calls.length || env.settings.parseMaxDepth < env.parsed

/-- More evaluated texts than a given number. -/
def beyondEvaluations (n : Nat) (env : RenderEnv) : Bool := n < env.evaluations

end RenderEnv

/-- The interpreter that follows code nested at most `depth` deep and does something else in place of every
block in far surroundings. -/
def Interpreter.cutting (far : RenderEnv → Bool) (other : Block → Render Flow) : Nat → Interpreter
  | 0 => .ofDepth 0
  | depth + 1 =>
    { eval := fun lenient e => (cutting far other depth).evaluate lenient e
      render := fun b env => if far env then other b env else (cutting far other depth).block b env }

/-- Outcomes of which the second is the first, unless the first is exempt. -/
def agreement (exempt : Prop) : Uniform Bool where
  Good r := r false = r true ∨ exempt ∧ (r false).Exhausted
  good_ok _ _ := .inl rfl
  good_failed _ _ := .inl rfl
  good_next := by
    intro α β r f hr hf
    rcases hr with hr | ⟨hx, hr⟩
    · dsimp only
      rw [← hr]
      cases r false with
      | ok x s => exact hf x s
      | error h s => exact .inl rfl
    · exact .inr ⟨hx, Outcome.Exhausted.next hr _⟩
  good_leaving := by
    intro α r leave hr
    rcases hr with hr | ⟨hx, hr⟩
    · exact .inl (congrArg (Outcome.leaving · leave) hr)
    · exact .inr ⟨hx, (Outcome.exhausted_leaving _ _).mpr hr⟩
  good_telling := by
    intro α r f hr
    rcases hr with hr | ⟨hx, hr⟩
    · exact .inl (congrArg (Outcome.telling · f) hr)
    · exact .inr ⟨hx, (Outcome.exhausted_telling _ _).mpr hr⟩

/-- Surroundings that a render does not leave within the given depth, none of them far. -/
structure Near (far : RenderEnv → Bool) (near : Nat → RenderEnv → Prop) : Prop where
  clear : ∀ {depth env}, near depth env → far env = false
  inside : ∀ {depth env}, near (depth + 1) env → near depth env
  calling : ∀ {depth env}, near (depth + 1) env → env.calls.length < env.settings.macroMaxDepth →
    ∀ name u, near depth (env.calling name u)
  parsing : ∀ {depth env}, near (depth + 1) env → env.templates.length < env.settings.parseMaxDepth →
    ∀ t, near depth (env.opening t)
  evaluating : ∀ {depth env}, near (depth + 1) env → ∀ (t : Template) n,
    near depth (env.opening (t.inUnit (.evaluated n)))

section

variable {far : RenderEnv → Bool} {other : Block → Render Flow} {near : Nat → RenderEnv → Prop}
  {exempt : Prop}

/-- An interpreter of some depth beside a cutting one. -/
def beside (far : RenderEnv → Bool) (other : Block → Render Flow) (depth depth' : Nat) :
    Bool → Interpreter
  | false => .ofDepth depth
  | true => .cutting far other depth'

/-- A cutting interpreter agrees with the one that follows every code, as long as nothing far is met: on
all outcomes at the same depth, and on those that are not exhausted at every greater depth. -/
lemma agrees (hn : Near far near) {depth depth' : Nat} (hd : exempt ∧ depth ≤ depth' ∨ depth = depth')
    {env : RenderEnv} (he : near depth env) :
    (∀ e, (agreement exempt).lockstep.Evaluates (beside far other depth depth') (fun _ => env) e) ∧
      ∀ b, (agreement exempt).lockstep.Renders (beside far other depth depth') (fun _ => env) b := by
  induction depth generalizing depth' env with
  | zero =>
    rcases hd with ⟨hx, -⟩ | rfl
    · exact ⟨fun e lenient s => .inr ⟨hx, trivial⟩, fun b s => .inr ⟨hx, trivial⟩⟩
    · exact ⟨fun e lenient s => .inl rfl, fun b s => .inl rfl⟩
  | succ depth ih =>
    obtain ⟨depth', rfl⟩ : ∃ k, depth' = k + 1 := Nat.exists_eq_add_one.mpr (by omega)
    have hd : exempt ∧ depth ≤ depth' ∨ depth = depth' := by
      rcases hd with ⟨hx, hd⟩ | hd
      · exact .inl ⟨hx, by omega⟩
      · exact .inr (by omega)
    -- Both interpreters run the same code here; what they call is near again, one level deeper.
    have around : (agreement exempt).lockstep.Around fun _ => env := ⟨env, rfl⟩
    have callees : (agreement exempt).lockstep.Callees (beside far other depth depth') fun _ => env :=
      { calling := by
          rintro name _ d ⟨u, rfl⟩ - hc
          have inner := ih hd (hn.calling he (hc false) d.name u)
          exact ⟨fun q _ e _ => inner.1 e, inner.2 d.body⟩
        parsing := by
          rintro _ ⟨u, rfl⟩ t - hp
          exact (ih hd (hn.parsing he (hp false) (t.inUnit u))).2 t.root
        evaluating := by
          rintro _ ⟨u, rfl⟩ hu t -
          obtain ⟨n, rfl⟩ := hu false
          exact (ih hd (hn.evaluating he t n)).2 t.root }
    have parts := ih hd (hn.inside he)
    have clear := hn.clear he
    constructor
    · intro e lenient
      have value : (agreement exempt).lockstep.Holds (fun _ => env) fun i =>
          (beside far other depth depth' i).evaluate lenient e :=
        Lockstep.holds_evaluate _ around (fun x _ => parts.1 x) (fun b _ => parts.2 b) lenient
      exact Lockstep.holds_congr _ value fun i => by cases i <;> rfl
    · intro b s
      have block : (agreement exempt).lockstep.Holds (fun _ => env) fun i =>
          (beside far other depth depth' i).block b :=
        Lockstep.holds_block _ fun n _ =>
          Lockstep.holds_node _ around callees (fun e _ => parts.1 e) fun b _ => parts.2 b
      -- Where it is near, the cutting interpreter cuts nothing.
      have there : (beside far other (depth + 1) (depth' + 1) true).render b env s =
          (Interpreter.cutting far other depth').block b env s := by
        show (if far env then other b env else (Interpreter.cutting far other depth').block b env) s = _
        rw [clear]
        rfl
      show (agreement exempt).Good fun i => (beside far other (depth + 1) (depth' + 1) i).render b env s
      rcases block s with hb | hb
      · exact .inl (hb.trans there.symm)
      · exact .inr hb

end

/-- Settings that can be honoured let at least one template be open. -/
lemma Settings.parseMaxDepth_pos {c : Settings} (hv : c.validate = .ok ()) : 0 < c.parseMaxDepth := by
  have clear : c.fault? = none := by
    unfold validate at hv
    cases hf : c.fault? with
    | none => rfl
    | some f =>
      rw [hf] at hv
      cases hv
  apply Nat.pos_of_ne_zero
  intro zero
  unfold fault? at clear
  rw [if_pos zero] at clear
  split at clear
  · cases clear
  · split at clear <;> cases clear

/-! ### Renders -/

namespace Engine

variable (e : Engine) (h : Host) (t : Template) (σ : Store) (c : Context) (sink : Sink)

def renderBy (self : Interpreter) : Rendering :=
  match self.outermost t (e.env h) (e.start σ c sink) with
  | .ok () s => e.finish none s
  | .error halt s => e.finish (some halt) s

lemma renderBy_ofDepth (depth : Nat) :
    e.renderBy h t σ c sink (.ofDepth depth) = e.renderWithin depth h t σ c sink := rfl

/-- The render never meets a block in far surroundings: what would be done there makes no difference,
however deep the code is followed. -/
def KeepsOff (far : RenderEnv → Bool) : Prop :=
  ∀ other depth, e.renderBy h t σ c sink (.cutting far other depth) = e.renderWithin depth h t σ c sink

/-- The render comes to its end, by success or by an error, and following the code deeper changes
nothing. -/
def Ends : Prop :=
  ∃ depth r, r.halt ≠ some .exhausted ∧ ∀ depth' ≥ depth, e.renderWithin depth' h t σ c sink = r

variable {e h t σ c sink}

/-- A render is cut short exactly when its outermost step is. -/
lemma halt_renderBy (self : Interpreter) :
    (e.renderBy h t σ c sink self).halt = some .exhausted ↔
      Outcome.Exhausted (self.outermost t (e.env h) (e.start σ c sink)) := by
  unfold renderBy
  cases self.outermost t (e.env h) (e.start σ c sink) with
  | ok x s => exact ⟨nofun, nofun⟩
  | error halt s =>
    cases halt with
    | failed f => exact ⟨nofun, nofun⟩
    | exhausted => exact ⟨fun _ => trivial, fun _ => rfl⟩

/-- Interpreters that agree on the root of a template render it alike. -/
lemma renderBy_congr {self : Bool → Interpreter} {exempt : Prop}
    (hr : (agreement exempt).lockstep.Renders self (fun _ => (e.env h).opening t) t.root)
    (hx : exempt → (e.renderBy h t σ c sink (self false)).halt ≠ some .exhausted) :
    e.renderBy h t σ c sink (self true) = e.renderBy h t σ c sink (self false) := by
  have outcome := (agreement exempt).lockstep.holds_outermost hr (e.start σ c sink)
  rcases outcome with same | ⟨hexempt, exhausted⟩
  · unfold renderBy
    simp only [Template.inUnit_self] at same
    rw [← same]
  · exact absurd ((halt_renderBy _).mpr exhausted) (hx hexempt)

/-- A render that never leaves near surroundings keeps off the far ones. -/
lemma keepsOff_of_near {far : RenderEnv → Bool} {near : Nat → RenderEnv → Prop} (hn : Near far near)
    {depth : Nat} (hs : near depth ((e.env h).opening t)) (other : Block → Render Flow) :
    e.renderBy h t σ c sink (.cutting far other depth) = e.renderWithin depth h t σ c sink := by
  have root := (@agrees far other near False hn depth depth (.inr rfl) _ hs).2 t.root
  exact renderBy_congr root nofun

lemma cutting_nowhere (other : Block → Render Flow) (depth : Nat) :
    Interpreter.cutting (fun _ => false) other depth = .ofDepth depth := by
  induction depth with
  | zero => rfl
  | succ depth ih =>
    unfold Interpreter.cutting Interpreter.ofDepth
    rw [ih]
    rfl

/-- A render that is followed deep enough stays what it is when it is followed deeper. -/
theorem renderWithin_of_le {depth depth' : Nat} (hle : depth ≤ depth')
    (hx : (e.renderWithin depth h t σ c sink).halt ≠ some .exhausted) :
    e.renderWithin depth' h t σ c sink = e.renderWithin depth h t σ c sink := by
  -- Nothing is far, so the interpreter that cuts is the deeper one of the two.
  have nowhere : Near (fun _ => false) fun _ _ => True :=
    { clear := fun _ => rfl
      inside := id
      calling := fun _ _ _ _ => trivial
      parsing := fun _ _ _ => trivial
      evaluating := fun _ _ _ => trivial }
  have other : Block → Render Flow := fun _ => pure .next
  have hd : True ∧ depth ≤ depth' ∨ depth = depth' := .inl ⟨trivial, hle⟩
  have root := (@agrees _ other _ True nowhere _ _ hd ((e.env h).opening t) trivial).2 t.root
  have same := renderBy_congr root fun _ => hx
  rw [← renderBy_ofDepth e h t σ c sink depth', ← cutting_nowhere other]
  exact same

/-- A render ends exactly when it can be followed deep enough. -/
theorem ends_iff :
    e.Ends h t σ c sink ↔ ∃ depth, (e.renderWithin depth h t σ c sink).halt ≠ some .exhausted := by
  constructor
  · rintro ⟨depth, r, hr, hd⟩
    exact ⟨depth, by rwa [hd depth (Nat.le_refl _)]⟩
  · rintro ⟨depth, hx⟩
    exact ⟨depth, _, hx, fun depth' hle => renderWithin_of_le hle hx⟩

/-- The checks of macro calls and of parsed templates keep both within their limits. -/
lemma near_limits : Near RenderEnv.beyondLimits fun _ env =>
    env.calls.length ≤ env.settings.macroMaxDepth ∧ env.parsed ≤ env.settings.parseMaxDepth where
  clear := by
    rintro _ env ⟨hc, hp⟩
    simp only [RenderEnv.beyondLimits, Bool.or_eq_false_iff, decide_eq_false_iff_not]
    omega
  inside he := he
  calling he hc name u := ⟨hc, he.2⟩
  parsing := by
    intro _ env he hp t
    have bound := env.parsed_le_length
    refine ⟨he.1, ?_⟩
    rw [RenderEnv.parsed_opening]
    show _ ≤ env.settings.parseMaxDepth
    split <;> omega
  evaluating := by
    intro _ env he t n
    refine ⟨he.1, ?_⟩
    rw [RenderEnv.parsed_opening]
    exact he.2

/-- Whatever the templates do, macro calls and parsed templates are not nested deeper than the settings
allow. -/
theorem keepsOff_limits (hv : e.settings.validate = .ok ()) :
    e.KeepsOff h t σ c sink RenderEnv.beyondLimits := by
  intro other depth
  refine keepsOff_of_near near_limits ⟨Nat.zero_le _, ?_⟩ other
  have positive := Settings.parseMaxDepth_pos hv
  have few : ((e.env h).opening t).parsed ≤ 1 := by
    rw [RenderEnv.parsed_opening]
    show 0 + _ ≤ 1
    split <;> omega
  exact Nat.le_trans few positive

/-- A run of some depth meets at most as many evaluated texts. -/
lemma near_evaluations (n : Nat) : Near (RenderEnv.beyondEvaluations n) fun depth env =>
    env.evaluations + depth ≤ n where
  clear := by
    intro depth env he
    simp only [RenderEnv.beyondEvaluations, decide_eq_false_iff_not]
    omega
  inside he := by omega
  calling := by
    intro depth env he _ name u
    show env.evaluations + depth ≤ n
    omega
  parsing := by
    intro depth env he _ t
    rw [RenderEnv.evaluations_opening]
    split <;> omega
  evaluating := by
    intro depth env he t k
    rw [RenderEnv.evaluations_opening]
    split <;> omega

/-- A render that ends has only so many evaluated texts open at once. -/
theorem Ends.keepsOff (he : e.Ends h t σ c sink) :
    ∃ n, e.KeepsOff h t σ c sink (RenderEnv.beyondEvaluations n) := by
  obtain ⟨depth, r, hr, hd⟩ := he
  have start (k : Nat) (hk : k ≤ depth) : ((e.env h).opening t).evaluations + k ≤ depth + 1 := by
    rw [RenderEnv.evaluations_opening]
    show 0 + _ + k ≤ depth + 1
    split <;> omega
  refine ⟨depth + 1, fun other depth' => ?_⟩
  -- Up to the depth at which the render has ended, too few levels are left for so many texts; beyond it,
  -- cutting or not, nothing new happens.
  rcases Nat.le_total depth' depth with hle | hge
  · exact keepsOff_of_near (near_evaluations _) (start depth' hle) other
  · have root := (@agrees _ other _ True (near_evaluations (depth + 1)) depth depth' (.inl ⟨trivial, hge⟩)
      _ (start depth (Nat.le_refl _))).2 t.root
    have ended : e.renderWithin depth h t σ c sink = r := hd depth (Nat.le_refl _)
    have finished : (e.renderWithin depth h t σ c sink).halt ≠ some .exhausted := ended ▸ hr
    have same := renderBy_congr root fun _ => finished
    exact same.trans (ended.trans (hd depth' hge).symm)

end Engine

end Stencil
