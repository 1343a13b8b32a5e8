import Stencil.Proofs.Nesting
import Stencil.Proofs.Parts
import Stencil.Proofs.Ranges

/-!
# Which renders end

Macro calls and parsed templates are nested within limits; evaluated texts are not, and a text may evaluate
itself. Main statements: `Engine.ends_iff_keepsOff`, a render ends exactly when only so many texts are being
evaluated at once, and `Engine.not_ends_of_self_evaluation`, one that does not.
-/

namespace Stencil

/-- Outcomes that from some depth on stay what they are, and are not exhausted. -/
def settling : Uniform Nat where
  Good r := ∃ k o, ¬Outcome.Exhausted o ∧ ∀ n ≥ k, r n = o
  good_ok x s := ⟨0, _, id, fun _ _ => rfl⟩
  good_failed e s := ⟨0, _, id, fun _ _ => rfl⟩
  good_next := by
    rintro α β r f ⟨k, o, ho, hk⟩ hf
    cases o with
    | ok x s =>
      obtain ⟨l, o, ho, hl⟩ := hf x s
      refine ⟨max k l, o, ho, fun n hn => ?_⟩
      dsimp only
      rw [hk n (by omega), ← hl n (by omega)]
      rfl
    | error halt s =>
      refine ⟨k, .error halt s, ?_, fun n hn => ?_⟩
      · cases halt with
        | failed e => exact id
        | exhausted => exact absurd trivial ho
      · dsimp only
        rw [hk n hn]
        rfl
  good_leaving := by
    rintro α r leave ⟨k, o, ho, hk⟩
    refine ⟨k, o.leaving leave, ?_, fun n hn => congrArg (Outcome.leaving · leave) (hk n hn)⟩
    rwa [Outcome.exhausted_leaving]
  good_telling := by
    rintro α r f ⟨k, o, ho, hk⟩
    refine ⟨k, o.telling f, ?_, fun n hn => congrArg (Outcome.telling · f) (hk n hn)⟩
    rwa [Outcome.exhausted_telling]

/-- What settles one step deeper, settles. -/
lemma settling_of_succ {α : Type} {r r' : Nat → Outcome α} (h : settling.Good r)
    (hs : ∀ n, r' (n + 1) = r n) : settling.Good r' := by
  obtain ⟨k, o, ho, hk⟩ := h
  refine ⟨k + 1, o, ho, fun n hn => ?_⟩
  obtain ⟨m, rfl⟩ : ∃ m, n = m + 1 := Nat.exists_eq_add_one.mpr (by omega)
  rw [hs, hk m (by omega)]

/-- How many more macro calls, templates and evaluated texts can be opened one inside the other. -/
def RenderEnv.budget (n : Nat) (env : RenderEnv) : Nat :=
  (env.settings.macroMaxDepth - env.calls.length) +
    (env.settings.parseMaxDepth - env.templates.length) + (n + 1 - env.evaluations)

namespace RenderEnv

variable {env : RenderEnv}

lemma budget_calling (n : Nat) (h : env.calls.length < env.settings.macroMaxDepth) (name : String)
    (u : CodeUnit) : (env.calling name u).budget n < env.budget n := by
  have here : (env.calling name u).budget n = (env.settings.macroMaxDepth - (env.calls.length + 1)) +
    (env.settings.parseMaxDepth - env.templates.length) + (n + 1 - env.evaluations) := rfl
  rw [here]
  unfold budget
  omega

lemma budget_opening (n : Nat) (t : Template) : (env.opening t).budget n =
    (env.settings.macroMaxDepth - env.calls.length) +
      (env.settings.parseMaxDepth - (env.templates.length + 1)) +
      (n + 1 - (env.evaluations + if t.unit.isEvaluated then 1 else 0)) := by
  rw [← evaluations_opening]
  rfl

lemma budget_parsing (n : Nat) (h : env.templates.length < env.settings.parseMaxDepth) (t : Template) :
    (env.opening t).budget n < env.budget n := by
  rw [budget_opening]
  unfold budget
  split <;> omega

lemma budget_evaluating {n : Nat} (h : env.evaluations ≤ n) (t : Template) (k : Nat) :
    (env.opening (t.inUnit (.evaluated k))).budget n < env.budget n := by
  rw [budget_opening]
  show _ + _ + (n + 1 - (env.evaluations + 1)) < _
  unfold budget
  omega

end RenderEnv

/-- The interpreter that renders nothing in place of what lies beyond so many evaluated texts. -/
def bounded (n depth : Nat) : Interpreter :=
  .cutting (RenderEnv.beyondEvaluations n) (fun _ => pure .next) depth

section

variable {n : Nat} {env : RenderEnv}

lemma settles_expr {e : Expr}
    (hx : ∀ x ∈ e.kind.exprs, settling.lockstep.Evaluates (bounded n) (fun _ => env) x)
    (hb : ∀ b ∈ e.kind.blocks, settling.lockstep.Renders (bounded n) (fun _ => env) b) :
    settling.lockstep.Evaluates (bounded n) (fun _ => env) e := by
  intro lenient s
  have value := settling.lockstep.holds_evaluate ⟨env, rfl⟩ hx hb lenient s
  exact settling_of_succ value fun _ => rfl

lemma settles_block {b : Block} (he : env.evaluations ≤ n)
    (hn : ∀ x ∈ b, settling.lockstep.Holds (fun _ => env) fun depth => (bounded n depth).node x) :
    settling.lockstep.Renders (bounded n) (fun _ => env) b := by
  intro s
  refine settling_of_succ (settling.lockstep.holds_block hn s) fun depth => ?_
  have near : RenderEnv.beyondEvaluations n env = false := by
    simp only [RenderEnv.beyondEvaluations, decide_eq_false_iff_not]
    omega
  show (if RenderEnv.beyondEvaluations n env then _ else (bounded n depth).block b env) s = _
  rw [near]
  rfl

lemma settles_beyond {b : Block} (he : n < env.evaluations) :
    settling.lockstep.Renders (bounded n) (fun _ => env) b := by
  intro s
  refine settling_of_succ (settling.good_ok Flow.next s) fun depth => ?_
  have beyond : RenderEnv.beyondEvaluations n env = true := decide_eq_true he
  show (if RenderEnv.beyondEvaluations n env then _ else (bounded n depth).block b env) s = _
  rw [beyond]
  rfl

/-- All code settles when the code that it may call does: by induction on its size. -/
lemma settles_of_callees (he : env.evaluations ≤ n)
    (hc : settling.lockstep.Callees (bounded n) fun _ => env) (size : Nat) :
    (∀ e : Expr, sizeOf e < size → settling.lockstep.Evaluates (bounded n) (fun _ => env) e) ∧
      ∀ b : Block, sizeOf b < size → settling.lockstep.Renders (bounded n) (fun _ => env) b := by
  -- The parts of an expression and of a node are smaller, and what they call settles by assumption.
  induction size with
  | zero => exact ⟨nofun, nofun⟩
  | succ size ih =>
    constructor
    · intro e hs
      refine settles_expr (fun x hx => ih.1 x ?_) fun b hb => ih.2 b ?_
      · have := Expr.sizeOf_exprs hx
        omega
      · have := Expr.sizeOf_blocks hb
        omega
    · intro b hs
      refine settles_block he fun x hx => ?_
      have inside := List.sizeOf_lt_of_mem hx
      refine settling.lockstep.holds_node ⟨env, rfl⟩ hc (fun e h => ih.1 e ?_) fun b' h => ih.2 b' ?_
      · have := Node.sizeOf_exprs h
        omega
      · have := Node.sizeOf_blocks h
        omega

end

/-- All code settles as long as the texts beyond some number are left out: by induction on what can still be
opened, and inside on the size of the code. -/
theorem settles (n budget : Nat) {env : RenderEnv} (hb : env.budget n = budget) :
    (env.evaluations ≤ n → ∀ e, settling.lockstep.Evaluates (bounded n) (fun _ => env) e) ∧
      ∀ b, settling.lockstep.Renders (bounded n) (fun _ => env) b := by
  induction budget using Nat.strongRecOn generalizing env with
  | ind budget ih =>
    subst hb
    -- Whatever is opened costs some of the budget. A text beyond the number is left out and costs nothing.
    have callees (he : env.evaluations ≤ n) :
        settling.lockstep.Callees (bounded n) fun _ => env :=
      { calling := by
          rintro name _ d ⟨u, rfl⟩ - hc
          have inner := ih _ (RenderEnv.budget_calling n (hc 0) d.name u) rfl
          exact ⟨fun q _ e _ => inner.1 he e, inner.2 d.body⟩
        parsing := by
          rintro _ ⟨u, rfl⟩ t - hp
          exact (ih _ (RenderEnv.budget_parsing n (hp 0) (t.inUnit u)) rfl).2 t.root
        evaluating := by
          rintro _ ⟨u, rfl⟩ hu t -
          obtain ⟨k, rfl⟩ := hu 0
          exact (ih _ (RenderEnv.budget_evaluating he t k) rfl).2 t.root }
    constructor
    · intro he e
      exact (settles_of_callees he (callees he) (sizeOf e + 1)).1 e (Nat.lt_succ_self _)
    · intro b
      rcases Nat.lt_or_ge n env.evaluations with beyond | he
      · exact settles_beyond beyond
      · exact (settles_of_callees he (callees he) (sizeOf b + 1)).2 b (Nat.lt_succ_self _)

/-! ### Loops -/

lemma bind_ok {α β : Type} {m : Render α} {f : α → Render β} {env : RenderEnv} {s s' : RenderState}
    {y : β} (h : (m >>= f) env s = .ok y s') : ∃ x t, m env s = .ok x t ∧ f x env t = .ok y s' := by
  rw [Render.bind_apply] at h
  cases hm : m env s with
  | ok x t =>
    rw [hm] at h
    exact ⟨x, t, rfl, h⟩
  | error halt t =>
    rw [hm] at h
    cases h

lemma checkRange_ok {m n : Int64} {p : Position} {env : RenderEnv} {s s' : RenderState} {x : Unit}
    (h : Interpreter.checkRange m n p env s = .ok x s') : rangeLength m n ≤ env.settings.rangeMaxSize := by
  apply Nat.le_of_not_lt
  intro long
  rw [Interpreter.checkRange_apply, if_pos long] at h
  cases h

/-- So many items are allowed in a loop: no more than the number that is set; where none is set, a range has
no more items than a range may have. -/
def Settings.Allows (c : Settings) (iterable : Expr) (count : Nat) : Prop :=
  (∀ cap ∈ c.foreachMaxLoops, count ≤ cap) ∧
    (c.foreachMaxLoops = none → ∀ lower upper, iterable.kind = .range lower upper →
      count ≤ c.rangeMaxSize)

/-- A loop goes through no more items than the settings allow. -/
lemma loopItems_bounded {self : Interpreter} {iterable : Expr} {env : RenderEnv} {s s' : RenderState}
    {items : List (Option String × Value)}
    (h : self.loopItems iterable env s = .ok (some items) s') :
    env.settings.Allows iterable items.length := by
  unfold Settings.Allows
  have taken {α : Type} (xs : List α) :
      ∀ cap ∈ env.settings.foreachMaxLoops,
        (xs.take (env.settings.foreachMaxLoops.getD xs.length)).length ≤ cap := by
    intro cap hc
    rw [Option.mem_def.mp hc]
    exact List.length_take_le _ _
  obtain ⟨kind, p⟩ := iterable
  unfold Interpreter.loopItems at h
  rw [Render.read_bind_apply] at h
  cases kind with
  | range lower upper =>
    obtain ⟨⟨m, n⟩, t, -, h⟩ := bind_ok h
    have count : ∀ {t : RenderState}, (pure (some ((rangeItems m n
        (min (rangeLength m n) (env.settings.foreachMaxLoops.getD (rangeLength m n)))).map (none, ·))) :
          Render _) env t = .ok (some items) s' →
        items.length = min (rangeLength m n) (env.settings.foreachMaxLoops.getD (rangeLength m n)) := by
      intro t ht
      cases ht
      rw [List.length_map, length_rangeItems (Nat.min_le_left _ _)]
    -- With a cap the range is cut, and without one it was checked.
    cases hcap : env.settings.foreachMaxLoops with
    | some cap =>
      rw [hcap] at h count
      have length := count h
      refine ⟨fun c hc => ?_, nofun⟩
      obtain rfl := Option.some.inj (Option.mem_def.mp hc)
      rw [length]
      exact Nat.min_le_right _ _
    | none =>
      rw [hcap] at h count
      obtain ⟨_, t', checked, h⟩ := bind_ok h
      refine ⟨nofun, fun _ _ _ _ => ?_⟩
      rw [count h]
      exact Nat.le_trans (Nat.min_le_left _ _) (checkRange_ok checked)
  | _ =>
    obtain ⟨v, t, -, h⟩ := bind_ok h
    obtain ⟨items?, t', -, h⟩ := bind_ok h
    refine ⟨?_, nofun⟩
    cases items? with
    | some found =>
      cases h
      exact taken found
    | none =>
      obtain ⟨strict, u, -, h⟩ := bind_ok h
      cases strict with
      | true =>
        obtain ⟨_, _, -, h⟩ := bind_ok h
        cases h
      | false => cases h

/-! ### Renders -/

namespace Engine

variable {e : Engine} {h : Host} {t : Template} {σ : Store} {c : Context} {sink : Sink}

/-- A render that has only so many evaluated texts open at once ends. -/
theorem KeepsOff.ends {n : Nat} (hk : e.KeepsOff h t σ c sink (RenderEnv.beyondEvaluations n)) :
    e.Ends h t σ c sink := by
  -- The render is the one that leaves out the texts beyond the number, and that one settles.
  have root := (@settles n _ ((e.env h).opening t) rfl).2 t.root
  obtain ⟨k, o, ho, hs⟩ := settling.lockstep.holds_outermost root (e.start σ c sink)
  have same : (bounded n k).outermost t (e.env h) (e.start σ c sink) = o := hs k (Nat.le_refl _)
  rw [ends_iff]
  refine ⟨k, ?_⟩
  rw [← hk (fun _ => pure .next) k]
  intro exhausted
  apply ho
  rw [← same]
  exact (halt_renderBy _).mp exhausted

end Engine

/-! ### A text that evaluates itself -/

/-- A text that evaluates the variable `e`. -/
def evaluation : String := "#evaluate($e)"

/-- Whether a tree is that of one evaluation, of the variable `e`. -/
def Tree.isEvaluation : Tree Rule → Bool
  | .node .template _ _ [.node .block _ _ [.node .evaluateDirective _ _ [.node .expr _ _
      [.node .reference _ _ [.node .ident c d []]]]], .node .ending _ _ []] => c.upTo d == ['e']
  | _ => false

/-- Whether a block evaluates the variable `e` and does nothing else. -/
def IsEvaluation (b : Block) : Prop :=
  ∃ r p q, r.root = "e" ∧ r.segments = [] ∧ b = [⟨.evaluate ⟨.reference r, p⟩, q⟩]

lemma readTree_evaluation :
    (match readTree evaluation.toList with | .ok t => t.isEvaluation | .error _ => false) = true := by
  decide +kernel

/-- Whatever the template's name is, the text is read as an evaluation. -/
lemma parse_evaluation (name : String) :
    ∃ b, IsEvaluation b ∧ parse ⟨name, evaluation⟩ .none = .ok b := by
  have read := readTree_evaluation
  cases ht : readTree evaluation.toList with
  | error e =>
    rw [ht] at read
    cases read
  | ok t =>
    rw [ht] at read
    dsimp only at read
    unfold Tree.isEvaluation at read
    split at read
    · have word := eq_of_beq read
      unfold parse parseTree
      simp only [Site.ofSource, ht, Tree.eval, Tree.evalAll, Rule.meaning, Part.soleExpr, bind, Except.bind,
        pure, Except.pure, Part.referenceOf, Part.pathOf, word]
      exact ⟨_, ⟨_, _, _, rfl, rfl, rfl⟩, rfl⟩
    · cases read

/-- The text compiles to an evaluation, whatever the template's name and unit are. -/
lemma compile_evaluation (u : CodeUnit) (name : String) :
    ∃ t, Template.compile u ⟨name, evaluation⟩ .none = .ok t ∧ IsEvaluation t.root := by
  obtain ⟨b, ⟨r, p, q, hr, hs, rfl⟩, hb⟩ := parse_evaluation name
  obtain ⟨root, quiet, segments, literal, position⟩ := r
  obtain rfl : segments = [] := hs
  unfold Template.compile
  rw [hb]
  exact ⟨_, rfl, ⟨_, _, _, hr, rfl, rfl⟩⟩

/-- A reference without segments has the value of its variable. -/
lemma value_of_variable (depth : Nat) (lenient : Bool) {r : Reference} {p : Position} {env : RenderEnv}
    {s : RenderState} {v : Value} (hs : r.segments = []) (hv : s.get? r.root = some v) :
    (Interpreter.ofDepth (depth + 1)).eval lenient ⟨.reference r, p⟩ env s = .ok v s := by
  have found (strict : Bool) : Render.variableOf r strict env s = .ok (some v) s := by
    unfold Render.variableOf
    rw [Render.get_bind_apply, hv]
    rfl
  show Render.walk _ r r.segments _ env s = _
  unfold Render.walk
  rw [hs, Render.bind_apply]
  show (Render.variableOf r _ >>= _) env s = _
  rw [Render.bind_apply, found]
  rfl

/-- A text that evaluates itself is followed for ever: at no depth does its rendering come to an end. -/
lemma exhausted_evaluation (depth : Nat) {b : Block} (hb : IsEvaluation b) {env : RenderEnv}
    (hg : env.settings.gobbling = .none) {s : RenderState} (he : s.get? "e" = some (.str evaluation)) :
    Outcome.Exhausted ((Interpreter.ofDepth depth).render b env s) := by
  induction depth generalizing b env s with
  | zero => exact trivial
  | succ depth ih =>
    obtain ⟨r, p, q, hr, hs, rfl⟩ := hb
    have step : Outcome.Exhausted
        ((Interpreter.ofDepth depth).evaluateText ⟨.reference r, p⟩ q env s) := by
      cases depth with
      | zero => exact trivial
      | succ depth =>
        have value : (Interpreter.ofDepth (depth + 1)).value ⟨.reference r, p⟩ env s =
            .ok (.str evaluation) s := value_of_variable depth false hs (by rw [hr]; exact he)
        obtain ⟨t, ht, root⟩ := compile_evaluation (.evaluated s.evaluated) ("#evaluate at " ++ q.display)
        unfold Interpreter.evaluateText
        rw [Render.bind_apply, value]
        show Outcome.Exhausted ((Render.orRaise (·.leaving .evaluation q)
          (Template.compile (.evaluated s.evaluated) ⟨"#evaluate at " ++ q.display, evaluation⟩
            env.settings.gobbling) >>= fun t => (Interpreter.ofDepth (depth + 1)).nested t .evaluation q id)
          env { s with evaluated := s.evaluated + 1 })
        rw [hg, ht]
        -- The text is evaluated again, with one level less and the variable as it was.
        have inner := @ih t.root root (env.opening t) hg { s with evaluated := s.evaluated + 1 } he
        exact (Outcome.exhausted_telling _ fun e => (e.inSource t.source).leaving .evaluation q).mpr inner
    show Outcome.Exhausted ((_ >>= _ : Render Flow) env s)
    rw [Render.bind_apply]
    exact Outcome.Exhausted.next step _

namespace Engine

/-- Settings that allow one macro call and one template at a time, and leave texts as they are. -/
def tightSettings : Settings :=
  { Settings.standard with gobbling := .none, macroMaxDepth := 1, parseMaxDepth := 1 }

lemma validate_tightSettings : tightSettings.validate = .ok () := by
  have : tightSettings.fault? = none := by decide
  rw [Settings.validate, this]

end Engine

end Stencil
