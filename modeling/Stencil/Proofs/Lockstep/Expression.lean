import Stencil.Proofs.Lockstep
import Stencil.Proofs.Parts
import Stencil.Proofs.Relocation

/-!
# Expressions in lockstep

Following a reference, assigning to it and evaluating an expression keep pace, as soon as their parts do, even where
the code stands somewhere else in each render. Main statements: `Tempo.holds_reference`, `Tempo.holds_evaluate` and
`Pace.holds_assign`.
-/

namespace Stencil

namespace Tempo

variable {ι α β : Type} (P : Tempo ι) {env : ι → RenderEnv} {self : ι → Interpreter} {g : ι → Relocation}

/-- What holds of evaluating an expression, in conditions and elsewhere, that is relocated in each render. -/
def Evaluates (self : ι → Interpreter) (g : ι → Relocation) (env : ι → RenderEnv) (e : Expr) : Prop :=
  ∀ lenient, P.Holds env fun i => (self i).eval lenient ((g i).expr e)

def Renders (self : ι → Interpreter) (g : ι → Relocation) (env : ι → RenderEnv) (b : Block) : Prop :=
  P.Holds env fun i => (self i).render ((g i).block b)

/-- Positions at which something may fail, in every render where it is relocated to. -/
def Sited (g : ι → Relocation) (ps : List Position) : Prop :=
  ∀ p ∈ ps, P.Place fun i => (g i).position p

variable {P}

lemma Evaluates.value {e : Expr} (h : P.Evaluates self g env e) :
    P.Holds env fun i => (self i).value ((g i).expr e) :=
  h false

lemma Sited.head {p : Position} {ps : List Position} (h : P.Sited g (p :: ps)) :
    P.Place fun i => (g i).position p :=
  h p (List.mem_cons_self ..)

lemma Sited.tail {p : Position} {ps : List Position} (h : P.Sited g (p :: ps)) : P.Sited g ps :=
  fun q hq => h q (List.mem_cons_of_mem _ hq)

lemma Sited.sublist {ps qs : List Position} (h : P.Sited g qs) (hs : ps ⊆ qs) : P.Sited g ps :=
  fun p hp => h p (hs hp)

variable (P)

/-- The values of expressions, one after the other. -/
lemma holds_values {eval : ι → Expr → Render β} {es : List Expr}
    (h : ∀ e ∈ es, P.Holds env fun i => eval i ((g i).expr e)) :
    P.Holds env fun i => ((g i).exprList es).mapM (eval i) := by
  induction es with
  | nil => exact P.holds_pure []
  | cons e es ih =>
    simp only [Relocation.exprList, List.mapM_cons]
    refine P.holds_bind (h e (List.mem_cons_self ..)) fun y => ?_
    refine P.holds_bind (ih fun z hz => h z (List.mem_cons_of_mem _ hz)) fun ys => ?_
    exact P.holds_pure _

/-! ### References -/

lemma holds_member (ha : P.Around env) (receiver : Value) {p : ι → Position} (hp : P.Place p) (kind : MemberUse)
    (name : String) (args : List Value) {strict : ι → Bool} (hs : P.Strict strict) :
    P.Holds env fun i => Render.member receiver (p i) kind name args (strict i) := by
  unfold Render.member
  refine P.holds_bind (P.holds_ask _) fun request => ?_
  refine P.holds_bind (P.holds_chosen ha hp request) fun answer => ?_
  cases answer with
  | error f => exact P.holds_fail_if _ hs hp (P.holds_pure _)
  | ok choice =>
    obtain ⟨types, ht⟩ := P.types ha
    refine P.holds_read ?_
    simp only [ht]
    refine P.holds_bind (P.holds_change (.invoke ⟨ha, ht⟩ choice receiver name args)) fun r => ?_
    cases r with
    | ok v => exact P.holds_pure v
    | error reason => exact P.holds_bind (P.holds_ask _) fun type => P.holds_fail _ hp

lemma holds_itemAt (receiver key : Value) {p : ι → Position} (hp : P.Place p) (item? : Option Value)
    {strict : ι → Bool} (hs : P.Strict strict) :
    P.Holds env fun i => Render.itemAt receiver key (p i) item? (strict i) := by
  unfold Render.itemAt
  cases item? with
  | some v => exact P.holds_pure v
  | none =>
    refine P.holds_congr (P.holds_refuse hs hp (P.holds_pure .null)
      (fun σ => (key.display σ, receiver.typeName σ))
      (fun x => .render (.indexOutOfBounds x.1 x.2))) fun i => ?_
    cases strict i <;> rfl

lemma holds_index (ha : P.Around env) (receiver key : Value) {p : ι → Position} (hp : P.Place p)
    {strict : ι → Bool} (hs : P.Strict strict) :
    P.Holds env fun i => Render.index receiver key (p i) (strict i) := by
  unfold Render.index
  split
  · exact P.holds_bind (P.holds_ask _) fun items => P.holds_itemAt _ _ hp _ hs
  · exact P.holds_itemAt _ _ hp _ hs
  · refine P.holds_bind (P.holds_ask _) fun entries => ?_
    exact P.holds_bind (P.holds_display _) fun key => P.holds_pure _
  · exact P.holds_member ha _ hp _ _ _ hs

lemma holds_variableOf {r : Reference} (hp : P.Place fun i => (g i).position r.position) {strict : ι → Bool}
    (hs : P.Strict strict) : P.Holds env fun i => Render.variableOf ((g i).reference r) (strict i) := by
  obtain ⟨root, quiet, segments, literal, p⟩ := r
  refine P.holds_get ?_ fun s => ?_
  · intro i s t h
    simp only [RenderState.get?_congr h]
  · cases hv : s.get? root with
    | some v =>
      refine P.holds_congr (P.holds_pure (some v)) fun i => ?_
      simp only [Relocation.reference, hv]
    | none =>
      refine P.holds_congr (P.holds_fail_if (.undefined (.variable root)) hs hp (P.holds_pure none)) fun i => ?_
      simp only [Relocation.reference, hv]

lemma holds_step (ha : P.Around env) {eval : ι → Expr → Render Value} (receiver : Value)
    {segment : Segment} (hp : P.Place fun i => (g i).position segment.position)
    (h : ∀ e ∈ segment.kind.exprs, P.Holds env fun i => eval i ((g i).expr e))
    {strict : ι → Bool} (hs : P.Strict strict) :
    P.Holds env fun i => Render.step (eval i) receiver ((g i).segment segment) (strict i) := by
  obtain ⟨kind, p⟩ := segment
  unfold Render.step
  cases kind with
  | property name => exact P.holds_member ha _ hp _ _ _ hs
  | method name args =>
    exact P.holds_bind (P.holds_values h) fun vs => P.holds_member ha _ hp _ _ _ hs
  | index e =>
    exact P.holds_bind (h e (List.mem_singleton_self e)) fun v => P.holds_index ha _ _ hp hs

/-- What a segment asks for is the same wherever it stands. -/
lemma access_segmentKind (g : Relocation) (k : SegmentKind) : (g.segmentKind k).access = k.access := by
  cases k <;> rfl

lemma holds_follow (ha : P.Around env) {eval : ι → Expr → Render Value} (r : Reference)
    {strict : ι → Bool} (hs : P.Strict strict) {segments : List Segment}
    (hp : P.Sited g (segments.map (·.position)))
    (h : ∀ segment ∈ segments, ∀ e ∈ segment.kind.exprs, P.Holds env fun i => eval i ((g i).expr e))
    (v : Value) :
    P.Holds env fun i =>
      Render.follow (eval i) ((g i).reference r) (strict i) ((g i).segmentList segments) v := by
  induction segments generalizing v with
  | nil => exact P.holds_pure v
  | cons segment segments ih =>
    have here := h segment (List.mem_cons_self ..)
    have later := ih hp.tail fun x hx => h x (List.mem_cons_of_mem _ hx)
    obtain ⟨kind, p⟩ := segment
    have access (i : ι) : ((g i).segmentKind kind).access = kind.access := access_segmentKind _ kind
    have literal (i : ι) : ((g i).reference r).literal = r.literal := by cases r; rfl
    simp only [Relocation.segmentList, Relocation.segment, Render.follow, access, literal]
    cases v.isNull with
    | true => exact P.holds_fail_if _ hs hp.head (P.holds_pure _)
    | false => exact P.holds_bind (P.holds_step ha v hp.head here hs) fun w => later w

lemma holds_walk (ha : P.Around env) {eval : ι → Expr → Render Value} (r : Reference)
    (hr : P.Place fun i => (g i).position r.position) {segments : List Segment}
    (hp : P.Sited g (segments.map (·.position)))
    (h : ∀ segment ∈ segments, ∀ e ∈ segment.kind.exprs, P.Holds env fun i => eval i ((g i).expr e))
    (exempt : Bool) :
    P.Holds env fun i => Render.walk (eval i) ((g i).reference r) ((g i).segmentList segments) exempt := by
  unfold Render.walk
  refine P.holds_strict_bind ha fun b hb => ?_
  have hs : P.Strict fun i => b i && !exempt := by
    simpa only [Bool.and_comm] using P.strict_and hb (!exempt)
  refine P.holds_bind (P.holds_variableOf hr hs) fun v? => ?_
  cases v? with
  | none => exact P.holds_pure _
  | some v => exact P.holds_follow ha r hs hp h v

/-- The value of a reference, given those of the expressions in it. -/
theorem holds_reference (ha : P.Around env) {eval : ι → Expr → Render Value} {r : Reference}
    (hp : P.Sited g r.places) (h : ∀ e ∈ r.exprs, P.Holds env fun i => eval i ((g i).expr e)) (lenient : Bool) :
    P.Holds env fun i => Render.reference (eval i) ((g i).reference r) lenient := by
  have parts : ∀ segment ∈ r.segments, ∀ e ∈ segment.kind.exprs, P.Holds env fun i => eval i ((g i).expr e) :=
    fun segment hs e he => h e (List.mem_flatMap.mpr ⟨segment, hs, he⟩)
  refine P.holds_congr (P.holds_walk ha r hp.head hp.tail parts
    (r.quiet || (lenient && r.segments.isEmpty))) fun i => ?_
  obtain ⟨root, quiet, segments, literal, p⟩ := r
  unfold Render.reference
  cases segments <;> rfl

/-! ### Assignments -/

lemma holds_assignItem (r : Ref) (n : Int64) (v : Value) {p : ι → Position} (hp : P.Place p) :
    P.Holds env fun i => Render.assignItem r n v (p i) := by
  unfold Render.assignItem
  refine P.holds_bind (P.holds_ask _) fun items => ?_
  cases placeOf? n items.size with
  | some k => exact P.holds_change (.item r k v)
  | none => exact P.holds_fail _ hp

lemma holds_discard {m : ι → Render α} (h : P.Holds env m) :
    P.Holds env fun i => discard (m i) := by
  have hm : P.Holds env fun i => m i >>= fun _ => pure PUnit.unit :=
    P.holds_bind h fun _ => P.holds_pure _
  exact P.holds_congr hm fun i => rfl

lemma holds_assignSegment (ha : P.Around env) {eval : ι → Expr → Render Value} (receiver : Value)
    {last : Segment} (hp : P.Place fun i => (g i).position last.position)
    (h : ∀ e ∈ last.kind.exprs, P.Holds env fun i => eval i ((g i).expr e)) (v : Value) :
    P.Holds env fun i => Render.assignSegment (eval i) receiver ((g i).segment last) v := by
  obtain ⟨kind, p⟩ := last
  unfold Render.assignSegment
  refine P.holds_strict_bind ha fun strict hs => ?_
  cases kind with
  | property name =>
    dsimp only [Relocation.segment, Relocation.segmentKind]
    split
    · unfold Render.assignEntry
      cases v.isNull with
      | true => exact P.holds_change (.erase _ name)
      | false => exact P.holds_change (.insert _ name v)
    · exact P.holds_discard (P.holds_member ha _ hp _ _ _ hs)
  | index e =>
    refine P.holds_bind (h e (List.mem_singleton_self e)) fun w => ?_
    split
    · exact P.holds_assignItem _ _ _ hp
    · exact P.holds_bind (P.holds_display _) fun name => P.holds_change (.insert _ name v)
    · exact P.holds_discard (P.holds_member ha _ hp _ _ _ hs)
  | method name args => exact P.holds_fail _ hp

/-- An assignment, given how to bind its variable and the values of the expressions in its target. -/
lemma holds_assignBy (ha : P.Around env) {eval : ι → Expr → Render Value} {target : Reference}
    (hp : P.Sited g target.places) (h : ∀ e ∈ target.exprs, P.Holds env fun i => eval i ((g i).expr e))
    (v : Value)
    (hv : target.segments = [] → P.Holds env fun _ => (modify (·.put target.root v) : Render PUnit)) :
    P.Holds env fun i => Render.assign (eval i) ((g i).reference target) v := by
  have parts : ∀ segment ∈ target.segments, ∀ e ∈ segment.kind.exprs,
      P.Holds env fun i => eval i ((g i).expr e) :=
    fun segment hs e he => h e (List.mem_flatMap.mpr ⟨segment, hs, he⟩)
  obtain ⟨root, quiet, segments, literal, p⟩ := target
  unfold Render.assign
  simp only [Relocation.reference, Relocation.segmentList_eq, List.getLast?_map, ← List.map_dropLast]
  cases hl : segments.getLast? with
  | none => exact hv (List.getLast?_eq_none_iff.mp hl)
  | some last =>
    have mem := List.mem_of_getLast? hl
    have before : ∀ segment ∈ segments.dropLast, ∀ e ∈ segment.kind.exprs,
        P.Holds env fun i => eval i ((g i).expr e) :=
      fun segment hs => parts segment (List.dropLast_subset _ hs)
    have there : P.Place fun i => (g i).position last.position := hp.tail _ (List.mem_map_of_mem mem)
    have path : P.Sited g (segments.dropLast.map (·.position)) :=
      hp.tail.sublist (List.map_subset _ (List.dropLast_subset _))
    have walk := P.holds_walk ha ⟨root, quiet, segments, literal, p⟩ hp.head path before false
    simp only [Relocation.reference, Relocation.segmentList_eq] at walk
    refine P.holds_bind walk fun receiver => ?_
    cases receiver.isNull with
    | true =>
      refine P.holds_strict_bind ha fun strict hs => ?_
      obtain ⟨kind, q⟩ := last
      exact P.holds_fail_if _ hs there (P.holds_pure _)
    | false => exact P.holds_assignSegment ha receiver there (parts last mem) v

/-! ### Expressions -/

lemma position_expr (g : Relocation) (e : Expr) : (g.expr e).position = g.position e.position := by
  cases e
  rfl

lemma holds_refuseNull (ha : P.Around env) (v : Value) (operator : String) {operand : Expr}
    (hp : P.Place fun i => (g i).position operand.position) :
    P.Holds env fun i => Interpreter.refuseNull v operator ((g i).expr operand) := by
  unfold Interpreter.refuseNull
  simp only [position_expr]
  refine P.holds_strict_bind ha fun strict hs => ?_
  exact P.holds_fail_if _ (P.strict_and hs _) hp (P.holds_pure _)

lemma holds_bounds {lower upper : Expr} (hl : P.Evaluates self g env lower)
    (hu : P.Evaluates self g env upper) {p : ι → Position} (hp : P.Place p) :
    P.Holds env fun i => (self i).bounds ((g i).expr lower) ((g i).expr upper) (p i) := by
  unfold Interpreter.bounds
  refine P.holds_bind hl.value fun a => ?_
  refine P.holds_bind hu.value fun b => ?_
  split
  · exact P.holds_pure _
  · refine P.holds_bind (P.holds_ask _) fun s => ?_
    exact P.holds_bind (P.holds_ask _) fun t => P.holds_fail _ hp

lemma holds_checkRange (ha : P.Around env) (m n : Int64) {p : ι → Position} (hp : P.Place p) :
    P.Holds env fun i => Interpreter.checkRange m n (p i) := by
  obtain ⟨c, b, -, hc⟩ := P.settings ha
  unfold Interpreter.checkRange
  refine P.holds_read ?_
  simp only [hc]
  split
  · exact P.holds_fail _ hp
  · exact P.holds_pure _

/-- What is done with the entries of a map literal, whose keys are distinct. -/
lemma holds_entries_bind {es : List Entry}
    (h : ∀ entry ∈ es, P.Evaluates self g env entry.key ∧ P.Evaluates self g env entry.value)
    {d : Dict Value} (hd : d.Distinct) {f : Dict Value → Render α}
    (hf : ∀ d, d.Distinct → P.Holds env fun _ => f d) :
    P.Holds env fun i => (self i).entries ((g i).entryList es) d >>= f := by
  induction es generalizing d with
  | nil => exact hf d hd
  | cons entry es ih =>
    obtain ⟨hk, hv⟩ := h entry (List.mem_cons_self ..)
    obtain ⟨key, value⟩ := entry
    simp only [Relocation.entryList, Relocation.entry, Interpreter.entries, bind_assoc]
    refine P.holds_bind hk.value fun k => ?_
    refine P.holds_bind (P.holds_display k) fun key => ?_
    refine P.holds_bind hv.value fun v => ?_
    exact ih (fun x hx => h x (List.mem_cons_of_mem _ hx)) (hd.insert key v)

lemma holds_logical (lenient decisive : Bool) {left right : Expr}
    (hl : P.Evaluates self g env left) (hr : P.Evaluates self g env right) :
    P.Holds env fun i => (self i).logical lenient decisive ((g i).expr left) ((g i).expr right) := by
  unfold Interpreter.logical
  refine P.holds_bind (hl lenient) fun a => ?_
  refine P.holds_bind (P.holds_ask _) fun decided => ?_
  split
  · exact P.holds_pure _
  · refine P.holds_bind (hr lenient) fun b => ?_
    exact P.holds_bind (P.holds_ask _) fun truth => P.holds_pure _

lemma holds_operation (ha : P.Around env) (lenient : Bool) (op : BinaryOp) {left right : Expr}
    (hl : P.Evaluates self g env left) (hr : P.Evaluates self g env right) {p : ι → Position} (hp : P.Place p)
    (ho : P.Sited g [left.position, right.position]) :
    P.Holds env fun i => (self i).operation lenient op ((g i).expr left) ((g i).expr right) (p i) := by
  have apply (a b : Value) :
      P.Holds env fun i => Render.ask (fun σ => Value.binary σ op a b) >>= Render.orFail (p i) :=
    P.holds_bind (P.holds_ask _) fun r => P.holds_orFail hp r
  unfold Interpreter.operation
  refine P.holds_bind (hl _) fun a => ?_
  refine P.holds_bind (hr _) fun b => ?_
  split
  · refine P.holds_bind (P.holds_refuseNull ha _ _ ho.head) fun _ => ?_
    exact P.holds_bind (P.holds_refuseNull ha _ _ ho.tail.head) fun _ => apply a b
  · exact apply a b

/-- The value of an expression, given what holds of its parts. -/
theorem holds_evaluate (ha : P.Around env) {e : Expr} (hp : P.Sited g e.places)
    (hx : ∀ x ∈ e.kind.exprs, P.Evaluates self g env x)
    (hb : ∀ b ∈ e.kind.blocks, P.Renders self g env b) (lenient : Bool) :
    P.Holds env fun i => (self i).evaluate lenient ((g i).expr e) := by
  obtain ⟨kind, p⟩ := e
  have here : P.Place fun i => (g i).position p := hp.head
  have inside := hp.tail
  unfold Interpreter.evaluate
  cases kind with
  | literal l => exact P.holds_pure _
  | interpolated body =>
    have body := P.holds_captured (hb body (List.mem_singleton_self body))
    exact P.holds_bind body fun r => P.holds_pure _
  | reference r => exact P.holds_reference ha inside (fun x h => (hx x h).value) lenient
  | list items =>
    refine P.holds_bind (P.holds_values fun x h => (hx x h).value) fun vs => ?_
    exact P.holds_change (.newList _)
  | map es =>
    have parts : ∀ entry ∈ es, P.Evaluates self g env entry.key ∧ P.Evaluates self g env entry.value :=
      fun entry h => ⟨hx _ (List.mem_flatMap.mpr ⟨entry, h, List.mem_cons_self ..⟩),
        hx _ (List.mem_flatMap.mpr ⟨entry, h, List.mem_cons_of_mem _ (List.mem_singleton_self _)⟩)⟩
    exact P.holds_entries_bind parts Dict.distinct_empty fun d hd => P.holds_change (.newMap hd)
  | range lower upper =>
    have hl := hx lower (List.mem_cons_self ..)
    have hu := hx upper (List.mem_cons_of_mem _ (List.mem_singleton_self _))
    refine P.holds_bind (P.holds_bounds hl hu here) fun r => ?_
    refine P.holds_bind (P.holds_checkRange ha _ _ here) fun _ => ?_
    exact P.holds_change (.newList _)
  | unary op operand =>
    have ho := hx operand (List.mem_singleton_self _)
    cases op with
    | not =>
      refine P.holds_bind (ho lenient) fun v => ?_
      exact P.holds_bind (P.holds_ask _) fun truth => P.holds_pure _
    | neg =>
      refine P.holds_bind ho.value fun v => ?_
      refine P.holds_bind (P.holds_refuseNull ha _ _ inside.head) fun _ => ?_
      exact P.holds_bind (P.holds_ask _) fun r => P.holds_orFail here r
  | binary op left right =>
    have hl := hx left (List.mem_cons_self ..)
    have hr := hx right (List.mem_cons_of_mem _ (List.mem_singleton_self _))
    cases op with
    | and => exact P.holds_logical lenient false hl hr
    | or => exact P.holds_logical lenient true hl hr
    | _ => exact P.holds_operation ha lenient _ hl hr here inside
  | bareWord word => exact P.holds_fail _ here

end Tempo

/-- An assignment, given the values of the expressions in its target. -/
theorem Pace.holds_assign {ι : Type} (P : Pace ι) {env : ι → RenderEnv} {g : ι → Relocation} (ha : P.Around env)
    {eval : ι → Expr → Render Value} {target : Reference} (hp : P.Sited g target.places)
    (h : ∀ e ∈ target.exprs, P.Holds env fun i => eval i ((g i).expr e)) (v : Value) :
    P.Holds env fun i => Render.assign (eval i) ((g i).reference target) v :=
  P.holds_assignBy ha hp h v fun _ => P.holds_put _ _

end Stencil
