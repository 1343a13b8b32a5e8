import Stencil.Proofs.Rounds

/-!
# The variables of a loop

In every round the loop variable is bound to the item, and when the loop is left both of its variables are bound as they
were before it, or not at all. Main statements: `Interpreter.puts_back_variables` and
`Interpreter.loop_variable_in_round`.
-/

namespace Stencil

/-! ### The bindings of one frame -/

namespace RenderState

variable {s t u : RenderState}

/-- Whether a binding can be held: only frames hold null. -/
def Holds (s : RenderState) (binding : Option Value) : Prop :=
  s.frames = [] → ∀ v, binding = some v → v.isNull = false

lemma Keeps.holds (h : s.Keeps t) {binding : Option Value} (hb : s.Holds binding) : t.Holds binding := by
  intro unframed
  have unframed : s.frames = [] := by rwa [← List.isEmpty_iff, ← h.isEmpty, List.isEmpty_iff]
  exact hb unframed

/-- Whatever is bound where there is no null in the context, can be held. -/
lemma holds_local? (h : s.context.Solid) (name : String) : s.Holds (s.local? name) := by
  intro unframed v hv
  unfold local? at hv
  rw [unframed] at hv
  exact h name v hv

lemma local?_put (s : RenderState) (name : String) {v : Value} (h : s.Holds (some v)) (other : String) :
    (s.put name v).local? other = if other = name then some v else s.local? other := by
  unfold put local?
  cases hs : s.frames with
  | cons frame frames => exact Dict.get?_insert ..
  | nil =>
    dsimp only
    rw [Context.local?_put, h hs v rfl]
    rfl

lemma local?_restore (s : RenderState) (name : String) {binding : Option Value} (h : s.Holds binding)
    (other : String) : (s.restore name binding).local? other = if other = name then binding else s.local? other := by
  cases binding with
  | some v => exact s.local?_put name h other
  | none =>
    unfold restore local?
    cases hs : s.frames with
    | cons frame frames => exact Dict.get?_erase ..
    | nil => exact Context.local?_remove ..

/-- The variables of a loop that is left are bound as they were, also where they are one and the same. -/
lemma local?_restoreLoop (h : t.Keeps u) (solid : t.context.Solid) (var : String) {name : String}
    (hn : name = var ∨ name = "foreach") :
    (u.restoreLoop var (t.local? var) (t.local? "foreach")).local? name = t.local? name := by
  have item := h.holds (holds_local? solid var)
  have status := (h.trans (u.keeps_restore var (t.local? var))).holds (holds_local? solid "foreach")
  rw [restoreLoop, local?_restore _ "foreach" status, local?_restore _ var item]
  rcases hn with rfl | rfl
  · split
    · next same => rw [same]
    · rw [if_pos rfl]
  · rw [if_pos rfl]

/-- A variable that has the same binding in the innermost frame reads the same. -/
lemma Passes.get?_of_local? (h : t.Passes u) {name : String} (same : u.local? name = t.local? name) :
    u.get? name = t.get? name := by
  cases ht : t.frames with
  | nil =>
    have hu := h.frames_nil ht
    unfold local? at same
    unfold get?
    rw [hu, ht] at same ⊢
    show u.context.get? name = t.context.get? name
    rw [Context.get?_eq, Context.get?_eq, show u.context.local? name = t.context.local? name from same,
      Context.beneath?_congr h.wrapped]
  | cons frame frames =>
    obtain ⟨frame', hu⟩ := h.frames_cons ht
    have context := h.context (by rw [ht]; exact List.cons_ne_nil _ _)
    rw [local?_of_frames hu, local?_of_frames ht] at same
    unfold get?
    rw [hu, ht, List.findSome?_cons, List.findSome?_cons, same, context]

lemma get?_put_null (h : s.frames = []) (name : String) {v : Value} (hv : v.isNull = true) :
    (s.put name v).get? name = s.context.beneath? name := by
  unfold put get?
  rw [h]
  show (s.context.put name v).get? name = _
  rw [Context.get?_eq, Context.local?_put, if_pos rfl, hv, if_pos rfl, Option.none_or]
  exact Context.beneath?_congr (s.context.wrapped_put name v) name

/-- A round starts with the loop variable bound to the item. A null hides other variables of the name in a frame only:
where there is none, it uncovers what the context wraps. -/
lemma get?_inRound (s : RenderState) (var : String) (item : Value) (status : Dict Value) :
    (s.inRound var item status).get? var =
      if item.isNull then if s.frames = [] then s.context.beneath? var else none else some item := by
  unfold inRound
  generalize ht : ({ s with store := (s.store.newMap status).2 } : RenderState).put "foreach" _ = t
  have passes : Passes { s with store := (s.store.newMap status).2 } t := ht ▸ passes_put _ "foreach" _
  cases hi : item.isNull with
  | false => exact get?_put_of_not_null t var hi
  | true =>
    rw [if_pos rfl]
    cases hs : s.frames with
    | nil =>
      rw [if_pos rfl, get?_put_null (passes.frames_nil hs) var hi]
      exact Context.beneath?_congr passes.wrapped var
    | cons frame frames =>
      obtain ⟨frame', hf⟩ := passes.frames_cons hs
      rw [if_neg (List.cons_ne_nil _ _), get?_put_of_frame hf, hi, if_pos rfl]

/-- Whether a loop that started in one state has been left in another one with its variables put back. -/
structure PutsBack (s : RenderState) (var : String) (t : RenderState) : Prop extends s.Passes t where
  binding : ∀ name, name = var ∨ name = "foreach" → t.local? name = s.local? name
  reading : ∀ name, name = var ∨ name = "foreach" → t.get? name = s.get? name

lemma Passes.putsBack (h : t.Passes u) (solid : t.context.Solid) (var : String) :
    t.PutsBack var (u.restoreLoop var (t.local? var) (t.local? "foreach")) := by
  have passes : t.Passes (u.restoreLoop var (t.local? var) (t.local? "foreach")) :=
    lasting_passes.trans h (lasting_passes.trans (u.passes_restore var _) (passes_restore _ "foreach" _))
  have binding := @local?_restoreLoop t u h.toKeeps solid var
  exact ⟨passes, fun name hn => binding hn, fun name hn => passes.get?_of_local? (binding hn)⟩

end RenderState

namespace Interpreter

variable {depth : Nat} {env : RenderEnv} {s t : RenderState} {iterable : Expr} {source : LoopSource}
  {items : List LoopItem}

/-- A loop puts its variables back. However it is left, in a frame or in the caller's context, both of its variables
are bound afterwards as they were before the first round, or not at all if they were not, and read as they did; also
where they are the same, and whatever the rounds bound. -/
theorem puts_back_variables (solid : s.context.Solid) (h : (ofDepth depth).Announces env s iterable source t)
    (hi : source.Has t.store items) (nonempty : env.settings.cut items ≠ []) (var : String) (body : Block)
    (otherwise : Option Block) (p : Position) :
    t.PutsBack var (Outcome.state ((ofDepth depth).node ⟨.loop var iterable body otherwise, p⟩ env s)) := by
  obtain ⟨starts, r, visits, left⟩ := (h.goesThrough hi var body otherwise p).2 nonempty
  have before : s.Passes t := h.lasts RenderState.lasting_passes.toConserved (stays_passes depth)
  have during : t.Passes r.state := visits.rounds.lasts RenderState.lasting_passes (stays_passes depth)
  rw [left, Outcome.state_leaving]
  exact during.putsBack (before.solid solid) var

/-- A loop that a `#stop` leaves uncovers the variable of a context that the caller's one wraps. -/
theorem puts_back_variables_stopped :
    let p : Position := default
    let iterable : Expr := ⟨.list [⟨.literal (.int 5), p⟩], p⟩
    let env := (Engine.initial .standard).env (.ofTemplates [] id)
    let s := (Engine.initial .standard).start .empty (Context.empty.put "v" (.int 1)).wrap .empty
    s.context.Solid ∧ ∃ t, (ofDepth 2).Announces env s iterable (.value (.list ⟨0⟩)) t ∧ t.get? "v" = some (.int 1) ∧
      t.PutsBack "v" (Outcome.state ((ofDepth 2).node ⟨.loop "v" iterable [⟨.stop, p⟩] none, p⟩ env s)) := by
  intro p iterable env s
  have solid : s.context.Solid := Context.solid_wrap _
  have announces : (ofDepth 2).Announces env s iterable (.value (.list ⟨0⟩)) _ := .value nofun rfl
  have back := puts_back_variables solid announces .list (List.cons_ne_nil _ _) "v" [⟨.stop, p⟩] none p
  exact ⟨solid, _, announces, rfl, back⟩

/-- At the start of every round, the loop variable reads as the item: a null as nothing in a frame and, where there is
none, as what the caller's context wraps. -/
theorem loop_variable_in_round (h : (ofDepth depth).Announces env s iterable source t)
    (hi : source.Has t.store items) (nonempty : env.settings.cut items ≠ []) (var : String) (body : Block)
    (otherwise : Option Block) (p : Position) :
    ∃ starts r, (ofDepth depth).Visits env var body (env.settings.cut items) t starts r ∧
      (ofDepth depth).node ⟨.loop var iterable body otherwise, p⟩ env s =
        (Outcome.leaving r fun u => u.restoreLoop var (t.local? var) (t.local? "foreach")) ∧
      ∀ (k : Nat) (u : RenderState), starts[k]? = some u → ∃ key item, (env.settings.cut items)[k]? = some (key, item) ∧
        u.get? var =
          if item.isNull then if t.frames = [] then t.context.beneath? var else none else some item := by
  obtain ⟨starts, r, visits, left⟩ := (h.goesThrough hi var body otherwise p).2 nonempty
  refine ⟨starts, r, visits, left, fun k u hu => ?_⟩
  obtain ⟨key, item, v, there, passes, rfl⟩ :=
    visits.rounds.starts_inRound RenderState.lasting_passes (stays_passes depth) hu
  refine ⟨key, item, there, ?_⟩
  have frames : v.frames = [] ↔ t.frames = [] := by
    rw [← List.isEmpty_iff, passes.isEmpty, List.isEmpty_iff]
  rw [RenderState.get?_inRound, Context.beneath?_congr passes.wrapped]
  simp only [frames]

/-- In a frame, a null hides the caller's variable. -/
theorem loop_variable_in_round_framed :
    let p : Position := default
    let iterable : Expr := ⟨.list [⟨.literal .null, p⟩], p⟩
    let env := (Engine.initial .standard).env (.ofTemplates [] id)
    let s := { (Engine.initial .standard).start .empty (Context.empty.put "x" (.int 1)) .empty with frames := [∅] }
    ∃ t, (ofDepth 2).Announces env s iterable (.value (.list ⟨0⟩)) t ∧ t.get? "x" = some (.int 1) ∧ ∃ starts r,
      (ofDepth 2).Visits env "x" [⟨.stop, p⟩] [(none, .null)] t starts r ∧
      ∀ (k : Nat) (u : RenderState), starts[k]? = some u → u.get? "x" = none := by
  intro p iterable env s
  have announces : (ofDepth 2).Announces env s iterable (.value (.list ⟨0⟩)) _ := .value nofun rfl
  obtain ⟨starts, r, visits, -, reads⟩ :=
    loop_variable_in_round announces .list (List.cons_ne_nil _ _) "x" [⟨.stop, p⟩] none p
  refine ⟨_, announces, rfl, starts, r, visits, fun k u hu => ?_⟩
  obtain ⟨key, item, there, reading⟩ := reads k u hu
  cases k with
  | zero =>
    cases there
    exact reading
  | succ k => cases there

end Interpreter

/-- Where there is no frame, a null uncovers the variable of the context that the caller's one wraps. -/
theorem Engine.uncovered_in_round :
    let r := (initial .standard).renderText (.ofTemplates [] id) "#foreach($x in [null])$!x#end" .empty
      (Context.empty.put "x" (.int 1)).wrap .empty
    r.halt.isNone ∧ r.sink.written = "1" := by
  decide +kernel

end Stencil
