import Stencil.Proofs.Ending
import Stencil.Proofs.Rounds

/-!
# Loops over ranges

A range is a list of whole numbers as a value, and nothing but its bounds in a loop. Where both are allowed, it makes
no difference which of them a loop goes through. Main statement: `Interpreter.ranges_are_exact`.
-/

namespace Stencil

lemma has_list {σ : Store} {r : Ref} {ws : List Int64} (h : (σ.items r).toList = ws.map .int) :
    (LoopSource.value (.list r)).Has σ (numberItems ws) := by
  have items : numberItems ws = (σ.items r).toList.map (none, ·) := by
    rw [h]
    exact List.map_map.symm
  rw [items]
  exact .list

lemma Store.items_newList (σ : Store) (xs : Array Value) : (σ.newList xs).2.items (σ.alloc (.list xs)).1 = xs := by
  unfold items
  rw [show (σ.newList xs).2 = (σ.alloc (.list xs)).2 from rfl, σ.cell?_alloc]

namespace Interpreter

variable {self : Interpreter} {env : RenderEnv} {s s' t : RenderState} {lower upper : Expr} {a b : Int64}

lemma evaluate_range (hl : self.value lower env s = .ok (.int a) s') (hu : self.value upper env s' = .ok (.int b) t)
    (lenient : Bool) (p : Position) :
    self.evaluate lenient ⟨.range lower upper, p⟩ env s =
      if env.settings.rangeMaxSize < rangeLength a b then .error (tooLong a b env.settings.rangeMaxSize p) t
      else .ok (t.store.newList (rangeItems a b (rangeLength a b)).toArray).1
        { t with store := (t.store.newList (rangeItems a b (rangeLength a b)).toArray).2 } := by
  unfold evaluate
  dsimp only
  rw [Render.bind_apply, bounds_of_ok hl hu]
  dsimp only
  rw [Render.bind_apply, checkRange_apply]
  by_cases long : env.settings.rangeMaxSize < rangeLength a b
  · rw [if_pos long, if_pos long]
  · rw [if_neg long, if_neg long]
    rfl

lemma loop_tooLong (hl : self.value lower env s = .ok (.int a) s') (hu : self.value upper env s' = .ok (.int b) t)
    (uncapped : env.settings.foreachMaxLoops = none) (long : env.settings.rangeMaxSize < rangeLength a b)
    (var : String) (body : Block) (otherwise : Option Block) (p : Position) :
    self.loop var ⟨.range lower upper, p⟩ body otherwise env s =
      .error (tooLong a b env.settings.rangeMaxSize p) t := by
  have items : self.loopItems ⟨.range lower upper, p⟩ env s = .error (tooLong a b env.settings.rangeMaxSize p) t := by
    unfold loopItems
    rw [Render.read_bind_apply, uncapped]
    dsimp only
    rw [Render.bind_apply, bounds_of_ok hl hu]
    dsimp only
    rw [Option.isNone_none, if_pos rfl, Render.bind_apply, checkRange_apply, if_pos long]
  unfold loop
  rw [Render.bind_apply, items]

/-- Ranges are exact. The words of a range are the whole numbers from one bound to the other, however far these are
apart or close to what words can hold, and no step between them overflows. As a value the range is a list of them if it
is within the limit, and otherwise it is refused. A loop over it goes through as many of them as it may; the limit
counts only where the number of rounds has none. So does a loop over a variable that holds such a list. -/
theorem ranges_are_exact (hl : self.value lower env s = .ok (.int a) s')
    (hu : self.value upper env s' = .ok (.int b) t) (p : Position) :
    ∃ ws, IsRange a b ws ∧ ws.length = (a.toInt - b.toInt).natAbs + 1 ∧
      (∀ lenient, ws.length ≤ env.settings.rangeMaxSize → ∃ r u,
        self.evaluate lenient ⟨.range lower upper, p⟩ env s = .ok (.list r) u ∧
          (u.store.items r).toList = ws.map .int) ∧
      (∀ lenient, env.settings.rangeMaxSize < ws.length →
        self.evaluate lenient ⟨.range lower upper, p⟩ env s = .error (tooLong a b env.settings.rangeMaxSize p) t) ∧
      ((env.settings.foreachMaxLoops = none → ws.length ≤ env.settings.rangeMaxSize) →
        self.GoesThrough env s ⟨.range lower upper, p⟩ (env.settings.cut (numberItems ws)) t) ∧
      (env.settings.foreachMaxLoops = none → env.settings.rangeMaxSize < ws.length → ∀ var body otherwise q,
        self.node ⟨.loop var ⟨.range lower upper, p⟩ body otherwise, q⟩ env s =
          .error (tooLong a b env.settings.rangeMaxSize p) t) ∧
      ∀ (depth : Nat) (x : Reference) (q : Position) (v : RenderState) (r : Ref), x.segments = [] →
        v.get? x.root = some (.list r) → (v.store.items r).toList = ws.map .int →
        (ofDepth (depth + 1)).GoesThrough env v ⟨.reference x, q⟩ (env.settings.cut (numberItems ws)) v := by
  have length : (rangeWords (rangeStep a b) b (rangeLength a b) a).length = rangeLength a b := by
    have items := length_rangeItems (Nat.le_refl (rangeLength a b))
    rwa [rangeItems, List.length_map] at items
  refine ⟨_, isRange_rangeWords a b, length, ?_, ?_, ?_, ?_, ?_⟩
  · intro lenient fits
    rw [length] at fits
    refine ⟨_, _, (evaluate_range hl hu lenient p).trans (if_neg (Nat.not_lt.mpr fits)), ?_⟩
    exact congrArg Array.toList (t.store.items_newList _)
  · intro lenient long
    rw [length] at long
    exact (evaluate_range hl hu lenient p).trans (if_pos long)
  · intro within
    rw [length] at within
    have announces : self.Announces env s ⟨.range lower upper, p⟩ (.range a b) t := .range rfl hl hu within
    exact announces.goesThrough (.range (isRange_rangeWords a b))
  · intro uncapped long var body otherwise q
    rw [length] at long
    exact loop_tooLong hl hu uncapped long var body otherwise p
  · intro depth x q v r plain reads items
    have announces : (ofDepth (depth + 1)).Announces env v ⟨.reference x, q⟩ (.value (.list r)) v := by
      refine .value (fun _ _ same => ?_) (value_of_variable depth false plain reads)
      cases same
    exact announces.goesThrough (has_list items)

/-- The range of the last two words. -/
theorem ranges_are_exact_at_end :
    let p : Position := default
    let lower : Expr := ⟨.literal (.int 9223372036854775806), p⟩
    let upper : Expr := ⟨.literal (.int 9223372036854775807), p⟩
    let env := (Engine.initial .standard).env (.ofTemplates [] id)
    let s := (Engine.initial .standard).start .empty .empty .empty
    ∃ ws, IsRange 9223372036854775806 9223372036854775807 ws ∧ ws.length = 2 ∧
      (ofDepth 1).GoesThrough env s ⟨.range lower upper, p⟩ (numberItems ws) s := by
  intro p lower upper env s
  have hl : (ofDepth 1).value lower env s = .ok (.int 9223372036854775806) s := rfl
  have hu : (ofDepth 1).value upper env s = .ok (.int 9223372036854775807) s := rfl
  obtain ⟨ws, range, length, -, -, loop, -⟩ := ranges_are_exact hl hu p
  have two : ws.length = 2 := length.trans (by decide)
  refine ⟨ws, range, two, loop fun _ => ?_⟩
  rw [two]
  decide

end Interpreter

end Stencil
