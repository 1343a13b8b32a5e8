import Stencil.Proofs.Datum
import Stencil.Proofs.Members

/-!
# Calls of methods

What a call of a method gives in a render is what the method does to its receiver, whatever is remembered. Main
statements: `Render.answers_of_resolve` and `Render.responds_of_resolve`.
-/

namespace Stencil

/-- Whether a value is a list of these items. -/
def Value.Lists (v : Value) (xs : List Value) (σ : Store) : Prop :=
  ∃ r, v = .list r ∧ σ.cell? r = some (.list xs.toArray)

namespace Render

/-- Whether a step answers such a value, and changes neither variables nor the cells that there are. -/
def Answers (env : RenderEnv) (s : RenderState) (m : Render Value) (P : Value → Store → Prop) : Prop :=
  ∃ v t, m env s = .ok v t ∧ s.Turns env.types t.store t ∧ s.store.Extends t.store ∧ P v t.store

/-- What a call of a method gives, wherever it stands: a value, or the reason for which it fails, and the store
afterwards. -/
def Responds (env : RenderEnv) (s : RenderState) (receiver : Value) (name : String) (args : List Value)
    (result : Except String Value) (σ : Store) : Prop :=
  ∀ p strict, ∃ t, s.Turns env.types σ t ∧
    member receiver p .method name args strict env s = called (receiver.typeName σ) name p result t

variable {env : RenderEnv} {s : RenderState}

lemma answers_of_resolve {receiver w : Value} {kind : MemberUse} {name : String} {args : List Value} {σ : Store}
    {choice : MemberChoice} (hs : s.Recalls env.types)
    (hq : (MemberRequest.of s.store receiver kind name args).resolve env.types = .ok choice)
    (hi : choice.invoke env.types receiver name args s.store = (.ok w, σ)) (grows : s.store.Extends σ)
    {P : Value → Store → Prop} (h : P w σ) (p : Position) (strict : Bool) :
    Answers env s (member receiver p kind name args strict) P := by
  obtain ⟨t, run, turns⟩ := member_of_resolve hs hq hi p strict
  obtain rfl := turns.store
  exact ⟨w, t, run, turns, grows, h⟩

/-- What a call gives is what the chosen method does. -/
lemma responds_of_resolve {receiver : Value} {name : String} {args : List Value} {result : Except String Value}
    {σ : Store} {choice : MemberChoice} (hs : s.Recalls env.types)
    (hq : (MemberRequest.of s.store receiver .method name args).resolve env.types = .ok choice)
    (named : choice.member = name) (hi : choice.invoke env.types receiver name args s.store = (result, σ)) :
    Responds env s receiver name args result σ := by
  intro p strict
  subst named
  exact member_of_choice hs hq hi p strict

/-- A call that gives a value gives nothing else. -/
lemma Responds.unique {receiver v : Value} {name : String} {args : List Value} {result : Except String Value}
    {σ σ' : Store} (h : Responds env s receiver name args (.ok v) σ)
    (h' : Responds env s receiver name args result σ') : result = .ok v := by
  obtain ⟨t, -, run⟩ := h default false
  obtain ⟨t', -, run'⟩ := h' default false
  rw [run] at run'
  cases result with
  | ok w =>
    cases run'
    rfl
  | error reason => cases run'

lemma lists_newList (σ : Store) (xs : List Value) : (σ.newList xs.toArray).1.Lists xs (σ.newList xs.toArray).2 :=
  ⟨_, rfl, σ.cell?_alloc _⟩

end Render

end Stencil
