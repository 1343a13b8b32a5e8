import Mathlib.Tactic.Lemma
import Stencil.Proofs.Unit
import Stencil.Render.Node

/-!
# Renders in lockstep

Several renders run the same code at once: the same template on engines that remember different things, with
strict references and without, or under different bounds on its nesting. A `Pace` says what is to hold of such a
family of computations, as long as they call no other code, and that every primitive step keeps it, a `Tempo` the same
where they bind no variables either; a `Lockstep` keeps it across calls too. What is proved for them once, holds for
every such comparison. Main statements: the derived rules for the steps that renders are made of.
-/

namespace Stencil

/-- What a template can read and write of the state of a render. -/
structure View where
  store : Store
  context : Context
  frames : List (Dict Value)
  sink : Sink

/-- What a template can read of the state of a render: what was written can no longer be read. -/
structure Scene where
  store : Store
  context : Context
  frames : List (Dict Value)

namespace RenderState

/-- The part of a state that templates can see. -/
def view (s : RenderState) : View := ⟨s.store, s.context, s.frames, s.sink⟩

def scene (s : RenderState) : Scene := ⟨s.store, s.context, s.frames⟩

lemma store_congr {s t : RenderState} (h : s.view = t.view) : s.store = t.store :=
  congrArg View.store h

lemma context_congr {s t : RenderState} (h : s.view = t.view) : s.context = t.context :=
  congrArg View.context h

lemma frames_congr {s t : RenderState} (h : s.view = t.view) : s.frames = t.frames :=
  congrArg View.frames h

lemma sink_congr {s t : RenderState} (h : s.view = t.view) : s.sink = t.sink :=
  congrArg View.sink h

lemma scene_congr {s t : RenderState} (h : s.view = t.view) : s.scene = t.scene :=
  congrArg (fun v => Scene.mk v.store v.context v.frames) h

lemma store_put (s : RenderState) (name : String) (v : Value) : (s.put name v).store = s.store := by
  unfold put
  split <;> rfl

lemma get?_congr {s t : RenderState} (h : s.scene = t.scene) (name : String) :
    s.get? name = t.get? name := by
  have frames : s.frames = t.frames := congrArg Scene.frames h
  have context : s.context = t.context := congrArg Scene.context h
  unfold get?
  rw [frames, context]

lemma local?_congr {s t : RenderState} (h : s.scene = t.scene) (name : String) :
    s.local? name = t.local? name := by
  have frames : s.frames = t.frames := congrArg Scene.frames h
  have context : s.context = t.context := congrArg Scene.context h
  unfold local?
  rw [frames, context]

end RenderState

namespace Render

/-- Choosing a member answers something and changes nothing that templates see. -/
lemma chosen_ok (p : Position) (q : MemberRequest) (env : RenderEnv) (s : RenderState) :
    ∃ x s', chosen p q env s = .ok x s' ∧ s'.view = s.view := by
  rw [chosen_eq]
  cases s.choices.lookup ⟨env.unit, p.span.start, q⟩ with
  | some choice => exact ⟨_, _, rfl, rfl⟩
  | none => cases (s.memory.resolve env.types q).1 <;> exact ⟨_, _, rfl, rfl⟩

/-- A choice depends on the unit and on the types, and on nothing else around it. -/
lemma chosen_congr (p : Position) (q : MemberRequest) {env env' : RenderEnv} (hu : env'.unit = env.unit)
    (ht : env'.types = env.types) (s : RenderState) : chosen p q env' s = chosen p q env s := by
  rw [chosen_eq, chosen_eq, hu, ht]

end Render

/-- The name of a resource, as seen from the innermost template. -/
def RenderEnv.resolve (env : RenderEnv) (name : String) : String :=
  match env.templates with
  | current :: _ => if isRelativeName name then nameWithin current.name name else name
  | [] => name

/-- The changes that renders make to the store: new lists, new maps with distinct keys, an item or an entry that is
assigned, an entry that is taken away, and what members do of values of known types. -/
inductive Store.Edit (Known : HostTypes → Prop) : {α : Type} → (Store → α × Store) → Prop
  | newList (items : Array Value) : Edit Known (·.newList items)
  | newMap {d : Dict Value} : d.Distinct → Edit Known (·.newMap d)
  | item (r : Ref) (k : Nat) (v : Value) : Edit Known fun σ => ((), σ.set r (.list ((σ.items r).setIfInBounds k v)))
  | insert (r : Ref) (name : String) (v : Value) :
    Edit Known fun σ => ((), σ.set r (.map ((σ.entries r).insert name v)))
  | erase (r : Ref) (name : String) : Edit Known fun σ => ((), σ.set r (.map ((σ.entries r).erase name)))
  | invoke {types : HostTypes} (known : Known types) (choice : MemberChoice) (receiver : Value) (name : String)
    (args : List Value) : Edit Known (choice.invoke types receiver name args)

lemma Store.Edit.mono {Known Known' : HostTypes → Prop} {α : Type} {f : Store → α × Store} (h : Edit Known f)
    (le : ∀ types, Known types → Known' types) : Edit Known' f := by
  cases h with
  | newList items => exact .newList items
  | newMap distinct => exact .newMap distinct
  | item r k v => exact .item r k v
  | insert r name v => exact .insert r name v
  | erase r name => exact .erase r name
  | invoke known choice receiver name args => exact .invoke (le _ known) choice receiver name args

/-- What holds of families of renders that run the same code, as long as it calls no other code and binds no
variables. -/
structure Tempo (ι : Type) where
  /-- The families of answers to whether references are strict. -/
  Strict : (ι → Bool) → Prop
  /-- The families of surroundings that are met. -/
  Around : (ι → RenderEnv) → Prop
  /-- The families of positions at which something may fail. -/
  Place : (ι → Position) → Prop
  /-- What holds of a family of computations in given surroundings. -/
  Holds : {α : Type} → (ι → RenderEnv) → (ι → Render α) → Prop
  strict_and : ∀ {b}, Strict b → ∀ x, Strict fun i => x && b i
  settings : ∀ {env}, Around env → ∃ (c : Settings) (b : ι → Bool), Strict b ∧
    ∀ i, (env i).settings = { c with strictReferences := b i }
  types : ∀ {env}, Around env → ∃ types, ∀ i, (env i).types = types
  calls : ∀ {env}, Around env → ∃ calls, ∀ i, (env i).calls = calls
  opened : ∀ {env}, Around env → ∃ opened, ∀ i, (env i).templates.length = opened
  resolve : ∀ {env}, Around env → ∃ resolve, ∀ i, (env i).resolve = resolve
  holds_pure : ∀ {α env} (x : α), Holds env fun _ => pure x
  holds_bind : ∀ {α β env} {m : ι → Render α} {f : ι → α → Render β}, Holds env m →
    (∀ x, Holds env fun i => f i x) → Holds env fun i => m i >>= f i
  holds_fail : ∀ {α env p} (c : Cause), Place p → Holds env fun i => (Render.fail c (p i) : Render α)
  holds_fail_if : ∀ {α env b p} {m : ι → Render α} (c : Cause), Strict b → Place p → Holds env m →
    Holds env fun i => if b i then Render.fail c (p i) else m i
  holds_read : ∀ {α env} {f : ι → RenderEnv → Render α}, (Holds env fun i => f i (env i)) →
    Holds env fun i => read >>= f i
  holds_get : ∀ {α env} {f : ι → RenderState → Render α},
    (∀ i {s t}, s.scene = t.scene → f i s = f i t) → (∀ s, Holds env fun i => f i s) →
    Holds env fun i => get >>= f i
  holds_change : ∀ {α env} {f : Store → α × Store},
    Store.Edit (fun types => Around env ∧ ∀ i, (env i).types = types) f → Holds env fun _ => Render.change f
  holds_emit : ∀ {env} t, Holds env fun _ => Render.emit t
  holds_captured : ∀ {α env} {m : ι → Render α}, Holds env m → Holds env fun i => (m i).captured
  holds_chosen : ∀ {env p}, Around env → Place p → ∀ q, Holds env fun i => Render.chosen (p i) q

/-- What holds of families of renders that run the same code, as long as it calls no other code. -/
structure Pace (ι : Type) extends Tempo ι where
  holds_put : ∀ {env} name v, Holds env fun _ => (modify (·.put name v) : Render PUnit)
  holds_inFrame : ∀ {α env} {m : ι → Render α}, Holds env m → Holds env fun i => (m i).inFrame
  holds_restoreLoop : ∀ {α env} {m : ι → Render α} var item status, Holds env m →
    Holds env fun i => (m i).andThen fun s => s.restoreLoop var item status

/-- What a family of renders that run the same code finds around it. Only the units that the code comes from may
differ, as far as `Units` lets them, and whether references are strict, as far as `Strict` does. -/
structure Surroundings (ι : Type) where
  /-- The families of units that are met. -/
  Units : (ι → CodeUnit) → Prop
  /-- The templates that are met, up to their units. -/
  Met : Template → Prop
  /-- The families of answers to whether references are strict. -/
  Strict : (ι → Bool) → Prop
  /-- The families of surroundings that are met. -/
  Around : (ι → RenderEnv) → Prop
  strict_and : ∀ {b}, Strict b → ∀ x, Strict fun i => x && b i
  settings : ∀ {env}, Around env → ∃ (c : Settings) (b : ι → Bool), Strict b ∧
    ∀ i, (env i).settings = { c with strictReferences := b i }
  types : ∀ {env}, Around env → ∃ types, ∀ i, (env i).types = types
  calls : ∀ {env}, Around env → ∃ calls, ∀ i, (env i).calls = calls
  names : ∀ {env}, Around env → ∃ names, ∀ i, (env i).templates.map Template.name = names
  macro? : ∀ {env}, Around env → ∀ name, (∀ i, (env i).macro? name = none) ∨
    ∃ u d, Units u ∧ ∀ i, (env i).macro? name = some (u i, d)
  met_compile : ∀ {s policy t}, Template.compile .inline s policy = .ok t → Met t
  opening : ∀ {env u}, Around env → Units u → ∀ {t : Template}, Met t →
    Around fun i => (env i).opening (t.inUnit (u i))
  calling : ∀ {env u}, Around env → Units u → ∀ name, Around fun i => (env i).calling name (u i)

/-- Where references are equally strict in all renders, they are so under a condition, too. -/
lemma alike_and {ι : Type} {b : ι → Bool} (h : ∃ strict, b = fun _ => strict) (x : Bool) :
    ∃ strict, (fun i => x && b i) = fun _ => strict := by
  obtain ⟨strict, rfl⟩ := h
  exact ⟨x && strict, rfl⟩

/-- All renders of a family find the same, and templates of some kind only. -/
def Surroundings.sameWith {ι : Type} (Met : Template → Prop)
    (hm : ∀ {s policy t}, Template.compile .inline s policy = .ok t → Met t) : Surroundings ι where
  Units u := ∃ v, u = fun _ => v
  Met := Met
  Strict b := ∃ strict, b = fun _ => strict
  Around env := ∃ e, env = fun _ => e
  strict_and := @alike_and ι
  settings := by
    rintro _ ⟨e, rfl⟩
    exact ⟨e.settings, _, ⟨e.settings.strictReferences, rfl⟩, fun _ => rfl⟩
  types := by
    rintro _ ⟨e, rfl⟩
    exact ⟨e.types, fun _ => rfl⟩
  calls := by
    rintro _ ⟨e, rfl⟩
    exact ⟨e.calls, fun _ => rfl⟩
  names := by
    rintro _ ⟨e, rfl⟩
    exact ⟨e.templates.map Template.name, fun _ => rfl⟩
  macro? := by
    rintro _ ⟨e, rfl⟩ name
    cases hm : e.macro? name with
    | none => exact .inl fun _ => hm
    | some found => exact .inr ⟨fun _ => found.1, found.2, ⟨found.1, rfl⟩, fun _ => hm⟩
  met_compile := hm
  opening := by
    rintro _ _ ⟨e, rfl⟩ ⟨v, rfl⟩ t -
    exact ⟨e.opening (t.inUnit v), rfl⟩
  calling := by
    rintro _ _ ⟨e, rfl⟩ ⟨v, rfl⟩ name
    exact ⟨e.calling name v, rfl⟩

/-- All renders of a family find the same. -/
def Surroundings.same (ι : Type) : Surroundings ι := sameWith (fun _ => True) fun _ => trivial

/-- What holds of families of renders that run the same code. The renders of a family answer alike. -/
structure Lockstep (ι : Type) extends Surroundings ι where
  /-- What holds of a family of computations in given surroundings. -/
  Holds : {α : Type} → (ι → RenderEnv) → (ι → Render α) → Prop
  holds_pure : ∀ {α env} (x : α), Holds env fun _ => pure x
  holds_bind : ∀ {α β env} {m : ι → Render α} {f : ι → α → Render β}, Holds env m →
    (∀ x, Holds env fun i => f i x) → Holds env fun i => m i >>= f i
  holds_raise : ∀ {α env} (e : TemplateError), Holds env fun _ => (Render.raise e : Render α)
  holds_unless : ∀ {α env b} {m : ι → Render α} (e : TemplateError), Strict b → Holds env m →
    Holds env fun i => if b i then Render.raise e else m i
  holds_read : ∀ {α env} {f : ι → RenderEnv → Render α}, (Holds env fun i => f i (env i)) →
    Holds env fun i => read >>= f i
  holds_get : ∀ {α env} {f : ι → RenderState → Render α},
    (∀ i {s t}, s.scene = t.scene → f i s = f i t) → (∀ s, Holds env fun i => f i s) →
    Holds env fun i => get >>= f i
  holds_change : ∀ {α env} {f : Store → α × Store},
    Store.Edit (fun types => Around env ∧ ∀ i, (env i).types = types) f → Holds env fun _ => Render.change f
  holds_put : ∀ {env} name v, Holds env fun _ => (modify (·.put name v) : Render PUnit)
  holds_emit : ∀ {env} t, Holds env fun _ => Render.emit t
  holds_captured : ∀ {α env} {m : ι → Render α}, Holds env m → Holds env fun i => (m i).captured
  holds_inFrame : ∀ {α env} {m : ι → Render α}, Holds env m → Holds env fun i => (m i).inFrame
  holds_restoreLoop : ∀ {α env} {m : ι → Render α} var item status, Holds env m →
    Holds env fun i => (m i).andThen fun s => s.restoreLoop var item status
  holds_onError : ∀ {α env} {m : ι → Render α} {f : TemplateError → TemplateError}, (∀ e, (f e).kind = e.kind) →
    Holds env m →
    Holds env fun i => (m i).onError f
  holds_withReader : ∀ {α env} {g : ι → RenderEnv → RenderEnv} {m : ι → Render α},
    Holds (fun i => g i (env i)) m → Holds env fun i => withReader (g i) (m i)
  holds_chosen : ∀ {env}, Around env → ∀ p q, Holds env fun _ => Render.chosen p q
  holds_template : ∀ {α env} {f : ι → Except TemplateError Template → Render α}, Around env →
    (∀ e, Holds env fun i => f i (.error e)) →
    (∀ (t : Template) u, Met t → Units u → Holds env fun i => f i (.ok (t.inUnit (u i)))) →
    ∀ name, Holds env fun i => Render.template name >>= f i
  holds_resource : ∀ {env}, Around env → ∀ name, Holds env fun _ => Render.resource name
  holds_nextUnit : ∀ {α env} {f : ι → CodeUnit → Render α},
    (∀ u, Units u → (∀ i, ∃ n, u i = .evaluated n) → Holds env fun i => f i (u i)) →
    Holds env fun i => Render.nextUnit >>= f i

/-- What is left of a block after one of its nodes. -/
def Flow.before (rest : Render Flow) : Flow → Render Flow
  | .next => rest
  | flow => pure flow

lemma Interpreter.block_cons (self : Interpreter) (n : Node) (b : Block) :
    self.block (n :: b) = self.node n >>= Flow.before (self.block b) := by
  rw [Interpreter.block]
  congr

namespace Tempo

variable {ι α β : Type} (P : Tempo ι) {env : ι → RenderEnv}

/-- What holds of a family holds of the same family written in another way. -/
lemma holds_congr {m m' : ι → Render α} (h : P.Holds env m) (e : ∀ i, m' i = m i) :
    P.Holds env m' := by
  have : m' = m := funext e
  rwa [this]

/-! ### Steps of a render -/

lemma holds_fail_bind {p : ι → Position} (c : Cause) (hp : P.Place p) (f : ι → α → Render β) :
    P.Holds env fun i => Render.fail c (p i) >>= f i :=
  P.holds_congr (P.holds_fail c hp) fun _ => rfl

lemma holds_orFail {p : ι → Position} (hp : P.Place p) (r : Except Cause α) :
    P.Holds env fun i => Render.orFail (p i) r := by
  cases r with
  | ok x => exact P.holds_pure x
  | error c => exact P.holds_fail c hp

lemma holds_strict_bind (ha : P.Around env) {f : ι → Bool → Render α}
    (h : ∀ b, P.Strict b → P.Holds env fun i => f i (b i)) :
    P.Holds env fun i => Render.strict >>= f i := by
  obtain ⟨c, b, hb, hc⟩ := P.settings ha
  have answer : P.Holds env fun i => read >>= fun e : RenderEnv => f i e.settings.strictReferences := by
    refine P.holds_read ?_
    simp only [hc]
    exact h b hb
  exact P.holds_congr answer fun _ => rfl

lemma holds_ask (f : Store → α) : P.Holds env fun _ => Render.ask f := by
  refine P.holds_get ?_ fun s => P.holds_pure _
  intro i s t h
  rw [show s.store = t.store from congrArg Scene.store h]

lemma holds_display (v : Value) : P.Holds env fun _ => Render.display v := P.holds_ask _

/-- A step that fails where references are strict, with a message about the values at hand. -/
lemma holds_refuse {b : ι → Bool} (hb : P.Strict b) {p : ι → Position} (hp : P.Place p) {m : ι → Render α}
    (h : P.Holds env m) (f : Store → β) (c : β → Cause) :
    P.Holds env fun i => if b i then Render.ask f >>= fun x => Render.fail (c x) (p i) else m i := by
  -- What the message says can be asked before it is known whether there is one.
  have asked : P.Holds env fun i =>
      Render.ask f >>= fun x => if b i then Render.fail (c x) (p i) else m i :=
    P.holds_bind (P.holds_ask f) fun x => P.holds_fail_if (c x) hb hp h
  exact P.holds_congr asked fun i => by cases b i <;> rfl

/-- What comes after a node of a block, unless the node leaves the block. -/
lemma holds_before {rest : ι → Render Flow} (h : P.Holds env rest) (flow : Flow) :
    P.Holds env fun i => flow.before (rest i) := by
  cases flow with
  | next => exact h
  | _ => exact P.holds_pure _

end Tempo

/-! ### Calls -/

/-- A lockstep keeps pace, whatever fails. -/
def Lockstep.pace {ι : Type} (L : Lockstep ι) : Pace ι where
  Strict := L.Strict
  Around := L.Around
  Place p := ∃ q, p = fun _ => q
  Holds := L.Holds
  strict_and := L.strict_and
  settings := L.settings
  types := L.types
  calls := L.calls
  opened ha := by
    obtain ⟨names, hn⟩ := L.names ha
    exact ⟨names.length, fun i => by rw [← hn i, List.length_map]⟩
  resolve := by
    intro env ha
    obtain ⟨names, hn⟩ := L.names ha
    -- Only the name of the innermost template is read, and names are the same in all renders.
    cases names with
    | nil =>
      refine ⟨id, fun i => funext fun name => ?_⟩
      have none : (env i).templates = [] := List.map_eq_nil_iff.mp (hn i)
      unfold RenderEnv.resolve
      rw [none]
      rfl
    | cons first names =>
      refine ⟨fun name => if isRelativeName name then nameWithin first name else name, fun i => ?_⟩
      obtain ⟨t, ts, ht, rfl, -⟩ := List.map_eq_cons_iff.mp (hn i)
      unfold RenderEnv.resolve
      rw [ht]
  holds_pure := L.holds_pure
  holds_bind := L.holds_bind
  holds_fail := by
    rintro α env _ c ⟨p, rfl⟩
    exact L.holds_raise _
  holds_fail_if := by
    rintro α env b _ m c hb ⟨p, rfl⟩ h
    exact L.holds_unless _ hb h
  holds_read := L.holds_read
  holds_get := L.holds_get
  holds_change := L.holds_change
  holds_put := L.holds_put
  holds_emit := L.holds_emit
  holds_captured := L.holds_captured
  holds_inFrame := L.holds_inFrame
  holds_restoreLoop := L.holds_restoreLoop
  holds_chosen := by
    rintro env _ ha ⟨p, rfl⟩ q
    exact L.holds_chosen ha p q

namespace Lockstep

variable {ι α β : Type} (L : Lockstep ι) {env : ι → RenderEnv}

/-- What holds of a family holds of the same family written in another way. -/
lemma holds_congr {m m' : ι → Render α} (h : L.Holds env m) (e : ∀ i, m' i = m i) :
    L.Holds env m' :=
  L.pace.holds_congr h e

lemma holds_raise_bind (e : TemplateError) (f : ι → α → Render β) :
    L.Holds env fun i => Render.raise e >>= f i :=
  L.holds_congr (L.holds_raise e) fun _ => rfl

lemma holds_orRaise (f : TemplateError → TemplateError) (r : Except TemplateError α) :
    L.Holds env fun _ => Render.orRaise f r := by
  cases r with
  | ok x => exact L.holds_pure x
  | error e => exact L.holds_raise _

/-- What comes after a node of a block, unless the node leaves the block. -/
lemma holds_before {rest : ι → Render Flow} (h : L.Holds env rest) (flow : Flow) :
    L.Holds env fun i => flow.before (rest i) :=
  L.pace.holds_before h flow

lemma holds_inTemplate {t : ι → Template} {m : ι → Render α}
    (h : L.Holds (fun i => (env i).opening (t i)) m) :
    L.Holds env fun i => (m i).inTemplate (t i) :=
  L.holds_withReader h

end Lockstep

end Stencil
