import Stencil.Dispatch.Choice
import Stencil.Proofs.Entries
import Stencil.Proofs.Lockstep.Uniform
import Stencil.Proofs.Lockstep.Node

/-!
# The keys of maps are distinct

A store is tidy if every map in it has each of its keys once. Whatever renders do to the store keeps it so, as long as
the methods of the host do. Main statements: `Interpreter.keepsTidy_ofDepth` and `Value.tidy_ofJson`.
-/

namespace Stencil

/-! ### Tidy stores -/

namespace Store

variable {σ : Store}

/-- Whether the keys of every map are distinct. -/
def Tidy (σ : Store) : Prop := ∀ r d, σ.cell? r = some (.map d) → d.Distinct

/-- Whether a cell is no map with a key that comes twice. -/
def Fit (c : Cell) : Prop := ∀ d, c = .map d → d.Distinct

lemma fit_list (xs : Array Value) : Fit (.list xs) := nofun

lemma fit_map {d : Dict Value} (h : d.Distinct) : Fit (.map d) := by
  rintro _ ⟨⟩
  exact h

lemma tidy_empty : empty.Tidy := nofun

lemma Tidy.entries (h : σ.Tidy) (r : Ref) : (σ.entries r).Distinct := by
  unfold Store.entries
  split
  · next d there => exact h r d there
  · exact Dict.distinct_empty

lemma Tidy.alloc (h : σ.Tidy) {c : Cell} (hc : Fit c) : (σ.alloc c).2.Tidy := by
  intro r d there
  unfold Store.alloc cell? at there
  rw [Array.getElem?_push] at there
  split at there
  · exact hc d (Option.some.inj there)
  · exact h r d there

lemma Tidy.set (h : σ.Tidy) (r : Ref) {c : Cell} (hc : Fit c) : (σ.set r c).Tidy := by
  intro q d there
  rw [cell?_set] at there
  split at there
  · exact hc d (Option.some.inj there)
  · exact h q d there

lemma Tidy.newList (h : σ.Tidy) (xs : Array Value) : (σ.newList xs).2.Tidy := h.alloc (fit_list xs)

lemma Tidy.newMap (h : σ.Tidy) {d : Dict Value} (hd : d.Distinct) : (σ.newMap d).2.Tidy := h.alloc (fit_map hd)

end Store

/-! ### Documents -/

namespace Value

mutual

/-- The maps of a document have distinct keys, even where its objects repeat some. -/
theorem tidy_ofJson {σ : Store} (h : σ.Tidy) : ∀ j, (ofJson σ j).2.Tidy
  | .null | .bool _ | .float _ | .str _ => h
  | .int n => by
    unfold ofJson
    split
    · exact h
    · exact h
  | .arr items => (tidy_ofJsonItems h items).newList _
  | .obj fields => (tidy_ofJsonFields h fields).newMap (Dict.distinct_ofList _)

theorem tidy_ofJsonItems {σ : Store} (h : σ.Tidy) : ∀ items, (ofJsonItems σ items).2.Tidy
  | [] => h
  | j :: items => tidy_ofJsonItems (tidy_ofJson h j) items

theorem tidy_ofJsonFields {σ : Store} (h : σ.Tidy) : ∀ fields, (ofJsonFields σ fields).2.Tidy
  | [] => h
  | (_, j) :: fields => tidy_ofJsonFields (tidy_ofJson h j) fields

end

end Value

/-! ### Methods -/

namespace Store

variable {σ : Store}

/-- Whether a store is tidy if another one is. -/
def StaysTidy (σ τ : Store) : Prop := σ.Tidy → τ.Tidy

lemma staysTidy_newEntries (σ : Store) (es : List (String × Value)) :
    σ.StaysTidy (MapMethods.newEntries σ es).2 := by
  induction es generalizing σ with
  | nil => exact id
  | cons e es ih => exact fun h => ih _ (h.newMap (Dict.distinct_ofList _))

end Store

/-- Types whose methods leave stores tidy. -/
def HostTypes.Tidy (types : HostTypes) : Prop :=
  ∀ name d, types name = some d → ∀ m ∈ d.methods, m.Keeps Store.StaysTidy

namespace HostTypes

variable {types : HostTypes}

/-- The methods of all values leave stores tidy if those of the host do. -/
lemma Tidy.keeps (h : types.Tidy) {k : ValueKind} {d : TypeInfo} (known : k.info? types = some d) :
    ∀ m ∈ d.methods, m.Keeps Store.StaysTidy := by
  have refl (σ : Store) : σ.StaysTidy σ := id
  cases k with
  | null => cases known
  | bool =>
    cases known
    exact ScalarMethods.keeps_booleans refl
  | int =>
    cases known
    exact ScalarMethods.keeps_integers refl
  | float =>
    cases known
    exact ScalarMethods.keeps_floats refl
  | str =>
    cases known
    exact StringMethods.keeps_all refl fun σ xs tidy => tidy.newList xs
  | list =>
    cases known
    exact ListMethods.keeps_all refl (fun σ r xs tidy => tidy.set r (Store.fit_list xs)) fun σ xs tidy =>
      tidy.newList xs
  | map =>
    cases known
    refine MapMethods.keeps_all refl (fun σ r k v tidy => ?_) (fun σ r k tidy => ?_) (fun σ xs tidy => ?_)
      fun σ es tidy => ?_
    · exact tidy.set r (Store.fit_map ((tidy.entries r).insert k v))
    · exact tidy.set r (Store.fit_map ((tidy.entries r).erase k))
    · exact tidy.newList xs
    · exact (σ.staysTidy_newEntries es tidy).newList _
  | host type =>
    cases known
    cases ht : types type with
    | none => exact List.forall_mem_nil _
    | some d => exact h type d ht

lemma Tidy.invoke (h : types.Tidy) (choice : MemberChoice) (receiver : Value) (name : String) (args : List Value)
    (σ : Store) : σ.StaysTidy (choice.invoke types receiver name args σ).2 := by
  intro tidy
  unfold MemberChoice.invoke
  cases known : (receiver.kind σ).info? types with
  | none => exact tidy
  | some d =>
    dsimp only
    cases hm : d.methods[choice.index]? with
    | none => exact tidy
    | some m =>
      have keeps := h.keeps known m (List.mem_of_getElem? hm)
      cases choice.restFrom with
      | none => exact keeps _ _ _ tidy
      | some n => exact keeps _ _ _ (tidy.newList _)

end HostTypes

/-! ### Renders -/

/-- Whatever renders change in a tidy store, it stays so. -/
lemma Store.Edit.tidy {α : Type} {f : Store → α × Store} (h : Store.Edit HostTypes.Tidy f) (σ : Store) :
    σ.StaysTidy (f σ).2 := by
  intro tidy
  cases h with
  | newList items => exact tidy.newList items
  | newMap distinct => exact tidy.newMap distinct
  | item r k v => exact tidy.set r (fit_list _)
  | insert r name v => exact tidy.set r (fit_map ((tidy.entries r).insert name v))
  | erase r name => exact tidy.set r (fit_map ((tidy.entries r).erase name))
  | invoke known choice receiver name args => exact known.invoke choice receiver name args σ tidy

/-- Surroundings whose types are known. -/
def Surroundings.knowing {ι : Type} (S : Surroundings ι) (Known : HostTypes → Prop) : Surroundings ι where
  Units := S.Units
  Met := S.Met
  Strict := S.Strict
  Around env := S.Around env ∧ ∀ i, Known (env i).types
  strict_and := S.strict_and
  settings ha := S.settings ha.1
  types ha := S.types ha.1
  calls ha := S.calls ha.1
  names ha := S.names ha.1
  macro? ha := S.macro? ha.1
  met_compile := S.met_compile
  opening ha hu _ hm := ⟨S.opening ha.1 hu hm, ha.2⟩
  calling ha hu name := ⟨S.calling ha.1 hu name, ha.2⟩

/-- A property of stores that holds after whatever change a render makes, if it held before. -/
def Store.Invariant (Known : HostTypes → Prop) (P : Store → Prop) : Prop :=
  ∀ {α : Type} {f : Store → α × Store}, Store.Edit Known f → ∀ σ, P σ → P (f σ).2

namespace Store.Invariant

variable {Known : HostTypes → Prop} {P : Store → Prop} (h : Invariant Known P)

/-- The single render that keeps the property. -/
def lockstep : Lockstep Unit where
  toSurroundings := (Surroundings.same Unit).knowing Known
  Holds env m := ∀ s : RenderState, P s.store → P (Outcome.state (m () (env ()) s)).store
  holds_pure _ _ hs := hs
  holds_bind := by
    intro α β env m f hm hf s hs
    have first := hm s hs
    simp only [Render.bind_apply]
    cases hr : m () (env ()) s with
    | ok x t =>
      rw [hr] at first
      exact hf x t first
    | error halt t =>
      rw [hr] at first
      exact first
  holds_raise _ _ hs := hs
  holds_unless := by
    intro α env b m e _ hm s hs
    dsimp only
    split
    · exact hs
    · exact hm s hs
  holds_read hf := hf
  holds_get _ hf s := hf s s
  holds_change := by
    intro α env f edit s hs
    have known : Store.Edit Known f := edit.mono fun types ha => ha.2 () ▸ ha.1.2 ()
    exact h known s.store hs
  holds_put name v s hs := by
    show P (s.put name v).store
    rwa [RenderState.store_put]
  holds_emit t s hs := by
    simp only [Render.emit_apply]
    rcases s.sink.write t with ⟨_ | f, sink⟩
    · exact hs
    · exact hs
  holds_captured := by
    intro α env m hm s hs
    have text := hm { s with sink := .empty } hs
    simp only [Render.captured_apply]
    cases hr : m () (env ()) { s with sink := .empty } with
    | ok x t =>
      rw [hr] at text
      exact text
    | error halt t =>
      rw [hr] at text
      exact text
  holds_inFrame hm s hs := by
    show P (Outcome.state (Outcome.leaving _ fun t => { t with frames := t.frames.tail })).store
    rw [Outcome.state_leaving]
    exact hm _ hs
  holds_restoreLoop var item status hm s hs := by
    show P (Outcome.state (Outcome.leaving _ fun t => t.restoreLoop var item status)).store
    rw [Outcome.state_leaving, RenderState.restoreLoop, RenderState.restore_store, RenderState.restore_store]
    exact hm s hs
  holds_onError := by
    intro α env m f _ hm s hs
    show P (Outcome.state (Outcome.telling _ f)).store
    rw [Outcome.state_telling]
    exact hm s hs
  holds_withReader hm := hm
  holds_chosen := by
    intro env _ p q s hs
    obtain ⟨x, t, hr, hv⟩ := Render.chosen_ok p q (env ()) s
    simp only [hr]
    show P t.store
    rwa [RenderState.store_congr hv]
  holds_template := by
    rintro α _ f ⟨⟨e, rfl⟩, -⟩ he hf name s hs
    obtain ⟨answer, t, hr, ht⟩ : ∃ answer t, Render.template name e s = .ok answer t ∧ P t.store := ⟨_, _, rfl, hs⟩
    simp only [Render.bind_apply, hr]
    cases answer with
    | error failure => exact he failure t ht
    | ok found => exact hf found _ trivial ⟨found.unit, rfl⟩ t ht
  holds_resource _ _ _ hs := hs
  holds_nextUnit hf s hs := by
    have counted : P { s with evaluated := s.evaluated + 1 }.store := hs
    exact hf (fun _ => .evaluated s.evaluated) ⟨_, rfl⟩ (fun _ => ⟨_, rfl⟩) _ counted

include h in
/-- What no change by a render ends, holds after all code, however deep it is nested. -/
theorem kept (depth : Nat) {env : RenderEnv} (known : Known env.types) :
    (∀ lenient e s, P s.store → P (Outcome.state ((Interpreter.ofDepth depth).eval lenient e env s)).store) ∧
      ∀ b s, P s.store → P (Outcome.state ((Interpreter.ofDepth depth).render b env s)).store := by
  have code : (∀ e, h.lockstep.Evaluates (fun _ => .ofDepth depth) (fun _ => env) e) ∧
      ∀ b, h.lockstep.Renders (fun _ => .ofDepth depth) (fun _ => env) b :=
    h.lockstep.holds_ofDepth (fun s hs => hs) depth ⟨⟨env, rfl⟩, fun _ => known⟩
  exact ⟨fun lenient e => code.1 e lenient, fun b => code.2 b⟩

end Store.Invariant

/-- Tidiness is such a property, if the methods of the host keep it. -/
theorem Store.invariant_tidy : Store.Invariant HostTypes.Tidy Store.Tidy := fun edit σ tidy => edit.tidy σ tidy

/-- Whether code that starts from a tidy store leaves it tidy, however it ends. -/
structure Interpreter.KeepsTidy (code : Interpreter) (env : RenderEnv) : Prop where
  eval : ∀ lenient e s, s.store.Tidy → (Outcome.state (code.eval lenient e env s)).store.Tidy
  render : ∀ b s, s.store.Tidy → (Outcome.state (code.render b env s)).store.Tidy

/-- The keys of all maps stay distinct through all code, however deep it is nested. -/
theorem Interpreter.keepsTidy_ofDepth {env : RenderEnv} (h : env.types.Tidy) (depth : Nat) :
    (ofDepth depth).KeepsTidy env :=
  ⟨(Store.invariant_tidy.kept depth h).1, (Store.invariant_tidy.kept depth h).2⟩

end Stencil
