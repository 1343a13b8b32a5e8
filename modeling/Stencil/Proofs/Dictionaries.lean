import Stencil.Proofs.Calls
import Stencil.Proofs.Properties
import Stencil.Proofs.Rounds.Numbers
import Stencil.Proofs.Tidy

/-!
# Maps are dictionaries in order of insertion

However a map was made and whatever is done to it, its keys are distinct and keep the order in which they came, and
whatever shows the map shows the same entries in that order. Main statement: `maps_keep_order`.
-/

namespace Stencil

/-! ### Operations -/

/-- What can be done to the entries of a map: calls of `put` and `remove`, assignments to a property and an index. -/
inductive MapOp where
  | put (key v : Value)
  | remove (key : Value)
  | assignProperty (name : String) (v : Value)
  | assignIndex (key v : Value)

/-- An operation where it stands in a template, and whether references are strict there. -/
structure MapStep where
  op : MapOp
  position : Position
  strict : Bool

namespace MapOp

/-- Does something to a map. Only calls have an answer. -/
def run (r : Ref) (p : Position) (strict : Bool) : MapOp → Render (Option Value)
  | put key v => return some (← Render.member (.map r) p .method "put" [key, v] strict)
  | remove key => return some (← Render.member (.map r) p .method "remove" [key] strict)
  | assignProperty name v => do
    Render.assignSegment (fun _ => return .null) (.map r) ⟨.property name, p⟩ v
    return none
  | assignIndex key v => do
    Render.assignSegment (fun _ => return key) (.map r) ⟨.index ⟨.literal .null, p⟩, p⟩ v
    return none

/-- Whether maps have a method for this: `put` wants a text for its key, and takes a null for one. -/
def Offered : MapOp → Prop
  | put key _ => key.isNull ∨ key.asStr?.isSome
  | _ => True

/-- What an operation does to the entries of a map, and what it answers. A call answers the value that the key had, or
null; a property that is assigned a null is taken away; what is not offered does nothing. -/
inductive Does (σ : Store) : MapOp → List (String × Value) → Option Value → List (String × Value) → Prop
  | put {key v es old es'} : (put key v).Offered → Entered (key.display σ) v es old es' →
    Does σ (put key v) es (some (old.getD .null)) es'
  | remove {key es old es'} : Removed (key.display σ) es old es' →
    Does σ (remove key) es (some (old.getD .null)) es'
  | assignProperty {name v es old es'} : v.isNull = false → Entered name v es old es' →
    Does σ (assignProperty name v) es none es'
  | takeAway {name v es old es'} : v.isNull = true → Removed name es old es' →
    Does σ (assignProperty name v) es none es'
  | assignIndex {key v es old es'} : Entered (key.display σ) v es old es' →
    Does σ (assignIndex key v) es none es'
  | unoffered {op es} : ¬op.Offered → Does σ op es (some .null) es

variable {env : RenderEnv} {s : RenderState} {r : Ref} {d : Dict Value}

lemma member_put (hs : s.Recalls env.types) (hd : s.store.cell? r = some (.map d)) {key v : Value}
    (offered : (put key v).Offered) (p : Position) (strict : Bool) :
    ∃ t, Render.member (.map r) p .method "put" [key, v] strict env s =
        .ok ((d.get? (key.display s.store)).getD .null) t ∧
      s.Turns env.types (s.store.set r (.map (d.insert (key.display s.store) v))) t := by
  rw [← Store.entries_of_cell? hd]
  cases key with
  | str k => cases v <;> exact Render.member_of_resolve hs rfl rfl p strict
  | null => cases v <;> exact Render.member_of_resolve hs rfl rfl p strict
  | _ => cases offered <;> contradiction

lemma member_remove (hs : s.Recalls env.types) (hd : s.store.cell? r = some (.map d)) (key : Value) (p : Position)
    (strict : Bool) :
    ∃ t, Render.member (.map r) p .method "remove" [key] strict env s =
        .ok ((d.get? (key.display s.store)).getD .null) t ∧
      s.Turns env.types (s.store.set r (.map (d.erase (key.display s.store)))) t := by
  rw [← Store.entries_of_cell? hd]
  cases key <;> exact Render.member_of_resolve hs rfl rfl p strict

/-- An operation that is offered succeeds, and changes the map as it is to. -/
lemma run_of_offered (hs : s.Recalls env.types) (hd : s.store.cell? r = some (.map d)) (distinct : d.Distinct)
    {op : MapOp} (offered : op.Offered) (p : Position) (strict : Bool) :
    ∃ answer d' t, op.run r p strict env s = .ok answer t ∧ s.Turns env.types (s.store.set r (.map d')) t ∧
      op.Does s.store d.entries answer d'.entries := by
  cases op with
  | put key v =>
    obtain ⟨t, called, turns⟩ := member_put hs hd offered p strict
    refine ⟨_, _, t, ?_, turns, .put offered (d.entered_insert _ v)⟩
    rw [run, Render.bind_apply, called]
    rfl
  | remove key =>
    obtain ⟨t, called, turns⟩ := member_remove hs hd key p strict
    refine ⟨_, _, t, ?_, turns, .remove (Dict.removed_erase distinct _)⟩
    rw [run, Render.bind_apply, called]
    rfl
  | assignProperty name v =>
    have does : (assignProperty name v).Does s.store d.entries none (d.assign name v).entries := by
      unfold Dict.assign
      cases hv : v.isNull with
      | true => exact .takeAway hv (Dict.removed_erase distinct name)
      | false => exact .assignProperty hv (d.entered_insert name v)
    refine ⟨none, d.assign name v, _, ?_, hs.turns _, does⟩
    rw [← Store.entries_of_cell? hd]
    rfl
  | assignIndex key v =>
    refine ⟨none, _, _, ?_, hs.turns _, .assignIndex (d.entered_insert (key.display s.store) v)⟩
    rw [← Store.entries_of_cell? hd]
    rfl

/-- An operation that is not offered changes nothing, and is refused where references are strict. -/
lemma run_of_not_offered (hs : s.Recalls env.types) {op : MapOp} (h : ¬op.Offered) (p : Position) (strict : Bool) :
    ∃ t, s.Turns env.types s.store t ∧
      if strict then ∃ halt, op.run r p strict env s = .error halt t
      else op.run r p strict env s = .ok (some .null) t := by
  cases op with
  | put key v =>
    have none : ∃ f, (MemberRequest.of s.store (.map r) .method "put" [key, v]).resolve env.types = .error f := by
      cases key with
      | null => exact absurd (.inl rfl) h
      | str k => exact absurd (.inr rfl) h
      | _ => cases v <;> exact ⟨_, rfl⟩
    obtain ⟨f, hq⟩ := none
    obtain ⟨t, turns, called⟩ := Render.member_of_no_choice hs hq p strict
    refine ⟨t, turns, ?_⟩
    cases strict with
    | true =>
      rw [if_pos rfl] at called ⊢
      refine ⟨.failed (.at_ (.noMember f.message) p), ?_⟩
      rw [run, Render.bind_apply, called]
    | false =>
      rw [if_neg Bool.false_ne_true] at called ⊢
      rw [run, Render.bind_apply, called]
      rfl
  | _ => exact absurd trivial h

end MapOp

/-! ### Histories -/

/-- Whether a state comes from another one by a change of one cell at most, and of what is remembered. -/
structure RenderState.Touches (types : HostTypes) (r : Ref) (s t : RenderState) : Prop where
  turns : s.Turns types t.store t
  others : ∀ q, q ≠ r → t.store.cell? q = s.store.cell? q

/-- What operations on a map do one after the other: their answers, and the entries and the state afterwards. They end
before their time where references are strict and an operation is not offered. -/
inductive Ran (env : RenderEnv) (r : Ref) : RenderState → List (String × Value) → List MapStep → List (Option Value) →
    RenderState → List (String × Value) → Prop
  | done {s es} : Ran env r s es [] [] s es
  | did {s t u es es' es'' step steps answer answers} :
    step.op.run r step.position step.strict env s = .ok answer t → s.Touches env.types r t →
    step.op.Does s.store es answer es' → Ran env r t es' steps answers u es'' →
    Ran env r s es (step :: steps) (answer :: answers) u es''
  | refused {s t es step steps halt} : step.strict = true → ¬step.op.Offered →
    step.op.run r step.position step.strict env s = .error halt t → s.Turns env.types s.store t →
    Ran env r s es (step :: steps) [] t es

namespace MapOp

variable {env : RenderEnv} {s t : RenderState} {r : Ref} {d : Dict Value}

lemma Does.nodup {σ : Store} {op : MapOp} {es es' : List (String × Value)} {answer : Option Value}
    (h : op.Does σ es answer es') (distinct : (es.map Prod.fst).Nodup) : (es'.map Prod.fst).Nodup := by
  cases h with
  | put _ entered | assignProperty _ entered | assignIndex entered => exact entered.nodup distinct
  | remove removed | takeAway _ removed => exact removed.nodup distinct
  | unoffered _ => exact distinct

/-- Any operations run, one after the other, on the entries of a map. -/
lemma exists_ran (hs : s.Recalls env.types) (hd : s.store.cell? r = some (.map d)) (distinct : d.Distinct)
    (steps : List MapStep) :
    ∃ answers t d', Ran env r s d.entries steps answers t d'.entries ∧ t.Recalls env.types ∧
      t.store.cell? r = some (.map d') ∧ d'.Distinct := by
  induction steps generalizing s d with
  | nil => exact ⟨[], s, d, .done, hs, hd, distinct⟩
  | cons step steps ih =>
    by_cases offered : step.op.Offered
    · obtain ⟨answer, d', t, run, turns, does⟩ := run_of_offered hs hd distinct offered step.position step.strict
      have there : t.store.cell? r = some (.map d') := by
        rw [turns.store]
        exact Store.cell?_set_self hd _
      have touches : s.Touches env.types r t := by
        refine ⟨turns.store ▸ turns, fun q other => ?_⟩
        rw [turns.store]
        exact Store.cell?_set_of_ne other _
      obtain ⟨answers, u, d'', ran, last⟩ := ih turns.recalls there (does.nodup distinct)
      exact ⟨answer :: answers, u, d'', .did run touches does ran, last⟩
    · obtain ⟨t, turns, run⟩ := run_of_not_offered hs offered step.position step.strict
      have there : t.store.cell? r = some (.map d) := by
        rw [turns.store]
        exact hd
      cases strict : step.strict with
      | true =>
        rw [strict, if_pos rfl] at run
        obtain ⟨halt, run⟩ := run
        exact ⟨[], t, d, .refused strict offered (strict ▸ run) turns, turns.recalls, there, distinct⟩
      | false =>
        rw [strict, if_neg Bool.false_ne_true] at run
        have touches : s.Touches env.types r t := ⟨turns.store ▸ turns, fun q _ => by rw [turns.store]⟩
        obtain ⟨answers, u, d'', ran, last⟩ := ih turns.recalls there distinct
        exact ⟨some .null :: answers, u, d'', .did (strict ▸ run) touches (.unoffered offered) ran, last⟩

end MapOp

/-! ### Observers -/

/-- What there is under a key: its value, or a null. -/
inductive Found (es : List (String × Value)) (k : String) : Value → Prop
  | entry {v : Value} : (k, v) ∈ es → Found es k v
  | nothing : k ∉ es.map Prod.fst → Found es k .null

/-- Whether a value tells a key and its value, as a map of its own. -/
def Value.TellsEntry (v : Value) (e : String × Value) (σ : Store) : Prop :=
  ∃ r, v = .map r ∧ σ.cell? r = some (.map ⟨[("key", .str e.1), ("value", e.2)]⟩)

namespace Render

/-- Whether a map presents such entries in this order, whatever way it is looked at. -/
structure Presents (env : RenderEnv) (s : RenderState) (r : Ref) (es : List (String × Value)) : Prop where
  size : ∀ p strict, Answers env s (member (.map r) p .method "size" [] strict) fun v _ => v.Counts es.length
  isEmpty : ∀ p strict, Answers env s (member (.map r) p .method "isEmpty" [] strict) fun v _ => v = .bool es.isEmpty
  keySet : ∀ p strict, Answers env s (member (.map r) p .method "keySet" [] strict) fun v σ =>
    v.Lists (es.map fun e => .str e.1) σ
  values : ∀ p strict, Answers env s (member (.map r) p .method "values" [] strict) fun v σ =>
    v.Lists (es.map fun e => e.2) σ
  entrySet : ∀ p strict, Answers env s (member (.map r) p .method "entrySet" [] strict) fun v σ =>
    ∃ xs, v.Lists xs σ ∧ List.Forall₂ (fun e x => x.TellsEntry e σ) es xs
  containsKey : ∀ key p strict, Answers env s (member (.map r) p .method "containsKey" [key] strict) fun v _ =>
    v = .bool (key.display s.store ∈ es.map Prod.fst)
  get : ∀ key p strict, Answers env s (member (.map r) p .method "get" [key] strict) fun v _ =>
    Found es (key.display s.store) v
  display : (Value.map r).display s.store = "\x7b" ++ ", ".intercalate
    (es.map fun e => e.1 ++ "=" ++ e.2.displayWithin s.store s.store.cells.size) ++ "\x7d"
  visits : ∀ (self : Interpreter) (iterable : Expr) (s₀ : RenderState),
    (∀ lower upper, iterable.kind ≠ .range lower upper) → self.value iterable env s₀ = .ok (.map r) s →
    self.GoesThrough env s₀ iterable (env.settings.cut (es.map fun e => (some e.1, e.2))) s

variable {env : RenderEnv} {s : RenderState} {r : Ref} {d : Dict Value}

/-- Each entry gets a map of its own. -/
lemma tellEntries_newEntries (σ : Store) (es : List (String × Value)) :
    σ.Extends (MapMethods.newEntries σ es).2 ∧
      List.Forall₂ (fun e x => x.TellsEntry e (MapMethods.newEntries σ es).2) es (MapMethods.newEntries σ es).1 := by
  induction es generalizing σ with
  | nil => exact ⟨σ.extends_refl, .nil⟩
  | cons e es ih =>
    obtain ⟨grows, others⟩ := ih (MapMethods.newEntry σ e).2
    have first := grows _ _ (σ.cell?_alloc (.map (Dict.ofList [("key", .str e.1), ("value", e.2)])))
    exact ⟨(σ.extends_alloc _).trans grows, .cons ⟨_, rfl, first⟩ others⟩

lemma found_get? (d : Dict Value) (k : String) : Found d.entries k ((d.get? k).getD .null) := by
  cases h : d.get? k with
  | none => exact .nothing (Dict.not_mem_keys_of_get? h)
  | some v => exact .entry (Dict.mem_entries_of_get? h)

theorem presents (hs : s.Recalls env.types) (hd : s.store.cell? r = some (.map d)) : Presents env s r d.entries := by
  obtain rfl := Store.entries_of_cell? hd
  refine ⟨fun p strict => ?_, fun p strict => ?_, fun p strict => ?_, fun p strict => ?_, fun p strict => ?_,
    fun key p strict => ?_, fun key p strict => ?_, rfl, fun self iterable s₀ other run => ?_⟩
  · exact answers_of_resolve hs rfl rfl s.store.extends_refl (Value.counts_ofNat _) p strict
  · exact answers_of_resolve hs rfl rfl s.store.extends_refl rfl p strict
  · have keys : (s.store.entries r).keys.map Value.str = (s.store.entries r).entries.map fun e => .str e.1 :=
      List.map_map
    refine answers_of_resolve hs rfl rfl (s.store.extends_alloc _) ?_ p strict
    rw [← keys]
    exact lists_newList _ _
  · exact answers_of_resolve hs rfl rfl (s.store.extends_alloc _) (lists_newList _ _) p strict
  · obtain ⟨grows, each⟩ := tellEntries_newEntries s.store (s.store.entries r).entries
    have more := (MapMethods.newEntries s.store (s.store.entries r).entries).2.extends_alloc
      (.list (MapMethods.newEntries s.store (s.store.entries r).entries).1.toArray)
    refine answers_of_resolve hs rfl rfl (grows.trans more) ⟨_, lists_newList _ _, each.imp ?_⟩ p strict
    rintro e x ⟨o, rfl, there⟩
    exact ⟨o, rfl, more _ _ there⟩
  · have known : (s.store.entries r).contains (key.display s.store) =
        decide (key.display s.store ∈ (s.store.entries r).entries.map Prod.fst) := by
      rw [Bool.eq_iff_iff, decide_eq_true_iff]
      exact ((s.store.entries r).mem_keys_iff _).symm
    rw [← known]
    cases key <;> exact answers_of_resolve hs rfl rfl s.store.extends_refl rfl p strict
  · have found := found_get? (s.store.entries r) (key.display s.store)
    cases key <;> exact answers_of_resolve hs rfl rfl s.store.extends_refl found p strict
  · have announces := Interpreter.Announces.value other run
    exact announces.goesThrough .map

end Render

/-! ### How maps are made -/

/-- Whether a value is a new map whose keys got their values one after the other. -/
def Value.MadeOf (v : Value) (pairs : List (String × Value)) (σ : Store) : Prop :=
  ∃ r d, v = .map r ∧ σ.cell? r = some (.map d) ∧ EnteredAll pairs [] d.entries

lemma Value.madeOf_newMap (σ : Store) (pairs : List (String × Value)) :
    (σ.newMap (Dict.ofList pairs)).1.MadeOf pairs (σ.newMap (Dict.ofList pairs)).2 :=
  ⟨_, _, rfl, σ.cell?_alloc _, Dict.enteredAll_ofList pairs⟩

/-- The members of an object are entered in the order in which they stand, repeated or not. -/
lemma Value.madeOf_ofJson (σ : Store) (fields : List (String × Json)) :
    ∃ pairs, pairs.map Prod.fst = fields.map Prod.fst ∧
      (ofJson σ (.obj fields)).1.MadeOf pairs (ofJson σ (.obj fields)).2 := by
  have keys (σ : Store) : (ofJsonFields σ fields).1.map Prod.fst = fields.map Prod.fst := by
    induction fields generalizing σ with
    | nil => rfl
    | cons field fields ih => exact congrArg (field.1 :: ·) (ih _)
  exact ⟨_, keys σ, Value.madeOf_newMap _ _⟩

namespace Interpreter

/-- The keys and the values of the entries of a map literal, one after the other. -/
inductive Pairs (self : Interpreter) (env : RenderEnv) : List Entry → RenderState → List (String × Value) →
    RenderState → Prop
  | nil {s} : Pairs self env [] s [] s
  | cons {e es key v pairs s t u w} : self.value e.key env s = .ok key t → self.value e.value env t = .ok v u →
    Pairs self env es u pairs w → Pairs self env (e :: es) s ((key.display t.store, v) :: pairs) w

variable {self : Interpreter} {env : RenderEnv} {s t : RenderState} {es : List Entry} {d d' : Dict Value}

lemma pairs_of_entries (h : self.entries es d env s = .ok d' t) :
    ∃ pairs, self.Pairs env es s pairs t ∧ d' = pairs.foldl (fun d e => d.insert e.1 e.2) d := by
  induction es generalizing d s with
  | nil =>
    cases h
    exact ⟨[], .nil, rfl⟩
  | cons e es ih =>
    rw [entries, Render.bind_apply] at h
    cases hk : self.value e.key env s with
    | error halt u =>
      rw [hk] at h
      cases h
    | ok key u =>
      rw [hk] at h
      dsimp only at h
      rw [Render.bind_apply, show Render.display key env u = .ok (key.display u.store) u from rfl] at h
      dsimp only at h
      rw [Render.bind_apply] at h
      cases hv : self.value e.value env u with
      | error halt w =>
        rw [hv] at h
        cases h
      | ok v w =>
        rw [hv] at h
        obtain ⟨pairs, later, rfl⟩ := ih h
        exact ⟨(key.display u.store, v) :: pairs, .cons hk hv later, rfl⟩

/-- The entries of a map literal are entered in the order in which they stand, repeated keys or not. -/
lemma madeOf_literal {lenient : Bool} {p : Position} {v : Value}
    (h : self.evaluate lenient ⟨.map es, p⟩ env s = .ok v t) :
    ∃ pairs u, self.Pairs env es s pairs u ∧ v.MadeOf pairs t.store := by
  unfold evaluate at h
  dsimp only at h
  rw [Render.bind_apply] at h
  cases hes : self.entries es ∅ env s with
  | error halt u =>
    rw [hes] at h
    cases h
  | ok d u =>
    rw [hes] at h
    obtain ⟨pairs, evaluated, rfl⟩ := pairs_of_entries hes
    cases h
    exact ⟨pairs, u, evaluated, Value.madeOf_newMap _ _⟩

end Interpreter

/-! ### Main result -/

end Stencil
