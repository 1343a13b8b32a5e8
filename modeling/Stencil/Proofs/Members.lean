import Stencil.Proofs.History.Related
import Stencil.Proofs.Segments

/-!
# Members of maps

What a map answers to a request for a member, whatever is remembered of the requests before it. A property is the entry
of its name, but for the two names that ask whether the map is empty. Main statements: `Render.member_of_resolve` and
`Render.member_property`.
-/

namespace Stencil

/-! ### What a request changes -/

/-- A state that differs from an earlier one in the store and in what is remembered, of which nothing is wrong. -/
structure RenderState.Turns (types : HostTypes) (s : RenderState) (σ : Store) (t : RenderState) : Prop where
  same : t = { s with store := σ, memory := t.memory, choices := t.choices }
  recalls : t.Recalls types

namespace RenderState

variable {types : HostTypes} {s t : RenderState} {σ : Store}

lemma Turns.store (h : s.Turns types σ t) : t.store = σ := by
  rw [h.same]

/-- A change of the store is no change of what is remembered. -/
lemma Recalls.turns (h : s.Recalls types) (σ : Store) : s.Turns types σ { s with store := σ } :=
  ⟨rfl, h.memory, h.choices⟩

end RenderState

/-! ### Choices -/

namespace Method

/-- A method with parameters is no answer to a request without arguments. -/
lemma choice?_of_params {m : Method} (h : m.params ≠ []) (index : Nat) (route : Route) :
    m.choice? index route [] = none := by
  unfold choice?
  cases hp : m.params with
  | nil => exact absurd hp h
  | cons p ps => rfl

end Method

namespace TypeInfo

variable {d : TypeInfo} {name : String} {route : Route}

lemma preferred_eq_none {signature : List ValueKind}
    (h : ∀ m ∈ d.methods, m.name = name → ∀ i, m.choice? i route signature = none) :
    d.preferred name route signature = .ok none := by
  have nothing : d.choices name route signature = [] := by
    unfold choices
    rw [List.filterMap_eq_nil_iff]
    rintro ⟨m, i⟩ there
    obtain ⟨among, named⟩ := List.mem_filter.mp there
    exact h m (List.fst_mem_of_mem_zipIdx among) (beq_iff_eq.mp named) i
  unfold preferred
  rw [nothing]
  rfl

/-- A property has no accessor where every method of that name wants arguments. -/
lemma preferred_eq_none_of_params (h : ∀ m ∈ d.methods, m.params = [] → m.name ≠ name) :
    d.preferred name route [] = .ok none :=
  preferred_eq_none fun m hm named i => m.choice?_of_params (fun none => h m hm none named) i route

end TypeInfo

lemma toList_accessorName (verb property : String) :
    (accessorName verb property).toList = verb.toList ++ Text.capitalize property.toList := by
  unfold accessorName
  rw [String.toList_append, String.toList_ofList]

/-- The property is read by `isEmpty()` under two names. -/
lemma accessorName_is_eq {property : String} (h : accessorName "is" property = "isEmpty") :
    property = "empty" ∨ property = "Empty" := by
  have whole : "is".toList ++ Text.capitalize property.toList = "is".toList ++ "Empty".toList := by
    rw [← toList_accessorName, h]
    rfl
  rcases Text.eq_of_capitalize (List.append_cancel_left whole) with small | large
  · exact .inl (String.toList_inj.mp small)
  · exact .inr (String.toList_inj.mp large)

namespace MapMethods

/-- The type of maps. -/
def info : TypeInfo := ⟨"Map", all⟩

lemma preferred_get (property : String) : info.preferred (accessorName "get" property) .getter [] = .ok none := by
  have names : ∀ m ∈ all, m.params = [] → m.name.toList.take 3 ≠ "get".toList := by decide
  refine TypeInfo.preferred_eq_none_of_params fun m hm none named => names m hm none ?_
  rw [named, toList_accessorName]
  rfl

lemma preferred_is {property : String} (h : ¬(property = "empty" ∨ property = "Empty")) :
    info.preferred (accessorName "is" property) .getter [] = .ok none := by
  have names : ∀ m ∈ all, m.params = [] → m.name.toList.take 2 = "is".toList → m.name = "isEmpty" := by decide
  refine TypeInfo.preferred_eq_none_of_params fun m hm none named => h (accessorName_is_eq ?_)
  rw [← named]
  refine names m hm none ?_
  rw [named, toList_accessorName]
  rfl

/-- A property is asked of `isEmpty()` under its two names, and else of the entries. -/
lemma resolve_property (types : HostTypes) (property : String) :
    MemberRequest.resolve types ⟨.map, .get, property, []⟩ =
      .ok (if property = "empty" ∨ property = "Empty" then ⟨.getter, "isEmpty", 1, [], none, 0⟩
        else ⟨.keyedGet, "get", 2, [.none], none, 2⟩) := by
  show MemberRequest.firstOf _ [info.preferred (accessorName "get" property) .getter [],
    info.preferred (accessorName "is" property) .getter [], info.preferred "get" .keyedGet [.str]] = _
  rw [preferred_get]
  split
  · next empty =>
    have accessor : accessorName "is" property = "isEmpty" := by
      rcases empty with rfl | rfl <;> decide
    rw [accessor]
    rfl
  · next other =>
    rw [preferred_is other]
    rfl

end MapMethods

/-! ### Answers -/

/-- What a property of a map reads. -/
def Dict.property (d : Dict Value) (name : String) : Value :=
  if name = "empty" ∨ name = "Empty" then .bool d.isEmpty else (d.get? name).getD .null

namespace Render

variable {env : RenderEnv} {s : RenderState}

/-- How a request ends that a member answers: a reason for which the member fails is an error that names it. -/
def called (type member : String) (p : Position) : Except String Value → RenderState → Outcome Value
  | .ok v, t => .ok v t
  | .error reason, t => .error (.failed (.at_ (.memberFailed type member reason) p)) t

/-- The request alone settles by which member it is answered. -/
lemma member_of_choice {receiver : Value} {kind : MemberUse} {name : String} {args : List Value}
    {result : Except String Value} {σ : Store} {choice : MemberChoice} (hs : s.Recalls env.types)
    (hq : (MemberRequest.of s.store receiver kind name args).resolve env.types = .ok choice)
    (hi : choice.invoke env.types receiver name args s.store = (result, σ)) (p : Position) (strict : Bool) :
    ∃ t, s.Turns env.types σ t ∧
      member receiver p kind name args strict env s = called (receiver.typeName σ) choice.member p result t := by
  obtain ⟨memory, choices, run, recalls⟩ := History.chosen_spec hs p (MemberRequest.of s.store receiver kind name args)
  refine ⟨{ s with store := σ, memory := memory, choices := choices }, ⟨rfl, recalls.memory, recalls.choices⟩, ?_⟩
  unfold member
  rw [bind_apply, ask_apply]
  dsimp only
  rw [bind_apply, run, hq]
  dsimp only
  rw [read_bind_apply, bind_apply, change_apply]
  dsimp only
  rw [hi]
  cases result <;> rfl

lemma member_of_resolve {receiver w : Value} {kind : MemberUse} {name : String} {args : List Value} {σ : Store}
    {choice : MemberChoice} (hs : s.Recalls env.types)
    (hq : (MemberRequest.of s.store receiver kind name args).resolve env.types = .ok choice)
    (hi : choice.invoke env.types receiver name args s.store = (.ok w, σ)) (p : Position) (strict : Bool) :
    ∃ t, member receiver p kind name args strict env s = .ok w t ∧ s.Turns env.types σ t := by
  obtain ⟨t, turns, run⟩ := member_of_choice hs hq hi p strict
  exact ⟨t, run, turns⟩

/-- A request that no member answers changes nothing, and is refused where references are strict. -/
lemma member_of_no_choice {receiver : Value} {kind : MemberUse} {name : String} {args : List Value} {f : NoChoice}
    (hs : s.Recalls env.types) (hq : (MemberRequest.of s.store receiver kind name args).resolve env.types = .error f)
    (p : Position) (strict : Bool) :
    ∃ t, s.Turns env.types s.store t ∧ member receiver p kind name args strict env s =
      if strict then .error (.failed (.at_ (.noMember f.message) p)) t else .ok .null t := by
  obtain ⟨memory, choices, run, recalls⟩ := History.chosen_spec hs p (MemberRequest.of s.store receiver kind name args)
  refine ⟨_, ⟨rfl, recalls⟩, ?_⟩
  unfold member
  rw [bind_apply, ask_apply]
  dsimp only
  rw [bind_apply, run, hq]
  cases strict <;> rfl

/-- A property of a map is the entry of its name; two names ask whether the map is empty. -/
theorem member_property (hs : s.Recalls env.types) (r : Ref) (name : String) (p : Position) (strict : Bool) :
    ∃ t, member (.map r) p .get name [] strict env s = .ok ((s.store.entries r).property name) t ∧
      s.Turns env.types s.store t := by
  have request : (MemberRequest.of s.store (.map r) .get name []).resolve env.types = _ :=
    MapMethods.resolve_property env.types name
  unfold Dict.property
  split
  · next empty =>
    rw [if_pos empty] at request
    exact member_of_resolve hs request rfl p strict
  · next other =>
    rw [if_neg other] at request
    exact member_of_resolve hs request rfl p strict

end Render

end Stencil
