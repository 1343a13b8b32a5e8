import Mathlib.Data.List.Forall2
import Stencil.Proofs.History.Related

/-!
# What members are called with

A choice that a request gets, made now or remembered, fits every call with arguments of the same kinds: each
parameter gets one value of its kind, and further arguments come as one list. Main statement:
`MemberChoice.invoke_passes`.
-/

namespace Stencil

/-! ### What a method is called with -/

/-- What a parameter makes of the argument that is given for it. -/
inductive ParamKind.Passes (σ : Store) : ParamKind → Value → Value → Prop
  | bool {b} : Passes σ .bool (.bool b) (.bool b)
  | int {n} : Passes σ .int (.int n) (.int n)
  | float {x} : Passes σ .float (.float x) (.float x)
  | widened {n} : Passes σ .float (.int n) (.float n.toFloat)
  | str {s} : Passes σ .str (.str s) (.str s)
  | list {r} : Passes σ .list (.list r) (.list r)
  | map {r} : Passes σ .map (.map r) (.map r)
  | host {r} : Passes σ (.host (σ.object r).type) (.object r) (.object r)
  | null {p} : p.admitsNull = true → Passes σ p .null .null
  | any {v} : Passes σ .any v v

/-- What several parameters make of as many arguments, in order. -/
inductive ParamKind.PassAll (σ : Store) : List ParamKind → List Value → List Value → Prop
  | nil : PassAll σ [] [] []
  | cons {p ps v vs w ws} : p.Passes σ v w → PassAll σ ps vs ws → PassAll σ (p :: ps) (v :: vs) (w :: ws)

/-- What a method is called with for some given values, and in which store: with what its parameters make of them
and, where it takes further ones, with a new list of what is made of these. -/
inductive Method.Receives (m : Method) (σ : Store) : List Value → List Value → Store → Prop
  | exactly {given vals} : m.rest = none → ParamKind.PassAll σ m.params given vals →
    Receives m σ given vals σ
  | packed {p given others vals items} : m.rest = some p → ParamKind.PassAll σ m.params given vals →
    List.Forall₂ (p.Passes σ) others items →
    Receives m σ (given ++ others) (vals ++ [(σ.newList items.toArray).1]) (σ.newList items.toArray).2

/-- A method that looks at nothing past its parameters: whatever stands there changes neither its answer nor the
store. -/
structure Method.KeepsToParams (m : Method) : Prop where
  fixed : m.rest = none
  blind : ∀ v args beyond σ, args.length = m.params.length → m.effect v (args ++ beyond) σ = m.effect v args σ

/-- The values of a keyed member come after its name. -/
def Route.isKeyed : Route → Bool
  | keyedGet | keyedPut => true
  | _ => false

/-! ### From scores to values -/

namespace ParamKind

variable {σ : Store}

/-- An argument whose kind scores is passed, after its conversion. -/
lemma passes_of_score {p : ParamKind} {v : Value} {n : Nat} {c : Conversion}
    (h : p.score? (v.kind σ) = some (n, c)) : p.Passes σ v (c.apply v) := by
  cases v with
  | null =>
    obtain ⟨admits, rfl⟩ : p.admitsNull = true ∧ c = .none := by
      cases p <;> simp_all [score?, Value.kind, admitsNull]
    exact .null admits
  | object r =>
    cases p with
    | host t =>
      simp only [score?, Value.kind] at h
      split at h
      · next ht =>
        cases h
        subst ht
        exact .host
      · cases h
    | any =>
      cases h
      exact .any
    | _ => cases h
  | _ => cases p <;> cases h <;> constructor

/-- Arguments whose kinds score are passed, after their conversions, whatever comes after them. -/
lemma passAll_of_score {ps : List ParamKind} {vs : List Value} {n : Nat} {cs : List Conversion}
    (h : scoreFixed? ps (vs.map (·.kind σ)) = some (n, cs)) :
    cs.length = vs.length ∧ PassAll σ ps vs (convertAll cs vs) := by
  induction ps generalizing vs n cs with
  | nil =>
    cases vs with
    | nil =>
      cases h
      exact ⟨rfl, .nil⟩
    | cons v vs => cases h
  | cons p ps ih =>
    cases vs with
    | nil => cases h
    | cons v vs =>
      obtain ⟨⟨m, c⟩, first, h⟩ := Option.bind_eq_some_iff.mp h
      obtain ⟨⟨k, cs'⟩, others, h⟩ := Option.bind_eq_some_iff.mp h
      cases h
      obtain ⟨length, passed⟩ := ih others
      exact ⟨congrArg Nat.succ length, .cons (passes_of_score first) passed⟩

/-- Further arguments whose kinds score are passed, after their conversions. -/
lemma forall_of_scoreRest {p : ParamKind} {vs : List Value} {n : Nat} {cs : List Conversion}
    (h : scoreRest? p (vs.map (·.kind σ)) = some (n, cs)) : List.Forall₂ (p.Passes σ) vs (convertAll cs vs) := by
  induction vs generalizing n cs with
  | nil =>
    cases h
    exact .nil
  | cons v vs ih =>
    obtain ⟨⟨m, c⟩, first, h⟩ := Option.bind_eq_some_iff.mp h
    obtain ⟨⟨k, cs'⟩, others, h⟩ := Option.bind_eq_some_iff.mp h
    cases h
    exact .cons (passes_of_score first) (ih others)

lemma PassAll.length {ps : List ParamKind} {vs ws : List Value} (h : PassAll σ ps vs ws) :
    vs.length = ps.length ∧ ws.length = ps.length := by
  induction h with
  | nil => exact ⟨rfl, rfl⟩
  | cons _ _ ih => exact ⟨congrArg Nat.succ ih.1, congrArg Nat.succ ih.2⟩

/-- A text that comes first stays what it is. -/
lemma PassAll.head {ps : List ParamKind} {s : String} {vs ws : List Value} (h : PassAll σ ps (.str s :: vs) ws) :
    ws.head? = some (.str s) := by
  cases h with
  | cons first _ =>
    cases first with
    | str => rfl
    | any => rfl

end ParamKind

/-- Each of the conversions is for one argument. -/
lemma convertAll_append {cs ds : List Conversion} {vs ws : List Value} (h : cs.length = vs.length) :
    convertAll (cs ++ ds) (vs ++ ws) = convertAll cs vs ++ convertAll ds ws := by
  induction cs generalizing vs with
  | nil =>
    obtain rfl := List.eq_nil_of_length_eq_zero h.symm
    rfl
  | cons c cs ih =>
    cases vs with
    | nil => cases h
    | cons v vs => exact congrArg (c.apply v :: ·) (ih (Nat.succ.inj h))

/-- The values that a method is called with by a choice, and the store in which it is called. -/
def MemberChoice.handed (p : MemberChoice) (given : List Value) (σ : Store) : List Value × Store :=
  let args := convertAll p.conversions given
  match p.restFrom with
  | none => (args, σ)
  | some n => (args.take n ++ [(σ.newList (args.drop n).toArray).1], (σ.newList (args.drop n).toArray).2)

/-- A choice is of the method and for the route that it was made for. -/
lemma Method.of_choice {m : Method} {i : Nat} {route : Route} {signature : List ValueKind} {p : MemberChoice}
    (h : m.choice? i route signature = some p) : p.route = route ∧ p.index = i := by
  obtain ⟨_, _, h⟩ := Option.bind_eq_some_iff.mp h
  cases hr : m.rest with
  | none =>
    simp only [hr] at h
    split at h
    · cases h
    · cases h
      exact ⟨rfl, rfl⟩
  | some r =>
    simp only [hr] at h
    obtain ⟨_, _, h⟩ := Option.bind_eq_some_iff.mp h
    cases h
    exact ⟨rfl, rfl⟩

/-- A choice of a method hands it what it receives for arguments of the kinds that it was chosen for. -/
lemma Method.receives_of_choice {m : Method} {i : Nat} {route : Route} {signature : List ValueKind}
    {p : MemberChoice} (h : m.choice? i route signature = some p) {given : List Value} {σ : Store}
    (hg : given.map (·.kind σ) = signature) :
    m.Receives σ given (p.handed given σ).1 (p.handed given σ).2 := by
  subst hg
  obtain ⟨⟨n, cs⟩, fixed, h⟩ := Option.bind_eq_some_iff.mp h
  have front : (given.map (·.kind σ)).take m.params.length =
      (given.take m.params.length).map (·.kind σ) := List.map_take.symm
  rw [front] at fixed
  obtain ⟨conversions, passed⟩ := ParamKind.passAll_of_score fixed
  cases hr : m.rest with
  | none =>
    simp only [hr] at h
    split at h
    · cases h
    · next short =>
      cases h
      rw [List.length_map] at short
      have all : given.take m.params.length = given := List.take_of_length_le (Nat.le_of_not_lt short)
      rw [all] at passed
      exact .exactly hr passed
  | some r =>
    simp only [hr] at h
    obtain ⟨⟨k, ds⟩, rest, h⟩ := Option.bind_eq_some_iff.mp h
    cases h
    have back : (given.map (·.kind σ)).drop m.params.length =
        (given.drop m.params.length).map (·.kind σ) := List.map_drop.symm
    rw [back] at rest
    have converted : convertAll (cs ++ ds) given = convertAll cs (given.take m.params.length) ++
        convertAll ds (given.drop m.params.length) := by
      conv_lhs => rw [← List.take_append_drop m.params.length given]
      exact convertAll_append conversions
    have length : (convertAll cs (given.take m.params.length)).length = m.params.length := passed.length.2
    have received := Receives.packed hr passed (ParamKind.forall_of_scoreRest rest)
    rw [List.take_append_drop] at received
    simp only [MemberChoice.handed, converted, List.take_left' length, List.drop_left' length]
    exact received

/-- A name that is given first is received first by a method with parameters. -/
lemma Method.Receives.head {m : Method} {σ σ' : Store} {s : String} {others vals : List Value}
    (h : m.Receives σ (.str s :: others) vals σ') (takes : m.params ≠ []) : vals.head? = some (.str s) := by
  generalize start : Value.str s :: others = given at h
  cases h with
  | exactly _ passed =>
    subst start
    exact passed.head
  | @packed _ front _ received _ _ passed _ =>
    cases front with
    | nil => exact absurd (List.eq_nil_of_length_eq_zero passed.length.1.symm) takes
    | cons v front =>
      obtain ⟨rfl, -⟩ := List.cons.inj start
      rw [List.head?_append, passed.head, Option.some_or]

/-! ### From requests to choices -/

namespace TypeInfo

variable {d : TypeInfo} {name : String} {route : Route} {signature : List ValueKind} {p : MemberChoice}

/-- The preferred choice is that of one of the methods. -/
lemma exists_of_preferred (h : d.preferred name route signature = .ok (some p)) :
    ∃ (m : Method) (i : Nat), d.methods[i]? = some m ∧ m.choice? i route signature = some p := by
  have listed : p ∈ d.choices name route signature := by
    have best : p ∈ MemberChoice.best (d.choices name route signature) := by
      unfold preferred at h
      split at h
      · cases h
      · next q hq =>
        cases h
        rw [hq]
        exact List.mem_singleton_self _
      · cases h
    exact List.mem_of_mem_filter best
  obtain ⟨⟨m, i⟩, hm, chosen⟩ := List.mem_filterMap.mp listed
  have overload := List.mem_of_mem_filter hm
  exact ⟨m, i, List.mem_zipIdx_iff_getElem?.mp overload, chosen⟩

end TypeInfo

/-- Which requests a member answers. -/
def Route.use : Route → MemberUse
  | method => .method
  | getter | keyedGet => .get
  | setter | keyedPut => .set

/-- The kinds of the values that a member is chosen for. -/
def Route.signature : Route → List ValueKind → List ValueKind
  | method, ks | setter, ks => ks
  | getter, _ => []
  | keyedGet, _ => [.str]
  | keyedPut, ks => .str :: ks

namespace MemberRequest

variable {types : HostTypes} {q : MemberRequest} {p : MemberChoice}

lemma mem_of_firstOf {failure : NoChoice} {xs : List (Except NoChoice (Option MemberChoice))}
    (h : firstOf failure xs = .ok p) : .ok (some p) ∈ xs := by
  fun_induction firstOf failure xs with
  | case1 => cases h
  | case2 => cases h
  | case3 => 
    cases h
    exact List.mem_cons_self
  | case4 rest ih => exact List.mem_cons_of_mem _ (ih h)

/-- A choice is the preferred one of some name, for the values that its member gets. -/
lemma exists_of_resolve (h : q.resolve types = .ok p) :
    ∃ d name route, q.receiver.info? types = some d ∧ route.use = q.kind ∧
      d.preferred name route (route.signature q.signature) = .ok (some p) := by
  unfold resolve at h
  split at h
  · cases h
  next d hd =>
  refine ⟨d, ?_⟩
  simp only [hd, true_and]
  unfold resolveIn at h
  split at h
  · next kind =>
    have called := mem_of_firstOf h
    rw [List.mem_singleton] at called
    exact ⟨q.name, .method, kind.symm, called.symm⟩
  · next kind =>
    have tried := mem_of_firstOf h
    simp only [List.mem_cons, List.not_mem_nil, or_false] at tried
    obtain got | asked | keyed := tried
    · exact ⟨_, .getter, kind.symm, got.symm⟩
    · exact ⟨_, .getter, kind.symm, asked.symm⟩
    · exact ⟨_, .keyedGet, kind.symm, keyed.symm⟩
  · next kind =>
    have tried := mem_of_firstOf h
    simp only [List.mem_cons, List.not_mem_nil, or_false] at tried
    obtain assigned | keyed := tried
    · exact ⟨_, .setter, kind.symm, assigned.symm⟩
    · exact ⟨_, .keyedPut, kind.symm, keyed.symm⟩

end MemberRequest

/-! ### What is remembered -/

/-- What may be remembered of choices for the same types: by a memory that begins empty and serves any number of
requests and renders, and at the places of the render that is going on. -/
inductive Remembered (types : HostTypes) : ChoiceMemory → List (ChoiceSite × MemberChoice) → Prop
  | nothing : Remembered types .empty []
  | asked {i cs} (q) : Remembered types i cs → Remembered types (i.resolve types q).2 cs
  | render {i cs} : Remembered types i cs → Remembered types i []
  | chosen {env s place q answer s'} : env.types = types → Remembered types s.memory s.choices →
    Render.chosen place q env s = .ok answer s' → Remembered types s'.memory s'.choices

/-- How a request gets a choice: anew, from what a memory answers, or from what is remembered at its place. -/
inductive Obtained (types : HostTypes) (q : MemberRequest) (p : MemberChoice) : Prop
  | fresh : q.resolve types = .ok p → Obtained types q p
  | memory {i cs} : Remembered types i cs → (i.resolve types q).1 = .ok p → Obtained types q p
  | place {env s place s'} : env.types = types → Remembered types s.memory s.choices →
    Render.chosen place q env s = .ok (.ok p) s' → Obtained types q p

variable {types : HostTypes}

/-- Nothing wrong is remembered. -/
lemma Remembered.sound {i : ChoiceMemory} {cs : List (ChoiceSite × MemberChoice)} (h : Remembered types i cs) :
    i.Sound types ∧ ∀ site p, cs.lookup site = some p → site.request.resolve types = .ok p := by
  induction h with
  | nothing => exact ⟨ChoiceMemory.sound_empty types, fun _ _ h => nomatch h⟩
  | asked q _ ih => exact ⟨ih.1.resolve q, ih.2⟩
  | render _ ih => exact ⟨ih.1, fun _ _ h => nomatch h⟩
  | chosen same _ run ih =>
    subst same
    obtain ⟨memory, choices, run', recalls⟩ := History.chosen_spec ⟨ih.1, ih.2⟩ _ _
    rw [run'] at run
    cases run
    exact ⟨recalls.memory, recalls.choices⟩

/-- However a choice is obtained, it is the one that the request gets anew. -/
lemma Obtained.resolve {q : MemberRequest} {p : MemberChoice} (h : Obtained types q p) : q.resolve types = .ok p := by
  cases h with
  | fresh h => exact h
  | memory remembered answer => rwa [ChoiceMemory.resolve_fst remembered.sound.1] at answer
  | place same remembered run =>
    subst same
    obtain ⟨memory, choices, run', -⟩ := History.chosen_spec ⟨remembered.sound.1, remembered.sound.2⟩ _ _
    rw [run'] at run
    cases answer : q.resolve _ with
    | error f =>
      rw [answer] at run
      cases run
    | ok r =>
      rw [answer] at run
      cases run
      rfl

/-! ### Built-in methods -/

namespace Method.KeepsToParams

variable {name : String}

lemma none {e : Effect} (h : ∀ v args σ, e v args σ = e v [] σ) : KeepsToParams ⟨name, [], .none, e⟩ where
  fixed := rfl
  blind v args beyond σ _ := (h v (args ++ beyond) σ).trans (h v args σ).symm

lemma one {k : ParamKind} {e : Effect} (h : ∀ v a beyond σ, e v (a :: beyond) σ = e v [a] σ) :
    KeepsToParams ⟨name, [k], .none, e⟩ where
  fixed := rfl
  blind v args beyond σ length := by
    match args, length with
    | [a], _ => exact h v a beyond σ

lemma two {k l : ParamKind} {e : Effect} (h : ∀ v a b beyond σ, e v (a :: b :: beyond) σ = e v [a, b] σ) :
    KeepsToParams ⟨name, [k, l], .none, e⟩ where
  fixed := rfl
  blind v args beyond σ length := by
    match args, length with
    | [a, b], _ => exact h v a b beyond σ

end Method.KeepsToParams

lemma ScalarMethods.keepsToParams_booleans : ∀ m ∈ ScalarMethods.booleans, m.KeepsToParams := by
  simp only [ScalarMethods.booleans, List.forall_mem_cons]
  exact ⟨.none fun _ _ _ => rfl, .none fun _ _ _ => rfl, .one fun _ _ _ _ => rfl, List.forall_mem_nil _⟩

lemma ScalarMethods.keepsToParams_integers : ∀ m ∈ ScalarMethods.integers, m.KeepsToParams := by
  simp only [ScalarMethods.integers, List.forall_mem_cons]
  exact ⟨.none fun _ _ _ => rfl, .none fun _ _ _ => rfl, .none fun _ _ _ => rfl, .none fun _ _ _ => rfl,
    .one fun _ _ _ _ => rfl, .one fun _ _ _ _ => rfl, List.forall_mem_nil _⟩

lemma ScalarMethods.keepsToParams_floats : ∀ m ∈ ScalarMethods.floats, m.KeepsToParams := by
  simp only [ScalarMethods.floats, List.forall_mem_cons]
  exact ⟨.none fun _ _ _ => rfl, .none fun _ _ _ => rfl, .none fun _ _ _ => rfl, .none fun _ _ _ => rfl,
    .none fun _ _ _ => rfl, .none fun _ _ _ => rfl, .one fun _ _ _ _ => rfl, .one fun _ _ _ _ => rfl,
    List.forall_mem_nil _⟩

lemma StringMethods.keepsToParams_all : ∀ m ∈ StringMethods.all, m.KeepsToParams := by
  simp only [StringMethods.all, List.forall_mem_cons]
  exact ⟨.none fun _ _ _ => rfl, .none fun _ _ _ => rfl, .none fun _ _ _ => rfl, .none fun _ _ _ => rfl,
    .none fun _ _ _ => rfl, .none fun _ _ _ => rfl, .one fun _ _ _ _ => rfl, .one fun _ _ _ _ => rfl,
    .one fun _ _ _ _ => rfl, .one fun _ _ _ _ => rfl, .two fun _ _ _ _ _ => rfl, .one fun _ _ _ _ => rfl,
    .two fun _ _ _ _ _ => rfl, .one fun _ _ _ _ => rfl, .two fun _ _ _ _ _ => rfl, .one fun _ _ _ _ => rfl,
    .one fun _ _ _ _ => rfl, .one fun _ _ _ _ => rfl, .one fun _ _ _ _ => rfl, .one fun _ _ _ _ => rfl,
    List.forall_mem_nil _⟩

lemma ListMethods.keepsToParams_all : ∀ m ∈ ListMethods.all, m.KeepsToParams := by
  simp only [ListMethods.all, List.forall_mem_cons]
  exact ⟨.none fun _ _ _ => rfl, .none fun _ _ _ => rfl, .one fun _ _ _ _ => rfl, .one fun _ _ _ _ => rfl,
    .one fun _ _ _ _ => rfl, .one fun _ _ _ _ => rfl, .two fun _ _ _ _ _ => rfl, .two fun _ _ _ _ _ => rfl,
    .one fun _ _ _ _ => rfl, .one fun _ _ _ _ => rfl, .one fun _ _ _ _ => rfl, .none fun _ _ _ => rfl,
    .two fun _ _ _ _ _ => rfl, List.forall_mem_nil _⟩

lemma MapMethods.keepsToParams_all : ∀ m ∈ MapMethods.all, m.KeepsToParams := by
  simp only [MapMethods.all, List.forall_mem_cons]
  exact ⟨.none fun _ _ _ => rfl, .none fun _ _ _ => rfl, .one fun _ _ _ _ => rfl, .two fun _ _ _ _ _ => rfl,
    .one fun _ _ _ _ => rfl, .one fun _ _ _ _ => rfl, .one fun _ _ _ _ => rfl, .none fun _ _ _ => rfl,
    .none fun _ _ _ => rfl, .none fun _ _ _ => rfl, List.forall_mem_nil _⟩

/-- The methods of the built-in values look at nothing past their parameters. -/
lemma TypeInfo.keepsToParams_of_builtin {k : ValueKind} {d : TypeInfo} (h : k.info? types = some d)
    (builtin : ∀ type, k ≠ .host type) : ∀ m ∈ d.methods, m.KeepsToParams := by
  cases k with
  | null => cases h
  | bool =>
    cases h
    exact ScalarMethods.keepsToParams_booleans
  | int =>
    cases h
    exact ScalarMethods.keepsToParams_integers
  | float =>
    cases h
    exact ScalarMethods.keepsToParams_floats
  | str =>
    cases h
    exact StringMethods.keepsToParams_all
  | list =>
    cases h
    exact ListMethods.keepsToParams_all
  | map =>
    cases h
    exact MapMethods.keepsToParams_all
  | host type => exact absurd rfl (builtin type)

/-! ### Calls -/

namespace MemberChoice

variable {σ : Store} {q : MemberRequest} {p : MemberChoice}

/-- A call of a member of a value is one of a method, with what its arguments are after their conversions. -/
lemma invoke_eq {receiver : Value} {d : TypeInfo} {m : Method} (known : (receiver.kind σ).info? types = some d)
    (member : d.methods[p.index]? = some m) (name : String) (args : List Value) :
    p.invoke types receiver name args σ =
      m.effect receiver (p.handed (p.arguments name args) σ).1 (p.handed (p.arguments name args) σ).2 := by
  simp only [invoke, known, member, handed]
  cases p.restFrom <;> rfl

/-- The values that a member gets are of the kinds that it was chosen for. -/
lemma kinds_of_arguments {name : String} {args : List Value} (reads : p.route = .getter → args = []) :
    (p.arguments name args).map (·.kind σ) = p.route.signature (args.map (·.kind σ)) := by
  unfold arguments
  cases h : p.route with
  | getter =>
    rw [reads h]
    rfl
  | _ => rfl

/-- **A call fits the method that it reaches.** However the choice for a request was obtained, and with whatever
arguments of the same kinds (none, for a read) and whatever receiver of the same type it is used: the method
receives what its parameters make of the values given, and of a keyed member the first one is the name. The
methods of built-in values never look past what they receive. -/
theorem invoke_passes (obtained : Obtained types q p) {receiver : Value} {args : List Value}
    (same : MemberRequest.of σ receiver q.kind q.name args = q) (reads : q.kind = .get → args = []) :
    ∃ d m vals σ', q.receiver.info? types = some d ∧ d.methods[p.index]? = some m ∧
      p.invoke types receiver q.name args σ = m.effect receiver vals σ' ∧
      m.Receives σ (p.arguments q.name args) vals σ' ∧
      (p.route.isKeyed = true → (p.arguments q.name args).head? = some (.str q.name) ∧
        (m.params ≠ [] → vals.head? = some (.str q.name))) ∧
      ((∀ type, q.receiver ≠ .host type) → m.KeepsToParams) := by
  obtain ⟨d, name, route, known, use, preferred⟩ := q.exists_of_resolve obtained.resolve
  obtain ⟨m, i, member, chosen⟩ := TypeInfo.exists_of_preferred preferred
  have requested : args.map (·.kind σ) = q.signature := congrArg MemberRequest.signature same
  have receives : receiver.kind σ = q.receiver := congrArg MemberRequest.receiver same
  -- The choice has the route that it was made for, so the values given are of the kinds that were scored.
  obtain ⟨rfl, index⟩ := Method.of_choice chosen
  have kinds : (p.arguments q.name args).map (·.kind σ) = p.route.signature q.signature := by
    rw [← requested]
    refine kinds_of_arguments fun getter => reads ?_
    rw [← use, getter]
    rfl
  have received := Method.receives_of_choice chosen kinds
  rw [← index] at member
  have call := invoke_eq (receives ▸ known) member q.name args
  refine ⟨d, m, _, _, known, member, call, received, fun keyed => ?_, fun builtin =>
    TypeInfo.keepsToParams_of_builtin known builtin m (List.mem_of_getElem? member)⟩
  obtain ⟨others, given⟩ : ∃ others, p.arguments q.name args = .str q.name :: others := by
    unfold arguments
    cases h : p.route with
    | keyedGet => exact ⟨[], rfl⟩
    | keyedPut => exact ⟨args, rfl⟩
    | _ =>
      rw [h] at keyed
      cases keyed
  rw [given] at received ⊢
  exact ⟨rfl, fun some => received.head some⟩

/-- A host method with one parameter and further ones, as it was chosen for another call. -/
theorem invoke_passes_remembered :
    let types : HostTypes := fun type =>
      some ⟨type, [⟨"join", [.float], some .any, fun _ args σ => (.ok (args.headD .null), σ)⟩]⟩
    let q : MemberRequest := ⟨.host "Pen", .method, "join", [.int, .str]⟩
    let p : MemberChoice := ⟨.method, "join", 0, [.intToFloat, .none], some 1, 4⟩
    let σ : Store := ⟨#[.object ⟨"Pen", ∅, "pen", "Pen", none, none⟩]⟩
    let args : List Value := [.int 2, .str "ink"]
    (Obtained types q p ∧ MemberRequest.of σ (.object ⟨0⟩) q.kind q.name args = q ∧
        (q.kind = .get → args = [])) ∧
      ∃ d m vals σ', q.receiver.info? types = some d ∧ d.methods[p.index]? = some m ∧
        p.invoke types (.object ⟨0⟩) q.name args σ = m.effect (.object ⟨0⟩) vals σ' ∧
        m.Receives σ (p.arguments q.name args) vals σ' ∧
        (p.route.isKeyed = true → (p.arguments q.name args).head? = some (.str q.name) ∧
          (m.params ≠ [] → vals.head? = some (.str q.name))) ∧
        ((∀ type, q.receiver ≠ .host type) → m.KeepsToParams) := by
  intro types q p σ args
  have obtained : Obtained types q p := .memory (.asked q .nothing) rfl
  have same : MemberRequest.of σ (.object ⟨0⟩) q.kind q.name args = q := rfl
  have reads : q.kind = .get → args = [] := fun h => nomatch h
  exact ⟨⟨obtained, same, reads⟩, invoke_passes obtained same reads⟩

end MemberChoice

end Stencil
