import Mathlib.Data.List.Induction
import Mathlib.Data.List.Nodup
import Mathlib.Data.List.Perm.Basic
import Mathlib.Tactic.Lemma
import Stencil.Dispatch.Choice

/-!
# Which overload is preferred

Overloads that accept some arguments are compared by their scores, and of equal ones the one with a fixed number of
parameters is above one that takes further arguments. Main statement: `TypeInfo.prefers_strictly_best`, the preferred
overload is the one above all others, wherever it stands among them.
-/

namespace Stencil

/-! ### Candidates -/

/-- What an argument that fits counts for a parameter. -/
def ParamKind.score (p : ParamKind) (k : ValueKind) : Nat := ((p.score? k).map Prod.fst).getD 0

def ParamKind.conversion (p : ParamKind) (k : ValueKind) : Conversion := ((p.score? k).map Prod.snd).getD .none

namespace Method

/-- A method accepts arguments if there is one for each parameter, and more only if it takes further ones, and each
of them fits. -/
structure Accepts (m : Method) (signature : List ValueKind) : Prop where
  enough : m.params.length ≤ signature.length
  noMore : m.rest = none → signature.length ≤ m.params.length
  fits : ∀ x ∈ m.params.zip signature, (x.1.score? x.2).isSome
  restFits : ∀ p ∈ m.rest, ∀ k ∈ signature.drop m.params.length, (p.score? k).isSome

/-- The scores of the arguments that parameters get, and one for every further argument. -/
def score (m : Method) (signature : List ValueKind) : Nat :=
  (List.zipWith ParamKind.score m.params signature).foldr (· + ·) 0 + (signature.length - m.params.length)

/-- How a method is called with arguments that it accepts. -/
def plan (m : Method) (index : Nat) (route : Route) (signature : List ValueKind) : MemberChoice where
  route := route
  member := m.name
  index := index
  conversions := List.zipWith ParamKind.conversion m.params signature ++
    m.rest.toList.flatMap fun p => (signature.drop m.params.length).map p.conversion
  restFrom := m.rest.map fun _ => m.params.length
  score := m.score signature

/-- The order of candidates: by score, and then the ones with a fixed number of parameters above the others. -/
def Above (signature : List ValueKind) (m m' : Method) : Prop :=
  m'.score signature < m.score signature ∨
    m'.score signature = m.score signature ∧ m.rest = none ∧ m'.rest ≠ none

end Method

lemma ParamKind.score?_eq_some_iff {p : ParamKind} {k : ValueKind} {n : Nat} {c : Conversion} :
    p.score? k = some (n, c) ↔ (p.score? k).isSome ∧ n = p.score k ∧ c = p.conversion k := by
  unfold score conversion
  cases p.score? k with
  | none => exact ⟨nofun, nofun⟩
  | some found =>
    obtain ⟨m, d⟩ := found
    constructor
    · intro h
      cases h
      exact ⟨rfl, rfl, rfl⟩
    · rintro ⟨-, rfl, rfl⟩
      rfl

/-- Fixed parameters score the arguments that they get when there is one that fits for each of them. -/
lemma scoreFixed?_eq_some_iff {ps : List ParamKind} {ks : List ValueKind} {r : Nat × List Conversion} :
    scoreFixed? ps ks = some r ↔ ps.length = ks.length ∧ (∀ x ∈ ps.zip ks, (x.1.score? x.2).isSome) ∧
      r = ((List.zipWith ParamKind.score ps ks).foldr (· + ·) 0, List.zipWith ParamKind.conversion ps ks) := by
  induction ps generalizing ks r with
  | nil =>
    cases ks with
    | nil => exact ⟨fun h => ⟨rfl, nofun, (Option.some.inj h).symm⟩, fun h => congrArg some h.2.2.symm⟩
    | cons k ks => exact ⟨nofun, nofun⟩
  | cons p ps ih =>
    cases ks with
    | nil => exact ⟨nofun, nofun⟩
    | cons k ks =>
      rw [List.zip_cons_cons, List.forall_mem_cons]
      constructor
      · intro h
        obtain ⟨⟨n, c⟩, first, h⟩ := Option.bind_eq_some_iff.mp h
        obtain ⟨others, rest, h⟩ := Option.bind_eq_some_iff.mp h
        obtain ⟨fits, rfl, rfl⟩ := ParamKind.score?_eq_some_iff.mp first
        obtain ⟨length, othersFit, rfl⟩ := ih.mp rest
        exact ⟨congrArg Nat.succ length, ⟨fits, othersFit⟩, (Option.some.inj h).symm⟩
      · rintro ⟨length, ⟨fits, othersFit⟩, rfl⟩
        have first := ParamKind.score?_eq_some_iff.mpr ⟨fits, rfl, rfl⟩
        have rest := ih.mpr ⟨Nat.succ.inj length, othersFit, rfl⟩
        simp only [scoreFixed?, first, rest]
        rfl

/-- A parameter for further arguments scores them when each of them fits. -/
lemma scoreRest?_eq_some_iff {p : ParamKind} {ks : List ValueKind} {r : Nat × List Conversion} :
    scoreRest? p ks = some r ↔ (∀ k ∈ ks, (p.score? k).isSome) ∧ r = (ks.length, ks.map p.conversion) := by
  induction ks generalizing r with
  | nil => exact ⟨fun h => ⟨nofun, (Option.some.inj h).symm⟩, fun h => congrArg some h.2.symm⟩
  | cons k ks ih =>
    rw [List.forall_mem_cons]
    have count : 1 + ks.length = (k :: ks).length := Nat.add_comm _ _
    constructor
    · intro h
      obtain ⟨⟨n, c⟩, first, h⟩ := Option.bind_eq_some_iff.mp h
      obtain ⟨others, rest, h⟩ := Option.bind_eq_some_iff.mp h
      obtain ⟨fits, -, rfl⟩ := ParamKind.score?_eq_some_iff.mp first
      obtain ⟨othersFit, rfl⟩ := ih.mp rest
      rw [← count]
      exact ⟨⟨fits, othersFit⟩, (Option.some.inj h).symm⟩
    · rintro ⟨⟨fits, othersFit⟩, rfl⟩
      have first := ParamKind.score?_eq_some_iff.mpr ⟨fits, rfl, rfl⟩
      have rest := ih.mpr ⟨othersFit, rfl⟩
      simp only [scoreRest?, first, rest]
      rw [← count]
      rfl

namespace Method

variable {m : Method} {i : Nat} {route : Route} {signature : List ValueKind} {p : MemberChoice}

/-- Parameters are paired with the first arguments, whatever comes after these. -/
lemma zipWith_take {α : Type} (f : ParamKind → ValueKind → α) (ps : List ParamKind) (ks : List ValueKind) :
    List.zipWith f ps (ks.take ps.length) = List.zipWith f ps ks := by
  induction ps generalizing ks with
  | nil => rfl
  | cons p ps ih =>
    cases ks with
    | nil => rfl
    | cons k ks => exact congrArg (f p k :: ·) (ih ks)

/-- The fixed parameters of a method score the first of some arguments. -/
lemma scoreFixed?_take_eq_some_iff {r : Nat × List Conversion} :
    scoreFixed? m.params (signature.take m.params.length) = some r ↔
      m.params.length ≤ signature.length ∧ (∀ x ∈ m.params.zip signature, (x.1.score? x.2).isSome) ∧
        r = ((List.zipWith ParamKind.score m.params signature).foldr (· + ·) 0,
          List.zipWith ParamKind.conversion m.params signature) := by
  have pairs : m.params.zip (signature.take m.params.length) = m.params.zip signature := zipWith_take Prod.mk _ _
  have enough : m.params.length = (signature.take m.params.length).length ↔ m.params.length ≤ signature.length := by
    rw [List.length_take]
    omega
  rw [scoreFixed?_eq_some_iff, zipWith_take, zipWith_take, pairs, enough]

/-- A method is a choice for exactly the arguments that it accepts. -/
theorem choice?_eq_some_iff :
    m.choice? i route signature = some p ↔ m.Accepts signature ∧ p = m.plan i route signature := by
  unfold choice?
  simp only [bind, Option.bind_eq_some_iff, scoreFixed?_take_eq_some_iff]
  cases hr : m.rest with
  | none =>
    have exactly (h : signature.length ≤ m.params.length) :
        signature.length - m.params.length = 0 := Nat.sub_eq_zero_of_le h
    constructor
    · rintro ⟨_, ⟨enough, fits, rfl⟩, h⟩
      dsimp only at h
      split at h
      · cases h
      · next noMore =>
        have noMore := Nat.le_of_not_lt noMore
        refine ⟨⟨enough, fun _ => noMore, fits, by simp [hr]⟩, ?_⟩
        rw [← Option.some.inj h]
        simp [plan, score, hr, exactly noMore]
    · rintro ⟨⟨enough, noMore, fits, -⟩, rfl⟩
      refine ⟨_, ⟨enough, fits, rfl⟩, ?_⟩
      simp [plan, score, hr, exactly (noMore hr), Nat.not_lt.mpr (noMore hr)]
  | some r =>
    simp only [Option.bind_eq_some_iff, scoreRest?_eq_some_iff]
    constructor
    · rintro ⟨_, ⟨enough, fits, rfl⟩, _, ⟨restFits, rfl⟩, h⟩
      refine ⟨⟨enough, by simp [hr], fits, by simpa [hr] using restFits⟩, ?_⟩
      rw [← Option.some.inj h]
      simp [plan, score, hr]
    · rintro ⟨⟨enough, -, fits, restFits⟩, rfl⟩
      refine ⟨_, ⟨enough, fits, rfl⟩, _, ⟨restFits r hr, rfl⟩, ?_⟩
      simp [plan, score, hr]

/-- What a candidate is ranked by says which of two candidates is above the other. -/
lemma above_iff {m' : Method} {i' : Nat} :
    m.Above signature m' ↔ (m'.plan i' route signature).rank < (m.plan i route signature).rank := by
  unfold Above MemberChoice.rank plan
  dsimp only
  cases m.rest <;> cases m'.rest <;> simp <;> omega

end Method

/-! ### Ranked choices -/

namespace MemberChoice

/-- A choice without the place of its method. -/
def unplaced (p : MemberChoice) : MemberChoice := { p with index := 0 }

/-- Whether a choice takes the place of the one that was the best before it. -/
def beats (q p : MemberChoice) : Bool :=
  p.score < q.score || (q.score == p.score && q.restFrom.isNone && p.restFrom.isSome)

def ties (q p : MemberChoice) : Bool := q.score == p.score && q.restFrom.isNone == p.restFrom.isNone

/-- What a pass over choices keeps: the best one so far, and whether another one is as good. -/
def consider : Option (MemberChoice × Bool) → MemberChoice → Option (MemberChoice × Bool)
  | none, q => some (q, false)
  | some (p, tied), q => if q.beats p then some (q, false) else some (p, tied || q.ties p)

/-- One pass over choices. -/
def scan (cs : List MemberChoice) : Option (MemberChoice × Bool) := cs.foldl consider none

lemma beats_iff {p q : MemberChoice} : q.beats p = true ↔ p.rank < q.rank := by
  unfold beats rank
  cases p.restFrom <;> cases q.restFrom <;> simp <;> omega

lemma ties_iff {p q : MemberChoice} : q.ties p = true ↔ p.rank = q.rank := by
  unfold ties rank
  cases p.restFrom <;> cases q.restFrom <;> simp <;> omega

/-- The highest rank. -/
def top (cs : List MemberChoice) : Nat := (cs.map rank).foldl max 0

lemma top_concat (cs : List MemberChoice) (q : MemberChoice) : top (cs ++ [q]) = max (top cs) q.rank := by
  unfold top
  rw [List.map_append, List.foldl_append]
  rfl

lemma rank_le_top {cs : List MemberChoice} {p : MemberChoice} (h : p ∈ cs) : p.rank ≤ top cs := by
  induction cs using List.reverseRecOn with
  | nil => cases h
  | append_singleton cs q ih =>
    rw [top_concat]
    rcases List.mem_append.mp h with h | h
    · exact Nat.le_trans (ih h) (Nat.le_max_left _ _)
    · obtain rfl := List.mem_singleton.mp h
      exact Nat.le_max_right _ _

lemma exists_rank_eq_top {cs : List MemberChoice} (h : cs ≠ []) : ∃ p ∈ cs, p.rank = top cs := by
  induction cs using List.reverseRecOn with
  | nil => exact absurd rfl h
  | append_singleton cs q ih =>
    rw [top_concat]
    rcases Nat.lt_or_ge q.rank (top cs) with lower | high
    · have some : cs ≠ [] := by
        rintro rfl
        exact absurd lower (Nat.not_lt_zero _)
      obtain ⟨p, hp, rank⟩ := ih some
      exact ⟨p, List.mem_append_left _ hp, rank.trans (Nat.max_eq_left (Nat.le_of_lt lower)).symm⟩
    · exact ⟨q, List.mem_append_right _ (List.mem_singleton_self q), (Nat.max_eq_right high).symm⟩

lemma rank_of_mem_best {cs : List MemberChoice} {p : MemberChoice} (h : p ∈ best cs) : p.rank = top cs :=
  beq_iff_eq.mp (List.mem_filter.mp h).2

/-- The best choices are those that none is above. -/
lemma mem_best_iff {cs : List MemberChoice} {p : MemberChoice} :
    p ∈ best cs ↔ p ∈ cs ∧ ∀ q ∈ cs, q.rank ≤ p.rank := by
  constructor
  · intro h
    exact ⟨List.mem_of_mem_filter h, fun q hq => rank_of_mem_best h ▸ rank_le_top hq⟩
  · rintro ⟨hp, highest⟩
    obtain ⟨q, hq, rank⟩ := exists_rank_eq_top (List.ne_nil_of_mem hp)
    have same : p.rank = top cs := Nat.le_antisymm (rank_le_top hp) (rank ▸ highest q hq)
    exact List.mem_filter.mpr ⟨hp, beq_iff_eq.mpr same⟩

lemma best_eq_nil_iff {cs : List MemberChoice} : best cs = [] ↔ cs = [] := by
  constructor
  · intro h
    by_contra some
    obtain ⟨p, hp, rank⟩ := exists_rank_eq_top some
    exact List.filter_eq_nil_iff.mp h p hp (beq_iff_eq.mpr rank)
  · rintro rfl
    rfl

lemma nodup_best {cs : List MemberChoice} (h : cs.Nodup) : (best cs).Nodup := h.filter _

/-- The only best one of different choices is above the others. -/
lemma best_eq_singleton_iff {cs : List MemberChoice} (h : cs.Nodup) {p : MemberChoice} :
    best cs = [p] ↔ p ∈ cs ∧ ∀ q ∈ cs, q ≠ p → q.rank < p.rank := by
  constructor
  · intro alone
    obtain ⟨mem, highest⟩ := mem_best_iff.mp (alone ▸ List.mem_singleton_self p)
    refine ⟨mem, fun q hq apart => Nat.lt_of_le_of_ne (highest q hq) fun same => apart ?_⟩
    have best : q ∈ best cs := mem_best_iff.mpr ⟨hq, fun r hr => Nat.le_trans (highest r hr) (Nat.le_of_eq same.symm)⟩
    exact List.mem_singleton.mp (alone ▸ best)
  · rintro ⟨mem, lower⟩
    have highest : p ∈ best cs := by
      refine mem_best_iff.mpr ⟨mem, fun q hq => ?_⟩
      rcases eq_or_ne q p with rfl | apart
      · exact Nat.le_refl _
      · exact Nat.le_of_lt (lower q hq apart)
    by_contra other
    rcases ((nodup_best h).ne_singleton_iff p).mp other with none | ⟨q, hq, apart⟩
    · exact List.not_mem_nil (none ▸ highest)
    · obtain ⟨memq, highest'⟩ := mem_best_iff.mp hq
      exact absurd (lower q memq apart) (Nat.not_lt.mpr (highest' p mem))

lemma one_lt_length_best_iff {cs : List MemberChoice} (h : cs.Nodup) :
    1 < (best cs).length ↔ ∃ p ∈ best cs, ∃ q ∈ best cs, p ≠ q := by
  match best cs, nodup_best h with
  | [], _ => simp
  | [p], _ => simp
  | p :: q :: ps, distinct =>
    have apart : p ≠ q := List.ne_of_not_mem_cons (List.nodup_cons.mp distinct).1
    exact ⟨fun _ => ⟨p, by simp, q, by simp, apart⟩, fun _ => by simp⟩

/-- The best of choices and one more. -/
lemma best_concat (cs : List MemberChoice) (q : MemberChoice) :
    best (cs ++ [q]) =
      if top cs < q.rank then [q] else if q.rank = top cs then best cs ++ [q] else best cs := by
  show (cs ++ [q]).filter (·.rank == top (cs ++ [q])) = _
  rw [top_concat, List.filter_append]
  split
  · next higher =>
    have beaten : ∀ p ∈ cs, ¬(p.rank == q.rank) = true := fun p hp same =>
      absurd (rank_le_top hp) (Nat.not_le.mpr (beq_iff_eq.mp same ▸ higher))
    rw [Nat.max_eq_right (Nat.le_of_lt higher), List.filter_eq_nil_iff.mpr beaten]
    simp
  · next lower =>
    rw [Nat.max_eq_left (Nat.le_of_not_lt lower)]
    split
    · next same => simp [same, best, top]
    · next other => simpa [best, top] using other

/-- One pass finds the first of the best choices, and whether there are others. -/
theorem scan_eq (cs : List MemberChoice) :
    scan cs = (best cs).head?.map fun p => (p, decide (1 < (best cs).length)) := by
  induction cs using List.reverseRecOn with
  | nil => rfl
  | append_singleton cs q ih =>
    have step : scan (cs ++ [q]) = consider (scan cs) q := List.foldl_append ..
    rw [step, ih, best_concat]
    cases hb : best cs with
    | nil =>
      obtain rfl := best_eq_nil_iff.mp hb
      rcases Nat.eq_zero_or_pos q.rank with zero | pos
      · simp [top, zero, consider]
      · simp [top, pos, consider]
    | cons p ps =>
      have rank : p.rank = top cs := rank_of_mem_best (hb ▸ List.mem_cons_self ..)
      rw [← rank]
      by_cases higher : p.rank < q.rank
      · simp [consider, beats_iff.mpr higher, higher]
      · have stays : q.beats p = false := Bool.eq_false_iff.mpr (mt beats_iff.mp higher)
        by_cases same : q.rank = p.rank
        · simp [consider, stays, ties_iff.mpr same.symm, same]
        · have apart : q.ties p = false := Bool.eq_false_iff.mpr fun h => same (ties_iff.mp h).symm
          simp [consider, stays, apart, higher, same]

/-- What does not depend on places finds the same best choices wherever they stand. -/
lemma perm_best {cs ds : List MemberChoice} (h : (cs.map unplaced).Perm (ds.map unplaced)) :
    ((best cs).map unplaced).Perm ((best ds).map unplaced) := by
  have ranks (cs : List MemberChoice) : (cs.map unplaced).map rank = cs.map rank := by
    rw [List.map_map]
    rfl
  have same : top cs = top ds := by
    unfold top
    rw [← ranks cs, ← ranks ds]
    exact (h.map rank).foldl_eq 0
  have kept (cs : List MemberChoice) (n : Nat) :
      (cs.filter (·.rank == n)).map unplaced = (cs.map unplaced).filter (·.rank == n) := by
    rw [List.filter_map]
    rfl
  show ((cs.filter (·.rank == top cs)).map unplaced).Perm ((ds.filter (·.rank == top ds)).map unplaced)
  rw [kept, kept, same]
  exact h.filter _

end MemberChoice

/-! ### Overloads -/

namespace TypeInfo

open MemberChoice (best unplaced scan)

variable {d d' : TypeInfo} {name : String} {route : Route} {signature : List ValueKind} {p : MemberChoice}
  {f : NoChoice}

/-- Whether a method is the overload of a name at a place among the methods of a type. -/
def Overload (d : TypeInfo) (name : String) (i : Nat) (m : Method) : Prop := d.methods[i]? = some m ∧ m.name = name

/-- Whether an overload can be called with arguments of the given kinds. -/
def Candidate (d : TypeInfo) (name : String) (signature : List ValueKind) (i : Nat) (m : Method) : Prop :=
  d.Overload name i m ∧ m.Accepts signature

/-- The choices are the plans of the candidates. -/
lemma mem_choices_iff : p ∈ d.choices name route signature ↔
    ∃ i m, d.Candidate name signature i m ∧ p = m.plan i route signature := by
  unfold choices overloads Candidate Overload
  simp only [List.mem_filterMap, List.mem_filter, beq_iff_eq, Prod.exists, List.mem_zipIdx_iff_getElem?,
    Method.choice?_eq_some_iff]
  constructor
  · rintro ⟨m, i, overload, accepts, rfl⟩
    exact ⟨i, m, ⟨overload, accepts⟩, rfl⟩
  · rintro ⟨i, m, ⟨overload, accepts⟩, rfl⟩
    exact ⟨m, i, overload, accepts, rfl⟩

lemma Candidate.plan_mem {i : Nat} {m : Method} (h : d.Candidate name signature i m) :
    m.plan i route signature ∈ d.choices name route signature :=
  mem_choices_iff.mpr ⟨i, m, h, rfl⟩

lemma Candidate.method_eq {i : Nat} {m m' : Method} (h : d.Candidate name signature i m)
    (h' : d.Candidate name signature i m') : m = m' :=
  Option.some.inj (h.1.1.symm.trans h'.1.1)

/-- No two choices are of methods at one place. -/
lemma nodup_choices : (d.choices name route signature).Nodup := by
  have places : (d.overloads name).Pairwise fun x y => x.2 ≠ y.2 := by
    have all : (d.methods.zipIdx.map Prod.snd).Nodup := by
      rw [List.zipIdx_map_snd]
      exact List.nodup_range'
    exact (List.pairwise_map.mp all).sublist List.filter_sublist
  refine List.pairwise_filterMap.mpr (places.imp fun apart p hp q hq same => ?_)
  obtain ⟨-, rfl⟩ := Method.choice?_eq_some_iff.mp hp
  obtain ⟨-, rfl⟩ := Method.choice?_eq_some_iff.mp hq
  exact apart (congrArg MemberChoice.index same)

/-- Whether two overloads accept arguments of the given kinds and no overload that does is above either of them. -/
def TopShared (d : TypeInfo) (name : String) (signature : List ValueKind) : Prop :=
  ∃ i m i' m', i ≠ i' ∧ d.Candidate name signature i m ∧ d.Candidate name signature i' m' ∧
    ∀ j n, d.Candidate name signature j n → ¬n.Above signature m ∧ ¬n.Above signature m'

/-- The preferred overload as one pass over the candidates finds it. -/
def preferredInPass (d : TypeInfo) (name : String) (route : Route) (signature : List ValueKind) :
    Except NoChoice (Option MemberChoice) :=
  match scan (d.choices name route signature) with
  | none => .ok none
  | some (p, false) => .ok (some p)
  | some (_, true) => .error (.ambiguous d.name name signature)

lemma preferred_eq_preferredInPass :
    d.preferred name route signature = d.preferredInPass name route signature := by
  unfold preferred preferredInPass
  rw [MemberChoice.scan_eq]
  match best (d.choices name route signature) with
  | [] => rfl
  | [p] => rfl
  | p :: q :: ps => simp

/-- A candidate is the one best choice if it is above all others. -/
lemma preferred_eq_some_iff : d.preferred name route signature = .ok (some p) ↔
    ∃ i m, d.Candidate name signature i m ∧ p = m.plan i route signature ∧
      ∀ i' m', d.Candidate name signature i' m' → i' ≠ i → m.Above signature m' := by
  have alone : d.preferred name route signature = .ok (some p) ↔
      best (d.choices name route signature) = [p] := by
    unfold preferred
    split <;> simp_all
  rw [alone, MemberChoice.best_eq_singleton_iff nodup_choices]
  constructor
  · rintro ⟨mem, lower⟩
    obtain ⟨i, m, candidate, rfl⟩ := mem_choices_iff.mp mem
    refine ⟨i, m, candidate, rfl, fun i' m' other apart => ?_⟩
    exact Method.above_iff.mpr (lower _ other.plan_mem (mt (congrArg MemberChoice.index) apart))
  · rintro ⟨i, m, candidate, rfl, above⟩
    refine ⟨candidate.plan_mem, fun q hq apart => ?_⟩
    obtain ⟨i', m', other, rfl⟩ := mem_choices_iff.mp hq
    refine Method.above_iff.mp (above i' m' other ?_)
    rintro rfl
    obtain rfl := candidate.method_eq other
    exact apart rfl

/-- The choice is ambiguous if there are two best ones. -/
lemma preferred_eq_error_iff : d.preferred name route signature = .error f ↔
    f = .ambiguous d.name name signature ∧ d.TopShared name signature := by
  have several : d.preferred name route signature = .error f ↔
      f = .ambiguous d.name name signature ∧ 1 < (best (d.choices name route signature)).length := by
    unfold preferred
    split
    · next h => simp [h]
    · next h => simp [h]
    · next none one =>
      match h : best (d.choices name route signature) with
      | [] => exact absurd h none
      | [p] => exact absurd h (one p)
      | p :: q :: ps => simp [eq_comm]
  have notAbove {i j : Nat} {m n : Method} :
      (n.plan j route signature).rank ≤ (m.plan i route signature).rank ↔ ¬n.Above signature m := by
    rw [Method.above_iff, Nat.not_lt]
  rw [several, MemberChoice.one_lt_length_best_iff nodup_choices]
  refine and_congr_right fun _ => ⟨?_, ?_⟩
  · rintro ⟨p, hp, q, hq, apart⟩
    obtain ⟨memp, highest⟩ := MemberChoice.mem_best_iff.mp hp
    obtain ⟨memq, highest'⟩ := MemberChoice.mem_best_iff.mp hq
    obtain ⟨i, m, candidate, rfl⟩ := mem_choices_iff.mp memp
    obtain ⟨i', m', candidate', rfl⟩ := mem_choices_iff.mp memq
    refine ⟨i, m, i', m', ?_, candidate, candidate', fun j n other => ?_⟩
    · rintro rfl
      obtain rfl := candidate.method_eq candidate'
      exact apart rfl
    · exact ⟨notAbove.mp (highest _ other.plan_mem), notAbove.mp (highest' _ other.plan_mem)⟩
  · rintro ⟨i, m, i', m', apart, candidate, candidate', highest⟩
    have plansApart : m.plan i route signature ≠ m'.plan i' route signature := mt (congrArg MemberChoice.index) apart
    refine ⟨_, MemberChoice.mem_best_iff.mpr ⟨candidate.plan_mem, fun q hq => ?_⟩,
      _, MemberChoice.mem_best_iff.mpr ⟨candidate'.plan_mem, fun q hq => ?_⟩, plansApart⟩
    all_goals obtain ⟨j, n, other, rfl⟩ := mem_choices_iff.mp hq
    · exact notAbove.mpr (highest j n other).1
    · exact notAbove.mpr (highest j n other).2

/-- Nothing is preferred if there is no candidate. -/
lemma preferred_eq_none_iff : d.preferred name route signature = .ok none ↔
    ∀ i m, ¬d.Candidate name signature i m := by
  have nothing : d.preferred name route signature = .ok none ↔ d.choices name route signature = [] := by
    rw [← MemberChoice.best_eq_nil_iff]
    unfold preferred
    split <;> simp_all
  rw [nothing, List.eq_nil_iff_forall_not_mem]
  constructor
  · intro h i m candidate
    exact h _ candidate.plan_mem
  · intro h p hp
    obtain ⟨i, m, candidate, -⟩ := mem_choices_iff.mp hp
    exact h i m candidate

/-- Choices without their places depend on the overloads alone. -/
lemma map_unplaced_choices (d : TypeInfo) (name : String) (route : Route) (signature : List ValueKind) :
    (d.choices name route signature).map unplaced =
      (d.methods.filter (·.name == name)).filterMap (·.choice? 0 route signature) := by
  have place (m : Method) (i : Nat) :
      (m.choice? i route signature).map unplaced = m.choice? 0 route signature := by
    ext p
    simp only [Option.map_eq_some_iff, Method.choice?_eq_some_iff]
    constructor
    · rintro ⟨q, ⟨accepts, rfl⟩, rfl⟩
      exact ⟨accepts, rfl⟩
    · rintro ⟨accepts, rfl⟩
      exact ⟨_, ⟨accepts, rfl⟩, rfl⟩
  have methods : (d.overloads name).map Prod.fst = d.methods.filter (·.name == name) := by
    have kept := List.filter_map (p := (·.name == name)) (f := Prod.fst) (l := d.methods.zipIdx)
    rw [List.zipIdx_map_fst] at kept
    exact kept.symm
  unfold choices
  rw [← methods, List.filterMap_map, List.map_filterMap]
  exact List.filterMap_congr fun x _ => place x.1 x.2

/-- In whatever order the overloads of a name stand, the same one is preferred or it is ambiguous. -/
lemma preferred_perm {methods : List Method}
    (h : (methods.filter (·.name == name)).Perm (d.methods.filter (·.name == name))) :
    (({ d with methods := methods } : TypeInfo).preferred name route signature).map (Option.map unplaced) =
      (d.preferred name route signature).map (Option.map unplaced) := by
  have overloads : ((({ d with methods := methods } : TypeInfo).choices name route signature).map unplaced).Perm
      ((d.choices name route signature).map unplaced) := by
    rw [map_unplaced_choices, map_unplaced_choices]
    exact h.filterMap _
  have same := MemberChoice.perm_best overloads
  unfold preferred
  match hc : best (({ d with methods := methods } : TypeInfo).choices name route signature),
      hd : best (d.choices name route signature) with
  | [], [] => rfl
  | [p], [q] =>
    rw [hc, hd] at same
    have same : p.unplaced = q.unplaced := by simpa using same
    exact congrArg (fun p => Except.ok (some p)) same
  | _ :: _ :: _, _ :: _ :: _ => rfl
  | [], _ :: _ | [_], [] | [_], _ :: _ :: _ | _ :: _ :: _, [] | _ :: _ :: _, [_] =>
    rw [hc, hd] at same
    simpa using same.length_eq

/-- Of the overloads that accept some arguments, the one above all others is preferred, which one pass finds; that is
ambiguous if two of them share the top, and there is none if none accepts the arguments. So the preferred overload is
the same in whatever order they stand. -/
theorem prefers_strictly_best (d : TypeInfo) (name : String) (route : Route) (signature : List ValueKind) :
    d.preferred name route signature = d.preferredInPass name route signature ∧
      (∀ p, d.preferred name route signature = .ok (some p) ↔
        ∃ i m, d.Candidate name signature i m ∧ p = m.plan i route signature ∧
          ∀ i' m', d.Candidate name signature i' m' → i' ≠ i → m.Above signature m') ∧
      (∀ f, d.preferred name route signature = .error f ↔
        f = .ambiguous d.name name signature ∧ d.TopShared name signature) ∧
      (d.preferred name route signature = .ok none ↔ ∀ i m, ¬d.Candidate name signature i m) ∧
      ∀ methods, (methods.filter (·.name == name)).Perm (d.methods.filter (·.name == name)) →
        (({ d with methods := methods } : TypeInfo).preferred name route signature).map (Option.map unplaced) =
          (d.preferred name route signature).map (Option.map unplaced) :=
  ⟨preferred_eq_preferredInPass, fun _ => preferred_eq_some_iff, fun _ => preferred_eq_error_iff,
    preferred_eq_none_iff, fun _ => preferred_perm⟩

/-- The overloads of `substring` in the order opposite to that of the type. -/
theorem prefers_strictly_best_reversed :
    (StringMethods.all.reverse.filter (·.name == "substring")).Perm
        (StringMethods.all.filter (·.name == "substring")) ∧
      ((⟨"String", StringMethods.all.reverse⟩ : TypeInfo).preferred "substring" .method [.int]).map
          (Option.map unplaced) =
        ((⟨"String", StringMethods.all⟩ : TypeInfo).preferred "substring" .method [.int]).map
          (Option.map unplaced) := by
  have order := (List.reverse_perm StringMethods.all).filter (·.name == "substring")
  exact ⟨order, (prefers_strictly_best ⟨"String", StringMethods.all⟩ "substring" .method [.int]).2.2.2.2 _ order⟩

end TypeInfo

end Stencil
