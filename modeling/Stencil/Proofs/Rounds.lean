import Stencil.Proofs.Lasting
import Stencil.Proofs.Ranges

/-!
# The rounds of a loop

A loop goes through the items that there are when it starts. Whatever its body does in a round, the next round starts
with the next item and with what `$foreach` tells of it. Main statement:
`Interpreter.visits_what_it_announces`.
-/

namespace Stencil

/-! ### What a loop goes through -/

/-- What a loop visits in a round: a value and, in a map, its key. -/
abbrev LoopItem := Option String × Value

/-- What a loop goes through: the whole numbers of a range, or what a value has. -/
inductive LoopSource where
  | range (lower upper : Int64)
  | value (v : Value)

/-- The numbers of a range, as a loop visits them. -/
def numberItems (ws : List Int64) : List LoopItem := ws.map fun w => (none, .int w)

namespace LoopSource

def isMap : LoopSource → Bool
  | value (.map _) => true
  | _ => false

/-- What a source has for a loop, in order, if it can be gone through at all. -/
inductive Has (σ : Store) : LoopSource → List LoopItem → Prop
  | range {a b ws} : IsRange a b ws → Has σ (.range a b) (numberItems ws)
  | null : Has σ (.value .null) []
  | list {r} : Has σ (.value (.list r)) ((σ.items r).toList.map (none, ·))
  | map {r} : Has σ (.value (.map r)) ((σ.entries r).entries.map fun e => (some e.1, e.2))
  | object {r vs} : (σ.object r).items = some vs → Has σ (.value (.object r)) (vs.map (none, ·))

variable {σ : Store} {items : List LoopItem}

lemma Has.range_eq {a b : Int64} (h : (LoopSource.range a b).Has σ items) :
    items = (rangeItems a b (rangeLength a b)).map (none, ·) := by
  cases h with
  | range words =>
    rw [words.eq]
    exact List.map_map.symm

lemma has_value_iff {v : Value} : (LoopSource.value v).Has σ items ↔ v.iteration? σ = some items := by
  constructor
  · intro h
    cases h with
    | null | list | map => rfl
    | object own => exact Option.map_eq_some_iff.mpr ⟨_, own, rfl⟩
  · intro h
    cases v with
    | null =>
      cases h
      exact .null
    | list r =>
      cases h
      exact .list
    | map r =>
      cases h
      exact .map
    | object r =>
      obtain ⟨vs, own, rfl⟩ := Option.map_eq_some_iff.mp h
      exact .object own
    | _ => cases h

/-- The items of maps have keys, and no others. -/
lemma Has.isSome_key {source : LoopSource} (h : source.Has σ items) :
    ∀ item ∈ items, item.1.isSome = source.isMap := by
  intro item hi
  cases h with
  | null => cases hi
  | range _ | list | map | object _ =>
    obtain ⟨_, -, rfl⟩ := List.mem_map.mp hi
    rfl

end LoopSource

/-- Those of some items that a loop visits, which are the first ones if their number is limited. -/
def Settings.cut (c : Settings) (items : List LoopItem) : List LoopItem :=
  match c.foreachMaxLoops with
  | none => items
  | some cap => items.take cap

lemma Settings.take_foreachMaxLoops (c : Settings) (items : List LoopItem) :
    items.take (c.foreachMaxLoops.getD items.length) = c.cut items := by
  unfold cut
  cases c.foreachMaxLoops with
  | none => exact List.take_length
  | some cap => rfl

lemma Settings.cut_range (c : Settings) (lower upper : Int64) :
    (rangeItems lower upper (min (rangeLength lower upper) (c.foreachMaxLoops.getD (rangeLength lower upper)))).map
        (Prod.mk (none : Option String)) =
      c.cut ((rangeItems lower upper (rangeLength lower upper)).map (none, ·)) := by
  unfold cut
  cases c.foreachMaxLoops with
  | none => rw [Option.getD_none, Nat.min_self]
  | some cap => rw [Option.getD_some, rangeItems_min, List.map_take]

namespace Interpreter

variable {self : Interpreter} {env : RenderEnv} {s t : RenderState} {iterable : Expr} {source : LoopSource}

/-- What a loop is about to go through, and the state that it starts from: its bounds or its collection have been
evaluated, and a range is within the limit unless the number of rounds is. -/
inductive Announces (self : Interpreter) (env : RenderEnv) (s : RenderState) (iterable : Expr) :
    LoopSource → RenderState → Prop
  | range {lower upper : Expr} {a b : Int64} {s' t : RenderState} : iterable.kind = .range lower upper →
    self.value lower env s = .ok (.int a) s' → self.value upper env s' = .ok (.int b) t →
    (env.settings.foreachMaxLoops = none → rangeLength a b ≤ env.settings.rangeMaxSize) →
    Announces self env s iterable (.range a b) t
  | value {v : Value} {t : RenderState} : (∀ lower upper, iterable.kind ≠ .range lower upper) →
    self.value iterable env s = .ok v t → Announces self env s iterable (.value v) t

/-- What lasts through expressions, lasts until the loop starts. -/
lemma Announces.lasts {R : RenderState → RenderState → Prop} (h : Conserved R) (hs : self.Stays R)
    (announces : self.Announces env s iterable source t) : R s t := by
  have passed {e : Expr} {v : Value} {s t : RenderState} (hv : self.value e env s = .ok v t) : R s t := by
    have value := hs.eval false e env s
    rwa [show self.eval false e env s = .ok v t from hv] at value
  cases announces with
  | range _ hl hu _ => exact h.trans (passed hl) (passed hu)
  | value _ hv => exact passed hv

lemma bounds_of_ok {lower upper : Expr} {a b : Int64} {s' : RenderState}
    (hl : self.value lower env s = .ok (.int a) s') (hu : self.value upper env s' = .ok (.int b) t) (p : Position) :
    self.bounds lower upper p env s = .ok (a, b) t := by
  unfold bounds
  rw [Render.bind_apply, hl]
  dsimp only
  rw [Render.bind_apply, hu]
  rfl

/-- What has no items is refused where references are strict, and passed over elsewhere. -/
def uncollected (v : Value) (p : Position) (env : RenderEnv) (s : RenderState) : Outcome (Option (List LoopItem)) :=
  if env.settings.strictReferences then .error (.failed (.at_ (.render (.notIterable (v.typeName s.store))) p)) s
  else .ok none s

/-- A loop looks at what a value has as soon as that is known, whatever kind of expression it comes from. -/
lemma loopItems_of_value {v : Value} (other : ∀ lower upper, iterable.kind ≠ .range lower upper)
    (hv : self.value iterable env s = .ok v t) :
    self.loopItems iterable env s =
      match v.iteration? t.store with
      | some items => .ok (some (env.settings.cut items)) t
      | none => uncollected v iterable.position env t := by
  obtain ⟨kind, p⟩ := iterable
  unfold loopItems uncollected
  simp only [← Settings.take_foreachMaxLoops]
  rw [Render.read_bind_apply]
  cases kind with
  | range lower upper => exact absurd rfl (other lower upper)
  | _ =>
    rw [Render.bind_apply, hv]
    show (match v.iteration? t.store with
      | some items => _
      | none => _ : Render _) env t = _
    cases v.iteration? t.store with
    | some items => rfl
    | none =>
      show (if env.settings.strictReferences then _ else _ : Render _) env t = _
      cases env.settings.strictReferences <;> rfl

/-- What there is to go through, when the loop starts: as many items as may be visited. -/
lemma Announces.loopItems (h : self.Announces env s iterable source t) {items : List LoopItem}
    (hi : source.Has t.store items) : self.loopItems iterable env s = .ok (some (env.settings.cut items)) t := by
  cases h with
  | value other hv => rw [loopItems_of_value other hv, LoopSource.has_value_iff.mp hi]
  | @range lower upper a b s' t same hl hu within =>
    unfold Interpreter.loopItems
    rw [Render.read_bind_apply, same, hi.range_eq]
    dsimp only
    rw [Render.bind_apply, bounds_of_ok hl hu, ← Settings.cut_range]
    dsimp only
    split
    · next uncapped =>
      have fits := Nat.not_lt.mpr (within (Option.isNone_iff_eq_none.mp uncapped))
      rw [Render.bind_apply, checkRange_apply, if_neg fits]
      rfl
    · rfl

lemma loop_of_nothing {var : String} {body : Block} {otherwise : Option Block}
    (h : self.loopItems iterable env s = .ok (some []) t) :
    self.loop var iterable body otherwise env s = (otherwise.elim (pure .next) self.render : Render Flow) env t := by
  unfold loop
  rw [Render.bind_apply, h]
  cases otherwise <;> rfl

lemma loop_of_items {var : String} {body : Block} {otherwise : Option Block} {items : List LoopItem}
    (nonempty : items ≠ []) (h : self.loopItems iterable env s = .ok (some items) t) :
    self.loop var iterable body otherwise env s =
      (Outcome.leaving (self.rounds var body ((t.get? "foreach").getD .null) items.length 0 items env t)
        fun u => u.restoreLoop var (t.local? var) (t.local? "foreach")) := by
  unfold loop
  rw [Render.bind_apply, h]
  cases items with
  | nil => exact absurd rfl nonempty
  | cons item items => rfl

end Interpreter

/-! ### Rounds -/

/-- The state in which the body of a loop starts in a round. -/
def RenderState.inRound (s : RenderState) (var : String) (item : Value) (status : Dict Value) : RenderState :=
  (({ s with store := (s.store.newMap status).2 } : RenderState).put "foreach" (s.store.newMap status).1).put var item

/-- The rounds of a loop from round `k` on, through the items that are left: the states in which the body starts, and
how the loop ends. It ends after the last item, and before that where the body does not end with `next`. -/
inductive Interpreter.Rounds (self : Interpreter) (env : RenderEnv) (var : String) (body : Block) (parent : Value)
    (count : Nat) : Nat → List LoopItem → RenderState → List RenderState → Outcome Flow → Prop
  | done {k s} : Rounds self env var body parent count k [] s [] (.ok .next s)
  | next {k key item items s u t starts r} : u = s.inRound var item (loopStatus k count parent key) →
    self.render body env u = .ok .next t → Rounds self env var body parent count (k + 1) items t starts r →
    Rounds self env var body parent count k ((key, item) :: items) s (u :: starts) r
  | left {k key item items s u flow t} : u = s.inRound var item (loopStatus k count parent key) →
    self.render body env u = .ok flow t → flow ≠ .next →
    Rounds self env var body parent count k ((key, item) :: items) s [u] (.ok (if flow.endsLoop then .next else flow) t)
  | failed {k key item items s u halt t} : u = s.inRound var item (loopStatus k count parent key) →
    self.render body env u = .error halt t →
    Rounds self env var body parent count k ((key, item) :: items) s [u] (.error halt t)

namespace Interpreter

variable {self : Interpreter} {env : RenderEnv} {var : String} {body : Block} {parent : Value} {count k : Nat}
  {items : List LoopItem} {s : RenderState} {starts : List RenderState} {r : Outcome Flow}

lemma startRound_apply (var : String) (item : Value) (status : Dict Value) (env : RenderEnv) (s : RenderState) :
    startRound var item status env s = .ok ⟨⟩ (s.inRound var item status) := rfl

lemma rounds_cons (self : Interpreter) (env : RenderEnv) (var : String) (body : Block) (parent : Value)
    (count k : Nat) (key : Option String) (item : Value) (items : List LoopItem) (s : RenderState) :
    self.rounds var body parent count k ((key, item) :: items) env s =
      Outcome.next (self.render body env (s.inRound var item (loopStatus k count parent key))) fun
        | .next, t => self.rounds var body parent count (k + 1) items env t
        | flow, t => .ok (if flow.endsLoop then .next else flow) t := by
  rw [rounds, Render.bind_apply, startRound_apply]
  dsimp only
  rw [Render.bind_apply]
  cases self.render body env (s.inRound var item (loopStatus k count parent key)) with
  | error halt t => rfl
  | ok flow t => cases flow <;> rfl

/-- A loop has such rounds: by induction on the items. -/
lemma exists_rounds (self : Interpreter) (env : RenderEnv) (var : String) (body : Block) (parent : Value)
    (count k : Nat) (items : List LoopItem) (s : RenderState) :
    ∃ starts, self.Rounds env var body parent count k items s starts
      (self.rounds var body parent count k items env s) := by
  induction items generalizing k s with
  | nil => exact ⟨[], .done⟩
  | cons entry items ih =>
    obtain ⟨key, item⟩ := entry
    rw [rounds_cons]
    cases hb : self.render body env (s.inRound var item (loopStatus k count parent key)) with
    | error halt t => exact ⟨_, .failed rfl hb⟩
    | ok flow t =>
      cases flow with
      | next =>
        obtain ⟨starts, later⟩ := ih (k + 1) t
        exact ⟨_, .next rfl hb later⟩
      | leave scope => exact ⟨_, .left rfl hb nofun⟩
      | stop => exact ⟨_, .left rfl hb nofun⟩

/-- What lasts through binding variables and through a loop's body, lasts through a round. -/
lemma Stays.round {R : RenderState → RenderState → Prop} (h : Lasting R) (hs : self.Stays R) {u : RenderState}
    {item : Value} {status : Dict Value} (start : u = s.inRound var item status)
    (hb : self.render body env u = r) : R s r.state := by
  have fresh : R s { s with store := (s.store.newMap status).2 } := h.of_eq rfl rfl
  have bound : R s u := by
    rw [start]
    exact h.trans fresh (h.trans (h.put _ "foreach" _) (h.put _ var item))
  rw [← hb]
  exact h.trans bound (hs.render body env u)

namespace Rounds

/-- What lasts through every round, lasts through all of them: by induction on the rounds. -/
lemma lasts {R : RenderState → RenderState → Prop} (h : Lasting R) (hs : self.Stays R)
    (rounds : self.Rounds env var body parent count k items s starts r) : R s r.state := by
  induction rounds with
  | done => exact h.refl _
  | next start hb _ ih => exact h.trans (hs.round h start hb) ih
  | left start hb _ =>
    have round := hs.round h start hb
    exact round
  | failed start hb => exact hs.round h start hb

/-- Every round starts with the next item, after what lasts through those before it. -/
lemma starts_inRound {R : RenderState → RenderState → Prop} (h : Lasting R) (hs : self.Stays R)
    (rounds : self.Rounds env var body parent count k items s starts r) {i : Nat} {u : RenderState}
    (hu : starts[i]? = some u) :
    ∃ key item v, items[i]? = some (key, item) ∧ R s v ∧
      u = v.inRound var item (loopStatus (k + i) count parent key) := by
  induction rounds generalizing i with
  | done => cases hu
  | @next k key item items s v t starts r start hb _ ih =>
    cases i with
    | zero =>
      cases hu
      exact ⟨key, item, s, rfl, h.refl s, start⟩
    | succ i =>
      obtain ⟨key', item', w, there, before, hw⟩ := ih hu
      refine ⟨key', item', w, there, h.trans (hs.round h start hb) before, ?_⟩
      rw [hw, show k + 1 + i = k + (i + 1) by omega]
  | left start _ _ | failed start _ =>
    cases i with
    | zero =>
      cases hu
      exact ⟨_, _, _, rfl, h.refl _, start⟩
    | succ i => cases hu

lemma length_le (h : self.Rounds env var body parent count k items s starts r) : starts.length ≤ items.length := by
  induction h with
  | done => exact Nat.le_refl _
  | next _ _ _ ih => exact Nat.succ_le_succ ih
  | left _ _ _ | failed _ _ => exact Nat.succ_le_succ (Nat.zero_le _)

/-- Where items are left over, the body of the last round did not end with `next`. -/
lemma left_early (h : self.Rounds env var body parent count k items s starts r) (early : starts.length < items.length) :
    ∃ u, starts.getLast? = some u ∧ ∀ t, self.render body env u ≠ .ok .next t := by
  induction h with
  | done => cases early
  | @next k key item items s u t starts r _ hb later ih =>
    obtain ⟨v, last, left⟩ := ih (Nat.lt_of_succ_lt_succ early)
    refine ⟨v, ?_, left⟩
    rw [List.getLast?_cons, last]
    rfl
  | @left k key item items s u flow t _ hb other =>
    refine ⟨u, rfl, fun v hv => other ?_⟩
    rw [hb] at hv
    cases hv
    rfl
  | @failed k key item items s u halt t _ hb =>
    refine ⟨u, rfl, fun v hv => ?_⟩
    rw [hb] at hv
    cases hv

end Rounds

end Interpreter

/-! ### What `$foreach` tells -/

/-- Whether a value is a count, as far as words reach. -/
def Value.Counts (v : Value) (n : Nat) : Prop := ∃ w : Int64, v = .int w ∧ w.toInt = min (n : Int) Int64.maxValue.toInt

lemma Value.counts_ofNat (n : Nat) : (Value.ofNat n).Counts n := by
  have top : ((Nat.pow 2 63 - 1 : Nat) : Int) = Int64.maxValue.toInt := by decide
  have small : min n (Nat.pow 2 63 - 1) < 2 ^ 63 := Nat.lt_of_le_of_lt (Nat.min_le_right _ _) (by decide)
  refine ⟨_, rfl, ?_⟩
  rw [Int64.toInt_ofNat_of_lt small, ← top]
  generalize Nat.pow 2 63 - 1 = most
  omega

lemma Value.ofNat_toNat {n : Int64} (h : 0 ≤ n.toInt) : ofNat n.toInt.toNat = .int n := by
  obtain ⟨w, same, count⟩ := counts_ofNat n.toInt.toNat
  have most : n.toInt ≤ Int64.maxValue.toInt := Int64.le_iff_toInt_le.mp n.le_maxValue
  rw [same, Int64.toInt_inj.mp (show w.toInt = n.toInt by omega)]

/-- A count of no more than so many lies between zero and their number. -/
lemma Value.Counts.toInt_le {n : Int64} {k m : Nat} (h : (Value.int n).Counts k) (hk : k ≤ m) :
    0 ≤ n.toInt ∧ n.toInt ≤ m := by
  obtain ⟨w, same, count⟩ := h
  obtain rfl := Value.int.inj same
  have top : 0 ≤ Int64.maxValue.toInt := by decide
  omega

/-- What is told of round `k` of `n` in a loop, whose items may have keys. -/
structure DescribesRound (d : Dict Value) (k n : Nat) (parent : Value) (key : Option String) : Prop where
  index : ∃ v, d.get? "index" = some v ∧ v.Counts k
  count : ∃ v, d.get? "count" = some v ∧ v.Counts (k + 1)
  first : d.get? "first" = some (.bool (k = 0))
  last : d.get? "last" = some (.bool (k + 1 = n))
  hasNext : d.get? "hasNext" = some (.bool (k + 1 < n))
  parent : d.get? "parent" = some parent
  key : d.get? "key" = key.map .str

lemma describesRound_loopStatus (k n : Nat) (parent : Value) (key : Option String) :
    DescribesRound (loopStatus k n parent key) k n parent key := by
  have entries (name : String) : (loopStatus k n parent key).get? name =
      if name = "key" ∧ key.isSome then key.map .str
      else if name = "parent" then some parent
      else if name = "last" then some (.bool (k + 1 = n))
      else if name = "first" then some (.bool (k = 0))
      else if name = "hasNext" then some (.bool (k + 1 < n))
      else if name = "count" then some (.ofNat (k + 1))
      else if name = "index" then some (.ofNat k)
      else none := by
    unfold loopStatus Dict.ofList
    cases key with
    | none => simp [Dict.get?_insert, beq_eq_decide]
    | some key => simp [Dict.get?_insert, beq_eq_decide]
  constructor
  · exact ⟨_, entries "index", Value.counts_ofNat k⟩
  · exact ⟨_, entries "count", Value.counts_ofNat (k + 1)⟩
  · exact entries "first"
  · exact entries "last"
  · exact entries "hasNext"
  · exact entries "parent"
  · rw [entries]
    cases key <;> rfl

lemma Store.entries_newMap (σ : Store) (d : Dict Value) : (σ.newMap d).2.entries (σ.alloc (.map d)).1 = d := by
  unfold entries
  rw [show (σ.newMap d).2 = (σ.alloc (.map d)).2 from rfl, σ.cell?_alloc]

namespace RenderState

/-- What `$foreach` tells in round `k` of `n`. -/
def Tells (s : RenderState) (k n : Nat) (parent : Value) (key : Option String) : Prop :=
  ∃ r, s.get? "foreach" = some (.map r) ∧ DescribesRound (s.store.entries r) k n parent key

variable {s : RenderState}

lemma get?_put_of_ne {name other : String} (h : other ≠ name) (v : Value) :
    (s.put name v).get? other = s.get? other := by
  unfold put get?
  cases hs : s.frames with
  | nil => simp only [List.findSome?_nil, s.context.get?_put_of_ne h]
  | cons frame frames => simp only [List.findSome?_cons, Dict.get?_insert, if_neg h]

lemma get?_put_of_not_null (s : RenderState) (name : String) {v : Value} (h : v.isNull = false) :
    (s.put name v).get? name = some v := by
  cases hs : s.frames with
  | nil =>
    unfold put get?
    simp only [hs, List.findSome?_nil]
    exact s.context.get?_put_of_not_null name h
  | cons frame frames =>
    rw [get?_put_of_frame hs, h]
    rfl

/-- Whatever was bound before, a round starts with what `$foreach` tells of it, unless the loop variable hides it. -/
lemma tells_inRound (s : RenderState) {var : String} (h : var ≠ "foreach") (item : Value) (k n : Nat) (parent : Value)
    (key : Option String) : (s.inRound var item (loopStatus k n parent key)).Tells k n parent key := by
  refine ⟨(s.store.alloc (.map (loopStatus k n parent key))).1, ?_, ?_⟩
  · unfold inRound
    rw [get?_put_of_ne (Ne.symm h)]
    exact get?_put_of_not_null _ _ rfl
  · unfold inRound
    rw [store_put, store_put, Store.entries_newMap]
    exact describesRound_loopStatus k n parent key

end RenderState

namespace Interpreter

variable {self : Interpreter} {env : RenderEnv} {s t : RenderState} {iterable : Expr} {source : LoopSource}

/-- How a loop visits items, starting from a state: in as many rounds as there are items, or in fewer if the body does
not end with `next` in the last of them, one item after the other; and whenever the body starts, `$foreach` tells where
in all the items the loop is. -/
structure Visits (code : Interpreter) (env : RenderEnv) (var : String) (body : Block) (visited : List LoopItem)
    (s : RenderState) (starts : List RenderState) (r : Outcome Flow) : Prop where
  rounds : code.Rounds env var body ((s.get? "foreach").getD .null) visited.length 0 visited s starts r
  length_le : starts.length ≤ visited.length
  left_early : starts.length < visited.length →
    ∃ u, starts.getLast? = some u ∧ ∀ t, code.render body env u ≠ .ok .next t
  tells : var ≠ "foreach" → ∀ (k : Nat) (u : RenderState), starts[k]? = some u → ∃ item, visited[k]? = some item ∧
    u.Tells k visited.length ((s.get? "foreach").getD .null) item.1

/-- Whether a loop goes through items and nothing else: without any, it renders what stands after `#else`, and otherwise
it visits them, starting from a state whose variables it puts back however it is left. -/
def GoesThrough (self : Interpreter) (env : RenderEnv) (s : RenderState) (iterable : Expr) (visited : List LoopItem)
    (t : RenderState) : Prop :=
  ∀ (var : String) (body : Block) (otherwise : Option Block) (p : Position),
    (visited = [] → self.node ⟨.loop var iterable body otherwise, p⟩ env s =
      (otherwise.elim (pure .next) self.render : Render Flow) env t) ∧
    (visited ≠ [] → ∃ starts r, self.Visits env var body visited t starts r ∧
      self.node ⟨.loop var iterable body otherwise, p⟩ env s =
        Outcome.leaving r fun u => u.restoreLoop var (t.local? var) (t.local? "foreach"))

lemma Rounds.visits {var : String} {body : Block} {visited : List LoopItem} {starts : List RenderState}
    {r : Outcome Flow}
    (rounds : self.Rounds env var body ((s.get? "foreach").getD .null) visited.length 0 visited s starts r) :
    self.Visits env var body visited s starts r := by
  refine ⟨rounds, rounds.length_le, rounds.left_early, fun hv k u hu => ?_⟩
  obtain ⟨key, item, v, there, -, rfl⟩ := rounds.starts_inRound .any (.any self) hu
  rw [Nat.zero_add]
  exact ⟨(key, item), there, v.tells_inRound hv item k _ _ key⟩

lemma Announces.goesThrough (h : self.Announces env s iterable source t) {items : List LoopItem}
    (hi : source.Has t.store items) : self.GoesThrough env s iterable (env.settings.cut items) t := by
  intro var body otherwise p
  refine ⟨fun nothing => loop_of_nothing (nothing ▸ h.loopItems hi), fun nonempty => ?_⟩
  obtain ⟨starts, rounds⟩ := exists_rounds self env var body ((t.get? "foreach").getD .null)
    (env.settings.cut items).length 0 (env.settings.cut items) t
  exact ⟨starts, _, rounds.visits, loop_of_items nonempty (h.loopItems hi)⟩

/-- A loop that cannot go through its collection renders nothing, whatever stands after `#else`. -/
lemma Announces.skips (h : self.Announces env s iterable source t) (hn : ∀ items, ¬source.Has t.store items)
    (var : String) (body : Block) (otherwise : Option Block) :
    self.loop var iterable body otherwise env s = self.loop var iterable body none env s := by
  cases h with
  | range => exact absurd (.range (isRange_rangeWords _ _)) (hn _)
  | @value v t other hv =>
    have nothing : v.iteration? t.store = none :=
      Option.eq_none_iff_forall_not_mem.mpr fun items hi => hn items (LoopSource.has_value_iff.mpr hi)
    unfold loop
    rw [Render.bind_apply, Render.bind_apply, loopItems_of_value other hv, nothing]
    unfold uncollected
    cases env.settings.strictReferences <;> rfl

/-- A loop visits what it announces. What it goes through is settled when it starts: with nothing to visit it renders
what stands after `#else`, and only then. Otherwise its body is rendered for one item after the other until there are no
more or it does not end with `next`, and in every round `$foreach` tells where the loop is, whatever the rounds before
it did. -/
theorem visits_what_it_announces (h : self.Announces env s iterable source t) :
    (∀ items, source.Has t.store items →
      (∀ item ∈ items, item.1.isSome = source.isMap) ∧ self.GoesThrough env s iterable (env.settings.cut items) t) ∧
    ((∀ items, ¬source.Has t.store items) → ∀ var body otherwise p,
      self.node ⟨.loop var iterable body otherwise, p⟩ env s = self.node ⟨.loop var iterable body none, p⟩ env s) := by
  constructor
  · intro items hi
    exact ⟨hi.isSome_key, h.goesThrough hi⟩
  · intro hn var body otherwise p
    exact h.skips hn var body otherwise

/-- A loop over a map with two entries, of which one is visited. -/
theorem visits_what_it_announces_map :
    let p : Position := default
    let text (k : String) : Expr := ⟨.literal (.str k), p⟩
    let pairs : Expr := ⟨.map [⟨text "a", text "x"⟩, ⟨text "b", text "y"⟩], p⟩
    let env := (Engine.initial { Settings.standard with foreachMaxLoops := some 1 }).env (.ofTemplates [] id)
    let s := (Engine.initial .standard).start .empty .empty .empty
    ∃ t, (ofDepth 2).Announces env s pairs (.value (.map ⟨0⟩)) t ∧
      (LoopSource.value (.map ⟨0⟩)).Has t.store [(some "a", .str "x"), (some "b", .str "y")] ∧
      (ofDepth 2).GoesThrough env s pairs [(some "a", .str "x")] t := by
  intro p text pairs env s
  have announces : (ofDepth 2).Announces env s pairs (.value (.map ⟨0⟩)) _ := .value nofun rfl
  have visits := ((visits_what_it_announces announces).1 _ .map).2
  exact ⟨_, announces, .map, visits⟩

end Interpreter

end Stencil
