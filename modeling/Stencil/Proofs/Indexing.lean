import Stencil.Engine
import Stencil.Proofs.Lockstep.Uniform
import Stencil.Proofs.Segments

/-!
# Items by index

An index counts items from their start, or from their end where it is negative; reading and assigning find the same
item. Main statement: `Render.indexes_alike`.
-/

namespace Stencil

/-! ### Places -/

/-- The place among so many items that an index names. -/
inductive Names (i : Int64) (n : Nat) : Nat → Prop
  | fromStart {k : Nat} : k < n → i.toInt = k → Names i n k
  | fromEnd {k : Nat} : k < n → i.toInt = k - n → Names i n k

variable {i : Int64} {n k : Nat}

lemma Names.lt (h : Names i n k) : k < n := by
  cases h with
  | fromStart lt _ => exact lt
  | fromEnd lt _ => exact lt

lemma placeOf?_of_neg (h : i.toInt < 0) (hn : 0 ≤ (n : Int) + i.toInt) :
    placeOf? i n = some ((n : Int) + i.toInt).toNat := by
  have inside : 0 ≤ (n : Int) + i.toInt ∧ (n : Int) + i.toInt < n := ⟨hn, by omega⟩
  unfold placeOf?
  rw [if_pos h]
  exact if_pos inside

lemma placeOf?_of_names (h : Names i n k) : placeOf? i n = some k := by
  cases h with
  | fromStart lt place =>
    rw [placeOf?_of_nonneg (by omega) (by omega), place, Int.toNat_natCast]
  | fromEnd lt place =>
    have back : (n : Int) + i.toInt = k := by omega
    rw [placeOf?_of_neg (by omega) (by omega), back, Int.toNat_natCast]

lemma names_of_placeOf? (h : placeOf? i n = some k) : Names i n k := by
  have lt := lt_of_placeOf? h
  unfold placeOf? at h
  generalize hp : (if i.toInt < 0 then (n : Int) + i.toInt else i.toInt) = place at h
  dsimp only at h
  split at h
  · next inside =>
    obtain rfl := Option.some.inj h
    have exactly := Int.toNat_of_nonneg inside.1
    split at hp
    · exact .fromEnd lt (by omega)
    · exact .fromStart lt (by omega)
  · cases h

lemma placeOf?_eq_none_iff : placeOf? i n = none ↔ ∀ k, ¬Names i n k := by
  rw [Option.eq_none_iff_forall_ne_some]
  exact forall_congr' fun k => not_congr ⟨names_of_placeOf?, placeOf?_of_names⟩

/-- The place that an index names, worked out in words of 64 bits. -/
def placeInWords? (i length : Int64) : Option Nat :=
  let place := if i < 0 then length + i else i
  if 0 ≤ place ∧ place < length then some place.toInt.toNat else none

/-- Whether so many items can be counted in a word. -/
def FitsWord (n : Nat) : Prop := (n : Int) ≤ Int64.maxValue.toInt

lemma FitsWord.le (h : FitsWord n) : n ≤ 9223372036854775807 := by
  have top : Int64.maxValue.toInt = 9223372036854775807 := by decide
  unfold FitsWord at h
  omega

lemma toInt_length (h : FitsWord n) : (Int64.ofNat n).toInt = n := by
  have most := h.le
  exact Int64.toInt_ofNat_of_lt (by omega)

/-- The only sum on the way to a place is the exact one: a negative index takes something away from a length. -/
lemma toInt_length_add (h : FitsWord n) (hi : i.toInt < 0) : (Int64.ofNat n + i).toInt = n + i.toInt := by
  have most := h.le
  have least := i.le_toInt
  rw [Int64.toInt_add, toInt_length h]
  apply Int.bmod_eq_of_le
  · omega
  · omega

lemma placeInWords?_eq (h : FitsWord n) (i : Int64) : placeInWords? i (.ofNat n) = placeOf? i n := by
  have zero : (0 : Int64).toInt = 0 := by decide
  have place :
      (if i < 0 then Int64.ofNat n + i else i).toInt = if i.toInt < 0 then (n : Int) + i.toInt else i.toInt := by
    simp only [Int64.lt_iff_toInt_lt, zero]
    split
    · next negative => exact toInt_length_add h negative
    · rfl
  unfold placeInWords? placeOf?
  simp only [Int64.le_iff_toInt_le, Int64.lt_iff_toInt_lt, zero, toInt_length h] at place ⊢
  rw [place]

/-! ### Cells -/

namespace Store

variable {σ : Store} {r : Ref}

/-- Where a list has items, there is a cell for it. -/
lemma cell?_of_items {v : Value} (h : (σ.items r)[k]? = some v) : σ.cell? r = some (.list (σ.items r)) := by
  unfold items at h ⊢
  cases hc : σ.cell? r with
  | none =>
    rw [hc] at h
    cases h
  | some c =>
    cases c with
    | list xs => rfl
    | map d =>
      rw [hc] at h
      cases h
    | object o =>
      rw [hc] at h
      cases h

lemma lt_of_cell? {c : Cell} (h : σ.cell? r = some c) : r.index < σ.cells.size :=
  (Array.getElem?_eq_some_iff.mp h).1

/-- A cell that is there holds what it is set to. -/
lemma cell?_set_self {c : Cell} (h : σ.cell? r = some c) (c' : Cell) : (σ.set r c').cell? r = some c' := by
  rw [cell?_set, if_pos ⟨rfl, lt_of_cell? h⟩]

/-- Setting one cell leaves the others. -/
lemma cell?_set_of_ne {q : Ref} (h : q ≠ r) (c : Cell) : (σ.set r c).cell? q = σ.cell? q := by
  rw [cell?_set, if_neg fun same => h same.1]

end Store

namespace Render

variable {eval : Expr → Render Value} {env : RenderEnv} {s t : RenderState} {x : Reference} {e : Expr} {p : Position}

/-! ### Reading -/

/-- What an index reads of items: the one that it names, and where it names none a null, unless that is refused. -/
inductive ReadsItem (refused : Bool) (type : String) (p : Position) (i : Int64) (items : List Value)
    (t : RenderState) : Outcome Value → Prop
  | item {k : Nat} {v : Value} : Names i items.length k → items[k]? = some v →
    ReadsItem refused type p i items t (.ok v t)
  | null : (∀ k, ¬Names i items.length k) → refused = false → ReadsItem refused type p i items t (.ok .null t)
  | outside : (∀ k, ¬Names i items.length k) → refused = true →
    ReadsItem refused type p i items t
      (.error (.failed (.at_ (.render (.indexOutOfBounds (toString i.toInt) type)) p)) t)

/-- What is found at the place of an index is what the index reads. -/
lemma readsItem_itemAt (receiver : Value) (items : List Value) (i : Int64) (refused : Bool) (p : Position)
    (env : RenderEnv) (t : RenderState) :
    ReadsItem refused (receiver.typeName t.store) p i items t
      (itemAt receiver (.int i) p ((placeOf? i items.length).bind (items[·]?)) refused env t) := by
  cases hp : placeOf? i items.length with
  | some k =>
    have there := List.getElem?_eq_getElem (lt_of_placeOf? hp)
    rw [Option.bind_some, there]
    exact .item (names_of_placeOf? hp) there
  | none =>
    have nowhere := placeOf?_eq_none_iff.mp hp
    cases refused with
    | false => exact .null nowhere rfl
    | true => exact .outside nowhere rfl

lemma step_index {receiver : Value} (he : eval e env s = .ok (.int i) t) (refused : Bool) :
    step eval receiver ⟨.index e, p⟩ refused env s = index receiver (.int i) p refused env t := by
  unfold step
  dsimp only
  rw [bind_apply, he]

lemma readsItem_list (r : Ref) (i : Int64) (p : Position) (refused : Bool) (env : RenderEnv) (t : RenderState) :
    ReadsItem refused "List" p i (t.store.items r).toList t (index (.list r) (.int i) p refused env t) := by
  have found := readsItem_itemAt (.list r) (t.store.items r).toList i refused p env t
  simp only [Array.length_toList, Array.getElem?_toList] at found
  exact found

/-- The characters of a text, each as a text. -/
def characters (text : String) : List Value := text.toList.map fun c => .str (String.singleton c)

lemma readsItem_text (text : String) (i : Int64) (p : Position) (refused : Bool) (env : RenderEnv) (t : RenderState) :
    ReadsItem refused "String" p i (characters text) t (index (.str text) (.int i) p refused env t) := by
  have found := readsItem_itemAt (.str text) (characters text) i refused p env t
  have there : (placeOf? i (characters text).length).bind ((characters text)[·]?) =
      ((placeOf? i text.toList.length).bind (text.toList[·]?)).map fun c => .str (String.singleton c) := by
    unfold characters
    rw [List.length_map, Option.map_bind]
    congr 1
    funext k
    exact List.getElem?_map ..
  rw [there] at found
  exact found

/-! ### Assigning -/

/-- What an assignment by an index does to a list: it puts the value in the place that the index names and changes
nothing else, and where the index names none it fails and changes nothing. -/
inductive AssignsItem (p : Position) (r : Ref) (i : Int64) (v : Value) (t : RenderState) : Outcome Unit → Prop
  | item {k : Nat} {σ : Store} : Names i (t.store.items r).size k →
    σ.cell? r = some (.list ((t.store.items r).setIfInBounds k v)) → (∀ q, q ≠ r → σ.cell? q = t.store.cell? q) →
    AssignsItem p r i v t (.ok () { t with store := σ })
  | outside : (∀ k, ¬Names i (t.store.items r).size k) →
    AssignsItem p r i v t
      (.error (.failed (.at_ (.render (.listIndexOutOfBounds i.toInt (t.store.items r).size)) p)) t)

lemma assignsItem_assignItem (r : Ref) (i : Int64) (v : Value) (p : Position) (env : RenderEnv) (t : RenderState) :
    AssignsItem p r i v t (assignItem r i v p env t) := by
  unfold assignItem
  rw [bind_apply, ask_apply]
  dsimp only
  cases hp : placeOf? i (t.store.items r).size with
  | some k =>
    have held := Store.cell?_of_items (Array.getElem?_eq_getElem (lt_of_placeOf? hp))
    exact .item (names_of_placeOf? hp) (Store.cell?_set_self held _) fun q other => Store.cell?_set_of_ne other _
  | none => exact .outside (placeOf?_eq_none_iff.mp hp)

lemma assignSegment_index {r : Ref} (he : eval e env s = .ok (.int i) t) (v : Value) :
    assignSegment eval (.list r) ⟨.index e, p⟩ v env s = assignItem r i v p env t := by
  unfold assignSegment
  rw [bind_apply, strict_apply]
  dsimp only
  rw [bind_apply, he]

/-- What was assigned by an index is what the index reads then, as long as it means the same list. -/
lemma reads_assigned {r : Ref} {v : Value} {u u' : RenderState} (assigned : AssignsItem p r i v t (.ok ⟨⟩ u))
    {y : Reference} {e' : Expr} {q : Position} (hy : y.segments = [⟨.index e', q⟩])
    (hv : u.get? y.root = some (.list r)) (he : eval e' env u = .ok (.int i) u')
    (same : u'.store.items r = u.store.items r) (lenient : Bool) : reference eval y lenient env u = .ok v u' := by
  cases assigned with
  | @item k σ names cell _ =>
    have items : σ.items r = (t.store.items r).setIfInBounds k v := by
      unfold Store.items at cell ⊢
      rw [cell]
    have there : (σ.items r)[k]? = some v := by
      rw [items, Array.getElem?_setIfInBounds_self_of_lt names.lt]
    have named : placeOf? i (σ.items r).size = some k := by
      rw [items, Array.size_setIfInBounds]
      exact placeOf?_of_names names
    rw [reference_of_segment hy hv rfl, step_index he]
    unfold index
    dsimp only
    rw [bind_apply, ask_apply]
    dsimp only at same ⊢
    rw [same, named, Option.bind_some, there]
    rfl

/-- Reading and assigning by an index find the same items. Whatever the index, a list is read at the place that it
names, an assignment succeeds where it names one and then it reads what was assigned, all else being as it was; where
it names none, reading gives null, or is refused where references are strict and this one is not quiet, and assigning
fails and changes nothing. The characters of a text are read by the same rule. No sum that is worked out overflows. -/
theorem indexes_alike (hx : x.segments = [⟨.index e, p⟩]) (he : eval e env s = .ok (.int i) t) :
    (∀ r, s.get? x.root = some (.list r) →
      (∀ lenient, ReadsItem (refuses env x) "List" p i (t.store.items r).toList t (reference eval x lenient env s)) ∧
      (∀ v, AssignsItem p r i v t (assign eval x v env s)) ∧
      ∀ v u, assign eval x v env s = .ok ⟨⟩ u → ∀ y e' q u', y.segments = [⟨.index e', q⟩] →
        u.get? y.root = some (.list r) → eval e' env u = .ok (.int i) u' → u'.store.items r = u.store.items r →
        ∀ lenient, reference eval y lenient env u = .ok v u') ∧
    (∀ text, s.get? x.root = some (.str text) → ∀ lenient,
      ReadsItem (refuses env x) "String" p i (characters text) t (reference eval x lenient env s)) ∧
    ∀ n, FitsWord n →
      placeInWords? i (.ofNat n) = placeOf? i n ∧ (i.toInt < 0 → (Int64.ofNat n + i).toInt = n + i.toInt) := by
  refine ⟨fun r hv => ?_, fun text hv lenient => ?_, fun n hn => ⟨placeInWords?_eq hn i, toInt_length_add hn⟩⟩
  · have assigns (v : Value) : AssignsItem p r i v t (assign eval x v env s) := by
      rw [assign_of_segment hx hv rfl, assignSegment_index he]
      exact assignsItem_assignItem r i v p env t
    refine ⟨fun lenient => ?_, assigns, fun v u done y e' q u' hy hu he' same lenient => ?_⟩
    · rw [reference_of_segment hx hv rfl, step_index he]
      exact readsItem_list r i p _ env t
    · have assigned := assigns v
      rw [done] at assigned
      exact reads_assigned assigned hy hu he' same lenient
  · rw [reference_of_segment hx hv rfl, step_index he]
    exact readsItem_text text i p _ env t

/-- The last item of a list, counted from the end. -/
theorem indexes_alike_from_end :
    let p : Position := default
    let e : Expr := ⟨.literal (.int (-1)), p⟩
    let x : Reference := ⟨"l", false, [⟨.index e, p⟩], "$l[-1]", p⟩
    let eval := (Interpreter.ofDepth 1).value
    let env := (Engine.initial .standard).env (.ofTemplates [] id)
    let s := (Engine.initial .standard).start ⟨#[.list #[.int 10, .int 20]]⟩ (Context.empty.put "l" (.list ⟨0⟩)) .empty
    (x.segments = [⟨.index e, p⟩] ∧ eval e env s = .ok (.int (-1)) s ∧ s.get? "l" = some (.list ⟨0⟩)) ∧
      ReadsItem false "List" p (-1) [.int 10, .int 20] s (reference eval x false env s) ∧
      ∀ v, AssignsItem p ⟨0⟩ (-1) v s (assign eval x v env s) := by
  intro p e x eval env s
  have he : eval e env s = .ok (.int (-1)) s := rfl
  have hv : s.get? "l" = some (.list ⟨0⟩) := rfl
  obtain ⟨reads, assigns, -⟩ := (indexes_alike (x := x) rfl he).1 ⟨0⟩ hv
  exact ⟨⟨rfl, he, hv⟩, reads false, assigns⟩

end Render

end Stencil
