import Stencil.Engine
import Stencil.Proofs.Indexing
import Stencil.Proofs.Passing
import Stencil.Proofs.Preference
import Stencil.Proofs.Rounds
import Stencil.Proofs.Sequences

/-!
# Methods of lists do all or nothing

A call of a method of a list that succeeds is an operation on a sequence, and one that fails leaves everything as it
was. Main statement: `lists_all_or_nothing`.
-/

namespace Stencil

/-! ### Operations -/

/-- The operations on a sequence that the methods of lists offer. What `addAll` adds is a list or null. -/
inductive ListOp where
  | size
  | isEmpty
  | get (i : Int64)
  | contains (x : Value)
  | indexOf (x : Value)
  | add (x : Value)
  | insert (i : Int64) (x : Value)
  | set (i : Int64) (x : Value)
  | addAll (q? : Option Ref)
  | removeAt (i : Int64)
  | remove (x : Value)
  | clear
  | subList (lower upper : Int64)

/-- Whether a list has these items. -/
def Store.Holds (σ : Store) (r : Ref) (xs : List Value) : Prop := σ.cell? r = some (.list xs.toArray)

namespace ListOp

/-- Which calls are which operation: `remove` takes a number for a position, and any other value for an item. -/
inductive IsCall : ListOp → String → List Value → Prop
  | size : IsCall size "size" []
  | isEmpty : IsCall isEmpty "isEmpty" []
  | get {i : Int64} : IsCall (get i) "get" [.int i]
  | contains {x : Value} : IsCall (contains x) "contains" [x]
  | indexOf {x : Value} : IsCall (indexOf x) "indexOf" [x]
  | add {x : Value} : IsCall (add x) "add" [x]
  | insert {i : Int64} {x : Value} : IsCall (insert i x) "add" [.int i, x]
  | set {i : Int64} {x : Value} : IsCall (set i x) "set" [.int i, x]
  | addAll {q : Ref} : IsCall (addAll (some q)) "addAll" [.list q]
  | addNull : IsCall (addAll none) "addAll" [.null]
  | removeAt {i : Int64} : IsCall (removeAt i) "remove" [.int i]
  | remove {x : Value} : (∀ i, x ≠ .int i) → IsCall (remove x) "remove" [x]
  | clear : IsCall clear "clear" []
  | subList {lower upper : Int64} : IsCall (subList lower upper) "subList" [.int lower, .int upper]

/-- Whether an operation can be done to a sequence. -/
def Valid (xs : List Value) : ListOp → Prop
  | get i | set i _ | removeAt i => 0 ≤ i.toInt ∧ i.toInt < xs.length
  | insert i _ => 0 ≤ i.toInt ∧ i.toInt ≤ xs.length
  | subList lower upper => 0 ≤ lower.toInt ∧ lower.toInt ≤ upper.toInt ∧ upper.toInt ≤ xs.length
  | addAll q? => q?.isSome
  | _ => True

/-- What an operation does to a sequence and what it answers. A position is the number of items before it; what is
searched for and what is taken away by its value is the first item that is loosely equal to it; a part is a new list. -/
inductive Does (σ σ' : Store) : ListOp → List Value → Value → List Value → Prop
  | size {xs v} : v.Counts xs.length → Does σ σ' size xs v xs
  | isEmpty {xs} : Does σ σ' isEmpty xs (.bool xs.isEmpty) xs
  | get {i x before after} : i.toInt = before.length →
    Does σ σ' (get i) (before ++ x :: after) x (before ++ x :: after)
  | contains {x xs place?} : ListMethods.FirstEqual σ x xs place? →
    Does σ σ' (contains x) xs (.bool place?.isSome) xs
  | indexOf {x xs k v} : ListMethods.FirstEqual σ x xs (some k) → v.Counts k → Does σ σ' (indexOf x) xs v xs
  | indexOfAbsent {x xs} : ListMethods.FirstEqual σ x xs none → Does σ σ' (indexOf x) xs (.int (-1)) xs
  | add {x xs} : Does σ σ' (add x) xs (.bool true) (xs ++ [x])
  | insert {i x before after} : i.toInt = before.length →
    Does σ σ' (insert i x) (before ++ after) .null (before ++ x :: after)
  | set {i x y before after} : i.toInt = before.length →
    Does σ σ' (set i x) (before ++ y :: after) y (before ++ x :: after)
  | addAll {q xs} : Does σ σ' (addAll (some q)) xs (.bool !(σ.items q).isEmpty) (xs ++ (σ.items q).toList)
  | removeAt {i y before after} : i.toInt = before.length →
    Does σ σ' (removeAt i) (before ++ y :: after) y (before ++ after)
  | remove {x y before after} : ListMethods.FirstEqual σ x (before ++ y :: after) (some before.length) →
    Does σ σ' (remove x) (before ++ y :: after) (.bool true) (before ++ after)
  | removeAbsent {x xs} : ListMethods.FirstEqual σ x xs none → Does σ σ' (remove x) xs (.bool false) xs
  | clear {xs} : Does σ σ' clear xs .null []
  | subList {lower upper before part after q} : lower.toInt = before.length →
    upper.toInt = (before ++ part).length → σ.cell? q = none → σ'.Holds q part →
    Does σ σ' (subList lower upper) (before ++ part ++ after) (.list q) (before ++ part ++ after)

/-- What a call gives and leaves: an operation that can be done is done to the one list and to nothing else there is,
and one that cannot be done fails and does nothing. -/
inductive Acts (op : ListOp) (r : Ref) (σ : Store) : Except String Value → Store → Prop
  | succeeds {xs ys v σ'} : σ.Holds r xs → op.Valid xs → op.Does σ σ' xs v ys → σ'.Holds r ys →
    (∀ q c, q ≠ r → σ.cell? q = some c → σ'.cell? q = some c) → Acts op r σ (.ok v) σ'
  | fails {xs reason} : σ.Holds r xs → ¬op.Valid xs → Acts op r σ (.error reason) σ

end ListOp

namespace Store

variable {σ : Store} {r : Ref} {xs : List Value}

lemma Holds.items (h : σ.Holds r xs) : σ.items r = xs.toArray := by
  unfold Store.items
  rw [h]

end Store

/-! ### Calls of one list -/

namespace ListOp

open Render (Responds Changes)

variable {env : RenderEnv} {s : RenderState} {r : Ref} {op : ListOp} {name : String} {args xs ys : List Value}
  {v : Value}

/-- Whether a call of a list does all of an operation, or nothing. -/
def Runs (env : RenderEnv) (s : RenderState) (r : Ref) (name : String) (args : List Value) (op : ListOp) : Prop :=
  ∃ result σ, Responds env s (.list r) name args result σ ∧ op.Acts r s.store result σ

lemma runs_of_responds (h : Responds env s (.list r) name args (.ok v) s.store) (holds : s.store.Holds r xs)
    (valid : op.Valid xs) (does : op.Does s.store s.store xs v xs) : op.Runs env s r name args :=
  ⟨_, _, h, .succeeds holds valid does holds fun _ _ _ there => there⟩

lemma runs_of_changes {e : Except String (Value × Array Value)} (h : Changes env s r name args e)
    (he : e = .ok (v, ys.toArray)) (holds : s.store.Holds r xs) (valid : op.Valid xs)
    (does : ∀ σ', op.Does s.store σ' xs v ys) : op.Runs env s r name args := by
  subst he
  refine ⟨_, _, h, .succeeds holds valid (does _) (Store.cell?_set_self holds _) fun q c other there => ?_⟩
  exact (Store.cell?_set_of_ne other _).trans there

lemma runs_of_refused {reason : String} (h : Responds env s (.list r) name args (.error reason) s.store)
    (holds : s.store.Holds r xs) (invalid : ¬op.Valid xs) : op.Runs env s r name args :=
  ⟨_, _, h, .fails holds invalid⟩

section

variable (hs : s.Recalls env.types) (holds : s.store.Holds r xs)
include hs holds

lemma runs_get (i : Int64) : (get i).Runs env s r "get" [.int i] := by
  have h := Render.responds_get hs r i
  rw [holds.items] at h
  by_cases valid : (get i).Valid xs
  · obtain ⟨before, x, after, rfl, place⟩ := exists_item valid
    rw [ListMethods.itemAt_append place] at h
    exact runs_of_responds h holds valid (.get place)
  · obtain ⟨reason, refused⟩ := ListMethods.itemAt_of_outside valid
    rw [refused] at h
    exact runs_of_refused h holds valid

lemma runs_insert (i : Int64) (x : Value) : (insert i x).Runs env s r "add" [.int i, x] := by
  have h := Render.changes_insert hs r i x
  rw [holds.items] at h
  by_cases valid : (insert i x).Valid xs
  · obtain ⟨before, after, rfl, place⟩ := exists_gap valid
    rw [ListMethods.insertAt_append place] at h
    exact runs_of_changes h rfl holds valid fun _ => .insert place
  · obtain ⟨reason, refused⟩ := ListMethods.insertAt_of_outside valid
    rw [refused] at h
    exact runs_of_refused h holds valid

lemma runs_set (i : Int64) (x : Value) : (set i x).Runs env s r "set" [.int i, x] := by
  have h := Render.changes_set hs r i x
  rw [holds.items] at h
  by_cases valid : (set i x).Valid xs
  · obtain ⟨before, y, after, rfl, place⟩ := exists_item valid
    rw [ListMethods.itemAt_append place] at h
    refine runs_of_changes h ?_ holds valid fun _ => .set place
    exact congrArg (fun ys => Except.ok (y, ys)) ListMethods.setIfInBounds_append
  · obtain ⟨reason, refused⟩ := ListMethods.itemAt_of_outside valid
    rw [refused] at h
    exact runs_of_refused h holds valid

lemma runs_removeAt (i : Int64) : (removeAt i).Runs env s r "remove" [.int i] := by
  have h := Render.changes_removeAt hs r i
  rw [holds.items] at h
  by_cases valid : (removeAt i).Valid xs
  · obtain ⟨before, y, after, rfl, place⟩ := exists_item valid
    rw [ListMethods.itemAt_append place] at h
    refine runs_of_changes h ?_ holds valid fun _ => .removeAt place
    exact congrArg (fun ys => Except.ok (y, ys)) ListMethods.removeAt_append
  · obtain ⟨reason, refused⟩ := ListMethods.itemAt_of_outside valid
    rw [refused] at h
    exact runs_of_refused h holds valid

lemma runs_contains (x : Value) : (contains x).Runs env s r "contains" [x] := by
  have h := Render.responds_contains_item hs r x
  rw [holds.items] at h
  exact runs_of_responds h holds trivial (.contains (ListMethods.firstEqual_indexOf? _ x xs))

lemma runs_indexOf (x : Value) : (indexOf x).Runs env s r "indexOf" [x] := by
  have h := Render.responds_indexOf_item hs r x
  have first := ListMethods.firstEqual_indexOf? s.store x xs
  rw [holds.items] at h
  cases place : ListMethods.indexOf? s.store xs.toArray x with
  | some k =>
    rw [place] at h first
    exact runs_of_responds h holds trivial (.indexOf first (Value.counts_ofNat k))
  | none =>
    rw [place] at h first
    exact runs_of_responds h holds trivial (.indexOfAbsent first)

lemma runs_remove {x : Value} (other : ∀ i, x ≠ .int i) : (remove x).Runs env s r "remove" [x] := by
  have h := Render.changes_remove hs r x other
  have first := ListMethods.firstEqual_indexOf? s.store x xs
  rw [holds.items] at h
  cases place : ListMethods.indexOf? s.store xs.toArray x with
  | some k =>
    rw [place] at h first
    have split := first
    cases first with
    | found _ _ =>
      refine runs_of_changes h ?_ holds trivial fun _ => .remove split
      exact congrArg (fun ys => Except.ok (Value.bool true, ys)) ListMethods.removeAt_append
  | none =>
    rw [place] at h first
    exact runs_of_changes h rfl holds trivial fun _ => .removeAbsent first

lemma runs_addAll (q : Ref) : (addAll (some q)).Runs env s r "addAll" [.list q] := by
  have h := Render.changes_addAll hs r q
  rw [holds.items] at h
  refine runs_of_changes h ?_ holds rfl fun _ => .addAll
  exact congrArg (fun ys => Except.ok (_, ys)) (List.append_toArray xs (s.store.items q).toList)

lemma runs_subList (i j : Int64) : (subList i j).Runs env s r "subList" [.int i, .int j] := by
  have h := Render.settles_subList hs r i j
  rw [holds.items] at h
  by_cases valid : (subList i j).Valid xs
  · obtain ⟨before, part, after, rfl, lower, upper⟩ := exists_part valid
    rw [ListMethods.between_append lower upper] at h
    have keeps := s.store.extends_alloc (.list part.toArray)
    have new : s.store.cell? (s.store.alloc (.list part.toArray)).1 = none :=
      Array.getElem?_eq_none (Nat.le_refl _)
    exact ⟨_, _, h, .succeeds holds valid (.subList lower upper new (Store.cell?_alloc _ _)) (keeps _ _ holds)
      fun q c _ there => keeps q c there⟩
  · obtain ⟨reason, refused⟩ := ListMethods.between_of_outside valid
    rw [refused] at h
    exact runs_of_refused h holds valid

end

/-- Every call that is an operation does all of it, or nothing. -/
lemma IsCall.runs (h : op.IsCall name args) (hs : s.Recalls env.types) (holds : s.store.Holds r xs) :
    op.Runs env s r name args := by
  cases h with
  | size =>
    have h : Responds env s (.list r) "size" [] (.ok (.ofNat (s.store.items r).size)) s.store :=
      Render.responds_of_resolve hs rfl rfl rfl
    rw [holds.items] at h
    exact runs_of_responds h holds trivial (.size (Value.counts_ofNat _))
  | isEmpty =>
    have h : Responds env s (.list r) "isEmpty" [] (.ok (.bool (s.store.items r).isEmpty)) s.store :=
      Render.responds_of_resolve hs rfl rfl rfl
    rw [holds.items, List.isEmpty_toArray] at h
    exact runs_of_responds h holds trivial .isEmpty
  | get => exact runs_get hs holds _
  | contains => exact runs_contains hs holds _
  | indexOf => exact runs_indexOf hs holds _
  | @add x =>
    have h := Render.changes_add hs r x
    rw [holds.items, List.push_toArray] at h
    exact runs_of_changes h rfl holds trivial fun _ => .add
  | insert => exact runs_insert hs holds _ _
  | set => exact runs_set hs holds _ _
  | addAll => exact runs_addAll hs holds _
  | addNull =>
    have h : Responds env s (.list r) "addAll" [.null] (.error _) s.store :=
      Render.responds_of_resolve hs rfl rfl rfl
    exact runs_of_refused h holds Bool.false_ne_true
  | removeAt => exact runs_removeAt hs holds _
  | remove other => exact runs_remove hs holds other
  | clear => exact runs_of_changes (Render.changes_clear hs r) rfl holds trivial fun _ => .clear
  | subList => exact runs_subList hs holds _ _

/-! ### Accepted calls -/

variable {σ : Store} {types : HostTypes}

lemma exists_int_of_passAll {ps : List ParamKind} {ws : List Value} (h : ParamKind.PassAll σ (.int :: ps) args ws) :
    ∃ i vs ws', args = .int i :: vs ∧ ParamKind.PassAll σ ps vs ws' := by
  cases h with
  | cons first rest =>
    cases first with
    | int => exact ⟨_, _, _, rfl, rest⟩
    | null admits => cases admits

lemma exists_of_passAll {p : ParamKind} {ps : List ParamKind} {ws : List Value}
    (h : ParamKind.PassAll σ (p :: ps) args ws) : ∃ x vs ws', args = x :: vs ∧ ParamKind.PassAll σ ps vs ws' := by
  cases h with
  | cons _ rest => exact ⟨_, _, _, rfl, rest⟩

lemma exists_isCall_remove (x : Value) : ∃ op : ListOp, op.IsCall "remove" [x] := by
  by_cases number : ∃ i, x = .int i
  · obtain ⟨i, rfl⟩ := number
    exact ⟨_, .removeAt⟩
  · exact ⟨_, .remove fun i same => number ⟨i, same⟩⟩

/-- The methods of lists and their parameters. -/
lemma signatures : ListMethods.all.map (fun m => (m.name, m.params)) =
    [("size", []), ("isEmpty", []), ("get", [.int]), ("contains", [.any]), ("indexOf", [.any]), ("add", [.any]),
      ("add", [.int, .any]), ("set", [.int, .any]), ("addAll", [.list]), ("remove", [.int]), ("remove", [.any]),
      ("clear", []), ("subList", [.int, .int])] := rfl

/-- An accepted call is one of a method of its name whose parameters the arguments fit. -/
lemma exists_passAll {choice : MemberChoice}
    (h : (MemberRequest.of σ (.list r) .method name args).resolve types = .ok choice) :
    ∃ params ws, (name, params) ∈ ListMethods.all.map (fun m => (m.name, m.params)) ∧
      ParamKind.PassAll σ params args ws := by
  obtain ⟨failure, found⟩ : ∃ failure, MemberRequest.firstOf failure
      [TypeInfo.preferred ⟨"List", ListMethods.all⟩ name .method (args.map (·.kind σ))] = .ok choice := ⟨_, h⟩
  have preferred := List.mem_singleton.mp (MemberRequest.mem_of_firstOf found)
  obtain ⟨i, m, ⟨⟨there, named⟩, accepts⟩, rfl, -⟩ := TypeInfo.preferred_eq_some_iff.mp preferred.symm
  have member : m ∈ ListMethods.all := List.mem_of_getElem? there
  have chosen : m.choice? i .method (args.map (·.kind σ)) = some (m.plan i .method (args.map (·.kind σ))) :=
    Method.choice?_eq_some_iff.mpr ⟨accepts, rfl⟩
  obtain ⟨vals, σ', receives⟩ : ∃ vals σ', m.Receives σ args vals σ' := ⟨_, _, Method.receives_of_choice chosen rfl⟩
  cases receives with
  | exactly _ passed => exact ⟨m.params, _, named ▸ List.mem_map_of_mem member, passed⟩
  | packed further _ _ =>
    rw [(ListMethods.keepsToParams_all m member).fixed] at further
    cases further

lemma exists_isCall {params : List ParamKind} {ws : List Value}
    (listed : (name, params) ∈ ListMethods.all.map (fun m => (m.name, m.params)))
    (passed : ParamKind.PassAll σ params args ws) : ∃ op : ListOp, op.IsCall name args := by
  rw [signatures] at listed
  simp only [List.mem_cons, Prod.mk.injEq, List.not_mem_nil, or_false] at listed
  obtain ⟨rfl, rfl⟩ | ⟨rfl, rfl⟩ | ⟨rfl, rfl⟩ | ⟨rfl, rfl⟩ | ⟨rfl, rfl⟩ | ⟨rfl, rfl⟩ | ⟨rfl, rfl⟩ | ⟨rfl, rfl⟩ |
    ⟨rfl, rfl⟩ | ⟨rfl, rfl⟩ | ⟨rfl, rfl⟩ | ⟨rfl, rfl⟩ | ⟨rfl, rfl⟩ := listed
  · cases passed
    exact ⟨_, .size⟩
  · cases passed
    exact ⟨_, .isEmpty⟩
  · obtain ⟨i, _, _, rfl, ⟨⟩⟩ := exists_int_of_passAll passed
    exact ⟨_, .get⟩
  · obtain ⟨x, _, _, rfl, ⟨⟩⟩ := exists_of_passAll passed
    exact ⟨_, .contains⟩
  · obtain ⟨x, _, _, rfl, ⟨⟩⟩ := exists_of_passAll passed
    exact ⟨_, .indexOf⟩
  · obtain ⟨x, _, _, rfl, ⟨⟩⟩ := exists_of_passAll passed
    exact ⟨_, .add⟩
  · obtain ⟨i, _, _, rfl, rest⟩ := exists_int_of_passAll passed
    obtain ⟨x, _, _, rfl, ⟨⟩⟩ := exists_of_passAll rest
    exact ⟨_, .insert⟩
  · obtain ⟨i, _, _, rfl, rest⟩ := exists_int_of_passAll passed
    obtain ⟨x, _, _, rfl, ⟨⟩⟩ := exists_of_passAll rest
    exact ⟨_, .set⟩
  · cases passed with
    | cons first rest =>
      cases rest
      cases first with
      | list => exact ⟨_, .addAll⟩
      | null _ => exact ⟨_, .addNull⟩
  · obtain ⟨i, _, _, rfl, ⟨⟩⟩ := exists_int_of_passAll passed
    exact ⟨_, .removeAt⟩
  · obtain ⟨x, _, _, rfl, ⟨⟩⟩ := exists_of_passAll passed
    exact exists_isCall_remove x
  · cases passed
    exact ⟨_, .clear⟩
  · obtain ⟨i, _, _, rfl, rest⟩ := exists_int_of_passAll passed
    obtain ⟨j, _, _, rfl, ⟨⟩⟩ := exists_int_of_passAll rest
    exact ⟨_, .subList⟩

lemma IsCall.exists_choice (h : op.IsCall name args) :
    ∃ choice, (MemberRequest.of σ (.list r) .method name args).resolve types = .ok choice := by
  cases h with
  | contains | indexOf | add | insert | set =>
    rename_i x
    cases x <;> exact ⟨_, rfl⟩
  | @remove x other =>
    cases x with
    | int i => exact absurd rfl (other i)
    | _ => exact ⟨_, rfl⟩
  | _ => exact ⟨_, rfl⟩

/-- The calls that are accepted are the operations. -/
lemma resolve_iff : (∃ choice, (MemberRequest.of σ (.list r) .method name args).resolve types = .ok choice) ↔
    ∃ op : ListOp, op.IsCall name args := by
  constructor
  · rintro ⟨choice, h⟩
    obtain ⟨params, ws, listed, passed⟩ := exists_passAll h
    exact exists_isCall listed passed
  · rintro ⟨op, h⟩
    exact h.exists_choice

/-- What is a list before an operation is a list afterwards. -/
lemma Acts.exists_holds {result : Except String Value} {σ' : Store} (h : op.Acts r σ result σ') {q : Ref}
    (holds : σ.Holds q xs) : ∃ ys, σ'.Holds q ys := by
  cases h with
  | succeeds _ _ _ after others =>
    by_cases same : q = r
    · subst same
      exact ⟨_, after⟩
    · exact ⟨xs, others q _ same holds⟩
  | fails _ _ => exact ⟨xs, holds⟩

end ListOp

/-! ### Calls one after the other -/

/-- A call of a method of a list where it stands in a template, and whether references are strict there. -/
structure ListCall where
  receiver : Ref
  name : String
  args : List Value
  position : Position
  strict : Bool

namespace ListCall

def run (call : ListCall) : Render Value :=
  Render.member (.list call.receiver) call.position .method call.name call.args call.strict

/-- Whether there is a list to be called, one method of which accepts the arguments. -/
def Accepted (types : HostTypes) (σ : Store) (call : ListCall) : Prop :=
  (∃ xs, σ.Holds call.receiver xs) ∧
    ∃ choice, (MemberRequest.of σ (.list call.receiver) .method call.name call.args).resolve types = .ok choice

/-- What calls do one after the other, whether the ones before succeed or fail: each is an operation, and does all of
it or nothing. -/
inductive RunAll (env : RenderEnv) : RenderState → List ListCall → RenderState → Prop
  | done {s} : RunAll env s [] s
  | call {s t u call calls result} {op : ListOp} : op.IsCall call.name call.args →
    op.Acts call.receiver s.store result t.store →
    call.run env s = Render.called "List" call.name call.position result t → s.Turns env.types t.store t →
    RunAll env t calls u → RunAll env s (call :: calls) u

variable {env : RenderEnv} {s : RenderState} {call : ListCall}

/-- One accepted call is an operation, and what was accepted before it is accepted after it. -/
lemma exists_acts (hs : s.Recalls env.types) (accepted : call.Accepted env.types s.store) :
    ∃ (op : ListOp) (result : Except String Value) (t : RenderState), op.IsCall call.name call.args ∧
      op.Acts call.receiver s.store result t.store ∧
      call.run env s = Render.called "List" call.name call.position result t ∧ s.Turns env.types t.store t := by
  obtain ⟨⟨xs, holds⟩, resolved⟩ := accepted
  obtain ⟨op, is⟩ := ListOp.resolve_iff.mp resolved
  obtain ⟨result, σ, responds, acts⟩ := is.runs hs holds
  obtain ⟨t, turns, run⟩ := responds call.position call.strict
  obtain rfl := turns.store
  exact ⟨op, result, t, is, acts, run, turns⟩

lemma Accepted.after {other : ListCall} {op : ListOp} {result : Except String Value} {σ σ' : Store} {types : HostTypes}
    (h : other.Accepted types σ) (acts : op.Acts call.receiver σ result σ') : other.Accepted types σ' :=
  ⟨h.1.elim fun _ holds => acts.exists_holds holds, ListOp.resolve_iff.mpr (ListOp.resolve_iff.mp h.2)⟩

/-- Accepted calls run one after the other, by induction on them. -/
lemma exists_runAll (hs : s.Recalls env.types) (calls : List ListCall)
    (accepted : ∀ call ∈ calls, call.Accepted env.types s.store) :
    ∃ t, RunAll env s calls t ∧ t.Recalls env.types := by
  induction calls generalizing s with
  | nil => exact ⟨s, .done, hs⟩
  | cons call calls ih =>
    obtain ⟨first, others⟩ := List.forall_mem_cons.mp accepted
    obtain ⟨op, result, t, is, acts, run, turns⟩ := exists_acts hs first
    obtain ⟨u, ran, recalls⟩ := ih turns.recalls fun other among => (others other among).after acts
    exact ⟨u, .call is acts run turns ran, recalls⟩

end ListCall

/-! ### Main result -/

namespace Render

variable {env : RenderEnv} {s : RenderState} {r : Ref} {xs : List Value}

/-- Three methods agree on whether a value is among the items. -/
lemma agree (hs : s.Recalls env.types) (r : Ref) (x : Value) :
    ∃ b n, Responds env s (.list r) "contains" [x] (.ok (.bool b)) s.store ∧
      Responds env s (.list r) "indexOf" [x] (.ok (.int n)) s.store ∧ (b = true ↔ 0 ≤ n.toInt) ∧
      ((∀ i, x ≠ .int i) → ∃ σ, Responds env s (.list r) "remove" [x] (.ok (.bool b)) σ) := by
  have removed (other : ∀ i, x ≠ .int i) : ∃ σ, Responds env s (.list r) "remove" [x]
      (.ok (.bool (ListMethods.indexOf? s.store (s.store.items r) x).isSome)) σ := by
    have h := changes_remove hs r x other
    cases place : ListMethods.indexOf? s.store (s.store.items r) x with
    | some k =>
      rw [place] at h
      exact ⟨_, h⟩
    | none =>
      rw [place] at h
      exact ⟨_, h⟩
  obtain ⟨n, found, sign⟩ : ∃ n : Int64, Responds env s (.list r) "indexOf" [x] (.ok (.int n)) s.store ∧
      ((ListMethods.indexOf? s.store (s.store.items r) x).isSome = true ↔ 0 ≤ n.toInt) := by
    have h := responds_indexOf_item hs r x
    cases place : ListMethods.indexOf? s.store (s.store.items r) x with
    | some k =>
      obtain ⟨n, same, count⟩ := Value.counts_ofNat k
      have inside := Value.Counts.toInt_le ⟨n, rfl, count⟩ (Nat.le_refl k)
      rw [place] at h
      dsimp only at h
      rw [same] at h
      exact ⟨n, h, iff_of_true rfl inside.1⟩
    | none =>
      rw [place] at h
      exact ⟨-1, h, iff_of_false Bool.false_ne_true (by decide)⟩
  exact ⟨_, n, responds_contains_item hs r x, found, sign, removed⟩

/-- All items of a list may be added to itself. -/
lemma doubles (hs : s.Recalls env.types) (holds : s.store.Holds r xs) :
    ∃ v σ, Responds env s (.list r) "addAll" [.list r] (.ok v) σ ∧ σ.Holds r (xs ++ xs) := by
  have h := changes_addAll hs r r
  rw [holds.items, List.append_toArray] at h
  exact ⟨_, _, h, Store.cell?_set_self holds _⟩

end Render

/-- Methods of lists do all or nothing. The calls that are accepted are the operations on sequences. Of accepted calls
of any lists, each that succeeds does its operation to its list, answers what it is to and leaves all else there is,
and each that fails leaves everything; an operation succeeds exactly where it can be done. Whether a value is among the
items, `contains`, `indexOf` and `remove` agree, and a list to which itself is added is doubled. -/
theorem lists_all_or_nothing {env : RenderEnv} {s : RenderState} (hs : s.Recalls env.types) :
    (∀ r name args,
      (∃ choice, (MemberRequest.of s.store (.list r) .method name args).resolve env.types = .ok choice) ↔
        ∃ op : ListOp, op.IsCall name args) ∧
    (∀ calls : List ListCall, (∀ call ∈ calls, call.Accepted env.types s.store) →
      ∃ t, ListCall.RunAll env s calls t ∧ t.Recalls env.types) ∧
    (∀ r x, ∃ b n, Render.Responds env s (.list r) "contains" [x] (.ok (.bool b)) s.store ∧
      Render.Responds env s (.list r) "indexOf" [x] (.ok (.int n)) s.store ∧ (b = true ↔ 0 ≤ n.toInt) ∧
      ((∀ i, x ≠ .int i) → ∃ σ, Render.Responds env s (.list r) "remove" [x] (.ok (.bool b)) σ)) ∧
    ∀ r xs, s.store.Holds r xs →
      ∃ v σ, Render.Responds env s (.list r) "addAll" [.list r] (.ok v) σ ∧ σ.Holds r (xs ++ xs) :=
  ⟨fun _ _ _ => ListOp.resolve_iff, ListCall.exists_runAll hs, Render.agree hs, fun _ _ => Render.doubles hs⟩

/-- A list that is added to itself, from which no tenth item can be taken, and into which a null is put. -/
theorem lists_all_or_nothing_doubled :
    let p : Position := default
    let env := (Engine.initial .standard).env (.ofTemplates [] id)
    let s := (Engine.initial .standard).start ⟨#[.list #[.int 1, .str "a"]]⟩ (Context.empty.put "l" (.list ⟨0⟩)) .empty
    let calls : List ListCall := [⟨⟨0⟩, "addAll", [.list ⟨0⟩], p, false⟩, ⟨⟨0⟩, "remove", [.int 9], p, true⟩,
      ⟨⟨0⟩, "add", [.int 4, .null], p, false⟩]
    (s.Recalls env.types ∧ s.store.Holds ⟨0⟩ [.int 1, .str "a"] ∧
      ∀ call ∈ calls, call.Accepted env.types s.store) ∧
    (∃ t, ListCall.RunAll env s calls t ∧ t.Recalls env.types) ∧
      ∃ v σ, Render.Responds env s (.list ⟨0⟩) "addAll" [.list ⟨0⟩] (.ok v) σ ∧
        σ.Holds ⟨0⟩ [.int 1, .str "a", .int 1, .str "a"] := by
  intro p env s calls
  have recalls : s.Recalls env.types := .of_nil (ChoiceMemory.sound_empty _) rfl
  have holds : s.store.Holds ⟨0⟩ [.int 1, .str "a"] := rfl
  obtain ⟨-, runs, -, doubled⟩ := lists_all_or_nothing recalls
  have accepted : ∀ call ∈ calls, call.Accepted env.types s.store := by
    refine List.forall_mem_cons.mpr ⟨⟨⟨_, holds⟩, _, rfl⟩, List.forall_mem_cons.mpr ⟨⟨⟨_, holds⟩, _, rfl⟩, ?_⟩⟩
    exact List.forall_mem_singleton.mpr ⟨⟨_, holds⟩, _, rfl⟩
  exact ⟨⟨recalls, holds, accepted⟩, runs calls accepted, doubled ⟨0⟩ _ holds⟩

end Stencil
