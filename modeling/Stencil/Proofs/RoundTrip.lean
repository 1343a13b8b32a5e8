import Stencil.Proofs.Reading.Assignments
import Stencil.Proofs.Reading.Literals
import Stencil.Render.Node

/-!
# Literals and values

The literal of a datum stands for the datum: it is read as an expression, and the value of that is the datum
again, whatever the state and whether references are strict or not. Main statement: `Datum.round_trip`.
-/

namespace Stencil

open Datum (Is)

/-- A state with another store. -/
def RenderState.stored (s : RenderState) (σ : Store) : RenderState := { s with store := σ }

/-! ### Evaluating -/

/-- A value is a datum in a store that has all cells of another one and new ones for the lists and maps of the
datum. -/
structure Datum.Added (d : Datum) (σ τ : Store) (v : Value) : Prop where
  is : Is τ d v
  kept : σ.Extends τ
  room : σ.cells.size + d.height ≤ τ.cells.size

/-- Wherever an expression is evaluated, its value is a datum, and the state is the one before with new cells. -/
def Interpreter.Yields (self : Interpreter) (d : Datum) (e : Expr) : Prop :=
  ∀ lenient env s, ∃ v σ, self.eval lenient e env s = .ok v (s.stored σ) ∧ d.Added s.store σ v

namespace Interpreter

variable {self : Interpreter} {env : RenderEnv}

/-- The values of expressions that yield data are these data, in order. -/
lemma mapM_yields {ds : List Datum} {es : List Expr} (h : List.Forall₂ self.Yields ds es) (s : RenderState) :
    ∃ vs σ, es.mapM self.value env s = .ok vs (s.stored σ) ∧ List.Forall₂ (Is σ) ds vs ∧
      s.store.Extends σ ∧ s.store.cells.size + Datum.itemsHeight ds ≤ σ.cells.size := by
  induction h generalizing s with
  | nil => exact ⟨[], s.store, rfl, .nil, s.store.extends_refl, Nat.le_refl _⟩
  | @cons d e ds es first _ ih =>
    obtain ⟨v, σ, here, is, kept, room⟩ := first false env s
    obtain ⟨vs, τ, later, are, kept', room'⟩ := ih (s.stored σ)
    refine ⟨v :: vs, τ, ?_, .cons (is.extends kept') are, kept.trans kept', ?_⟩
    · rw [List.mapM_cons, Render.bind_apply, value, here]
      dsimp only
      rw [Render.bind_apply, later]
      rfl
    · have grown : σ.cells.size + Datum.itemsHeight ds ≤ τ.cells.size := room'
      rw [Datum.itemsHeight]
      omega

/-- A dictionary with further entries, whose values are data in order. -/
structure Appended (m n : Dict Value) (es : List (String × Datum)) (σ : Store) : Prop where
  keys : n.keys = m.keys ++ es.map Prod.fst
  values : ∃ vs, n.values = m.values ++ vs ∧ List.Forall₂ (Is σ) (es.map Prod.snd) vs

/-- The first entry is put behind those that are there. -/
lemma Appended.cons {m n : Dict Value} {k : String} {d : Datum} {es : List (String × Datum)} {σ : Store} {v : Value}
    (unknown : k ∉ m.keys) (is : Is σ d v) (h : Appended (m.insert k v) n es σ) : Appended m n ((k, d) :: es) σ := by
  have inserted := Dict.entries_insert unknown v
  obtain ⟨keys, vs, values, are⟩ := h
  constructor
  · rw [keys, Dict.keys, inserted, List.map_append, List.append_assoc]
    rfl
  · refine ⟨v :: vs, ?_, .cons is are⟩
    rw [values, Dict.values, inserted, List.map_append, List.append_assoc]
    rfl

/-- The entries of expressions that yield data are put behind those that are there, in order. -/
lemma entries_yields {es : List (String × Datum)} {fs : List Entry}
    (hk : List.Forall₂ self.Yields (es.map fun e => .str e.1) (fs.map Entry.key))
    (hv : List.Forall₂ self.Yields (es.map Prod.snd) (fs.map Entry.value)) (m : Dict Value) (s : RenderState)
    (fresh : (m.keys ++ es.map Prod.fst).Nodup) :
    ∃ n σ, self.entries fs m env s = .ok n (s.stored σ) ∧ Appended m n es σ ∧ s.store.Extends σ ∧
      s.store.cells.size + Datum.entriesHeight es ≤ σ.cells.size := by
  induction es generalizing fs m s with
  | nil =>
    obtain rfl : fs = [] := List.map_eq_nil_iff.mp ((List.forall₂_nil_left_iff).mp hk)
    have same : Appended m m [] s.store := ⟨(List.append_nil _).symm, [], (List.append_nil _).symm, .nil⟩
    exact ⟨m, s.store, rfl, same, s.store.extends_refl, Nat.le_refl _⟩
  | cons e es ih =>
    obtain ⟨k, d⟩ := e
    cases fs with
    | nil => cases hk
    | cons f fs =>
      obtain ⟨key, keys⟩ := List.forall₂_cons.mp hk
      obtain ⟨value, values⟩ := List.forall₂_cons.mp hv
      obtain ⟨_, σ, first, ⟨k⟩, kept, grown⟩ := key false env s
      obtain ⟨w, τ, second, is, kept', room⟩ := value false env (s.stored σ)
      have unknown : k ∉ m.keys := fun hm =>
        (List.nodup_append.mp fresh).2.2 k hm k (List.mem_cons_self ..) rfl
      have fresh' : ((m.insert k w).keys ++ es.map Prod.fst).Nodup := by
        rw [Dict.keys_insert, if_neg unknown, List.append_assoc]
        exact fresh
      obtain ⟨n, υ, later, appended, kept'', room'⟩ := ih keys values (m.insert k w) (s.stored τ) fresh'
      refine ⟨n, υ, ?_, appended.cons unknown (is.extends kept''), (kept.trans kept').trans kept'', ?_⟩
      · show (self.eval false f.key >>= fun v => Render.display v >>= fun key =>
          self.eval false f.value >>= fun v => self.entries fs (m.insert key v)) env s = _
        rw [Render.bind_apply, first]
        show (self.eval false f.value >>= fun v => self.entries fs (m.insert k v)) env (s.stored σ) = _
        rw [Render.bind_apply, second]
        exact later
      · have grown' : s.store.cells.size ≤ σ.cells.size := grown
        have grown'' : σ.cells.size + d.height ≤ τ.cells.size := room
        have rest : τ.cells.size + Datum.entriesHeight es ≤ υ.cells.size := room'
        rw [Datum.entriesHeight]
        omega

/-- A literal of a plain value yields it and leaves the state as it is. -/
lemma yields_literal {d : Datum} {l : Literal} (is : ∀ σ, Is σ d l.value) (flat : d.height = 0) (depth : Nat)
    (p : Position) : (ofDepth (depth + 1)).Yields d ⟨.literal l, p⟩ := by
  intro lenient env s
  exact ⟨l.value, s.store, rfl, is s.store, s.store.extends_refl, by rw [flat, Nat.add_zero]⟩

/-- Expressions yield what they are the literals of, where each literal of such a datum does. -/
lemma forall_yields {ds : List Datum} {es : List Expr} (hf : List.Forall₂ Datum.Form ds es)
    (h : ∀ d ∈ ds, ∀ {e}, d.Form e → self.Yields d e) : List.Forall₂ self.Yields ds es :=
  ((List.forall₂_and_left ds es).mpr ⟨h, hf⟩).imp fun _ _ h => h.1 h.2

/-- A literal yields its datum where its lists and maps are followed to their depth. -/
lemma yields_form {d : Datum} {e : Expr} (hf : d.Form e) (hp : d.isProper) {depth : Nat} (hd : d.height < depth) :
    (ofDepth depth).Yields d e := by
  obtain ⟨depth, rfl⟩ := Nat.exists_eq_add_one.mpr (Nat.zero_lt_of_lt hd)
  induction d generalizing e depth with
  | null =>
    cases hf
    exact yields_literal (fun _ => .null) rfl depth _
  | bool b =>
    cases hf
    exact yields_literal (fun _ => .bool b) rfl depth _
  | int n =>
    cases hf
    exact yields_literal (fun _ => .int n) rfl depth _
  | str t =>
    cases hf
    exact yields_literal (fun _ => .str t) rfl depth _
  | list ds ih =>
    intro lenient env s
    cases hf with
    | @list _ es p forms =>
      have yields : List.Forall₂ (ofDepth depth).Yields ds es := by
        refine forall_yields forms fun d hm e hf => ?_
        have lower := Datum.height_lt_of_mem hm
        obtain ⟨k, rfl⟩ : ∃ k, depth = k + 1 := ⟨depth - 1, by omega⟩
        exact ih d hm hf (Datum.isProper_of_mem hp d hm) k (by omega)
      obtain ⟨vs, σ, values, are, kept, room⟩ := @mapM_yields _ env _ _ yields s
      have cell := σ.cell?_alloc (.list vs.toArray)
      have grown := σ.extends_alloc (.list vs.toArray)
      refine ⟨.list ⟨σ.cells.size⟩, (σ.newList vs.toArray).2, ?_, ?_, kept.trans grown, ?_⟩
      · show (es.mapM (ofDepth depth).value >>= fun vs => Render.change (·.newList vs.toArray)) env s = _
        rw [Render.bind_apply, values]
        rfl
      · exact .list cell (are.imp fun _ _ h => h.extends grown)
      · rw [Datum.height]
        show _ ≤ (σ.cells.push (.list vs.toArray)).size
        rw [Array.size_push]
        omega
  | map es ih =>
    intro lenient env s
    obtain ⟨distinct, proper⟩ := Datum.isProper_of_entry hp
    cases hf with
    | @map _ fs p keys values =>
      have deep : 0 < depth := by
        have positive : 0 < (Datum.map es).height := Nat.succ_pos _
        omega
      have yields : List.Forall₂ (ofDepth depth).Yields (es.map Prod.snd) (fs.map Entry.value) := by
        refine forall_yields values (List.forall_mem_map.mpr fun f hm e hf => ?_)
        have lower := Datum.height_lt_of_entry hm
        obtain ⟨k, rfl⟩ : ∃ k, depth = k + 1 := ⟨depth - 1, by omega⟩
        exact ih f hm hf (proper f hm) k (by omega)
      have yieldKeys : List.Forall₂ (ofDepth depth).Yields (es.map fun e => .str e.1) (fs.map Entry.key) := by
        refine forall_yields keys (List.forall_mem_map.mpr fun f hm e hf => ?_)
        obtain ⟨k, rfl⟩ := Nat.exists_eq_add_one.mpr deep
        cases hf
        exact yields_literal (fun _ => .str _) rfl k _
      obtain ⟨n, σ, done, appended, kept, room⟩ := @entries_yields _ env _ _ yieldKeys yields ∅ s distinct
      obtain ⟨keys', vs, values', are⟩ := appended
      have cell := σ.cell?_alloc (.map n)
      have grown := σ.extends_alloc (.map n)
      refine ⟨.map ⟨σ.cells.size⟩, (σ.newMap n).2, ?_, ?_, kept.trans grown, ?_⟩
      · show ((ofDepth depth).entries fs ∅ >>= fun d => Render.change (·.newMap d)) env s = _
        rw [Render.bind_apply, done]
        rfl
      · have all : n.values = vs := values'
        exact .map cell keys' (all ▸ are.imp fun _ _ h => h.extends grown)
      · rw [Datum.height]
        show _ ≤ (σ.cells.push (.map n)).size
        rw [Array.size_push]
        omega

end Interpreter

/-! ### Assignments of literals -/

/-- The text that assigns a literal to a variable. -/
def Datum.assignment (v : Datum) : List Char := "#set($x = ".toList ++ v.literal ++ [')']

/-- A literal is read as an expression that it is the literal of, at any site. -/
lemma Rule.spelled_literal {v : Datum} (hp : v.isProper) (site : Site)
    (inner : Site → List Char → Except Failure Block) :
    Spelled site inner (3 * v.height + 3) v.literal v.Form where
  visible := starts_literal v
  reads hr hd hn := by
    obtain ⟨t, read, means⟩ := reads_literal hp hr hd hn
    obtain ⟨e, value, form⟩ := means site inner
    exact ⟨t, e, read, value, form⟩

/-- The text that assigns a literal parses as the assignment of the literal, whatever is gobbled. -/
lemma parse_assignment {v : Datum} (hp : v.isProper) (name : String) (policy : GobblingPolicy) :
    ∃ r e p, parse ⟨name, String.ofList v.assignment⟩ policy = .ok [⟨.assign r e, p⟩] ∧ r.root = "x" ∧
      r.segments = [] ∧ v.Form e := by
  have long : v.height ≤ v.assignment.length := Nat.le_trans v.height_le_length (length_le_assigning v.literal)
  refine parse_assigning policy (Rule.spelled_literal hp _ _) ?_
  show _ ≤ openRules v.assignment
  unfold openRules
  omega

/-- A literal breaks no rule. -/
lemma findings_form {v : Datum} {e : Expr} (hf : v.Form e) (enclosure : Enclosure) : Expr.findings enclosure e = [] := by
  have none {ds : List Datum} {es : List Expr} (hf : List.Forall₂ Datum.Form ds es)
      (h : ∀ d ∈ ds, ∀ {e}, d.Form e → Expr.findings enclosure e = []) : ∀ e ∈ es, Expr.findings enclosure e = [] := by
    induction hf with
    | nil => exact nofun
    | cons first _ ih =>
      obtain ⟨here, later⟩ := List.forall_mem_cons.mp h
      exact List.forall_mem_cons.mpr ⟨here first, ih later⟩
  induction v generalizing e with
  | null =>
    cases hf
    rfl
  | bool b =>
    cases hf
    rfl
  | int n =>
    cases hf
    rfl
  | str s =>
    cases hf
    rfl
  | list ds ih =>
    cases hf with
    | @list _ es p forms =>
      have all := none forms fun d hd _ hf => ih d hd hf
      show exprFindings enclosure es = []
      clear forms ih
      induction es with
      | nil => rfl
      | cons e es ih =>
        obtain ⟨here, later⟩ := List.forall_mem_cons.mp all
        rw [exprFindings, here, ih later]
        rfl
  | map es ih =>
    cases hf with
    | @map _ fs p keys values =>
      have noKey := none keys (List.forall_mem_map.mpr fun f _ _ hf => by cases hf; rfl)
      have noValue := none values (List.forall_mem_map.mpr fun f hm _ hf => ih f hm hf)
      show entryFindings enclosure fs = []
      clear keys values ih
      induction fs with
      | nil => rfl
      | cons f fs ih =>
        obtain ⟨key, keys⟩ := List.forall_mem_cons.mp noKey
        obtain ⟨value, values⟩ := List.forall_mem_cons.mp noValue
        obtain ⟨k, w⟩ := f
        rw [entryFindings, key, value, ih keys values]
        rfl

/-! ### There and back -/

/-- Wherever it is evaluated, an expression has a value that is the datum, whatever the state and whether
references are strict or not; and the state stays as it is, but for new cells. Values that were the datum before
are equal to it. -/
def Expr.StandsFor (e : Expr) (v : Datum) : Prop :=
  ∀ depth, v.height < depth → ∀ lenient env s, ∃ w σ,
    (Interpreter.ofDepth depth).eval lenient e env s = .ok w (s.stored σ) ∧ s.store.Extends σ ∧ Is σ v w ∧
      ∀ u, Is s.store v u → w.equal σ u

lemma Datum.Form.standsFor {v : Datum} {e : Expr} (hf : v.Form e) (hp : v.isProper) : e.StandsFor v := by
  intro depth hd lenient env s
  obtain ⟨w, σ, evaluated, is, kept, room⟩ := Interpreter.yields_form hf hp hd lenient env s
  refine ⟨w, σ, evaluated, kept, is, fun u hu => ?_⟩
  exact Is.equalWithin hp is (hu.extends kept) (by omega)

/-- The literal of a datum is an expression that stands for the datum: it is read as such wherever an expression
may end after it, and a template that assigns it to a variable compiles, whatever is gobbled. -/
theorem Datum.round_trip {v : Datum} (hp : v.isProper) :
    (∀ {c d depth}, c.Reaches d v.literal → d.Closes → 3 * v.height + 3 ≤ depth →
      ∃ t, (Rule.body.matcher depth .expr).Reads c d [t] ∧
        ∀ site inner, ∃ e, t.eval (Rule.meaning site inner) = .ok (.expr e) ∧ e.StandsFor v) ∧
    ∀ unit name policy, ∃ t r e p, Template.compile unit ⟨name, String.ofList v.assignment⟩ policy = .ok t ∧
      t.root = [⟨.assign r e, p⟩] ∧ r.root = "x" ∧ r.segments = [] ∧ e.StandsFor v := by
  constructor
  · intro c d depth h hd hv
    obtain ⟨t, read, means⟩ := Rule.reads_literal hp h hd hv
    refine ⟨t, read, fun site inner => ?_⟩
    obtain ⟨e, value, form⟩ := means site inner
    exact ⟨e, value, form.standsFor hp⟩
  · intro unit name policy
    obtain ⟨r, e, p, parsed, root, segments, form⟩ := parse_assignment hp name policy
    exact ⟨_, r, e, p, Template.compile_assignment parsed segments (findings_form form _) unit, rfl, root, segments,
      form.standsFor hp⟩

/-- Lists in maps in lists, with quotes and a negative number. -/
def Datum.nested : Datum :=
  .list [.map [("it's", .list [.null, .int (-7)]), ("", .map [])], .bool true, .str "''"]

example : Datum.nested.literal = "[\x7b'it''s': [null, -7], '': \x7b\x7d\x7d, true, '''''']".toList := by
  decide +kernel

theorem Datum.round_trip_nested : Datum.nested.isProper ∧
    ∃ t r e p, Template.compile .inline ⟨"t", String.ofList nested.assignment⟩ .structured = .ok t ∧
      t.root = [⟨.assign r e, p⟩] ∧ r.root = "x" ∧ r.segments = [] ∧ e.StandsFor nested := by
  have proper : nested.isProper := by decide +kernel
  exact ⟨proper, (round_trip proper).2 .inline "t" .structured⟩

end Stencil
