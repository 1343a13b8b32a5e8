import Stencil.Proofs.Indexing
import Stencil.Proofs.Members

/-!
# Assigning to the entries of a map

An entry of a map is assigned by a property or by an index. Main statements: `Render.property_reads_back`, a property
reads what was assigned to it unless it asks whether the map is empty; `Render.assigned_alike_iff`, the two ways to
assign do the same unless the value is null.
-/

namespace Stencil

/-! ### Entries -/

namespace Dict

variable {d : Dict Value} {k j : String} {v : Value}

/-- Gives a key a value, or takes the key away where the value is null. -/
def assign (d : Dict Value) (k : String) (v : Value) : Dict Value := if v.isNull then d.erase k else d.insert k v

lemma assign_of_not_null (h : v.isNull = false) : d.assign k v = d.insert k v := by
  unfold assign
  rw [h, if_neg Bool.false_ne_true]

lemma isEmpty_insert (d : Dict Value) (k : String) (v : Value) : (d.insert k v).isEmpty = false := by
  have there := mem_entries_of_get? ((d.get?_insert k k v).trans (if_pos rfl))
  exact List.isEmpty_eq_false_iff.mpr (List.ne_nil_of_mem there)

lemma property_of_asks (h : j = "empty" ∨ j = "Empty") : d.property j = .bool d.isEmpty := if_pos h

/-- A property that is an entry reads the value that its key was given, and the others read what they did. -/
lemma property_insert (h : ¬(j = "empty" ∨ j = "Empty")) :
    (d.insert k v).property j = if j = k then v else d.property j := by
  unfold property
  rw [if_neg h, if_neg h, get?_insert]
  split <;> rfl

/-- A key that was taken away has no value, not even a null. -/
lemma erase_ne_insert (d : Dict Value) (k : String) (v : Value) : d.erase k ≠ d.insert k v := by
  intro same
  have read := congrArg (·.get? k) same
  rw [get?_erase, get?_insert, if_pos rfl, if_pos rfl] at read
  cases read

end Dict

lemma Store.entries_of_cell? {σ : Store} {r : Ref} {d : Dict Value} (h : σ.cell? r = some (.map d)) :
    σ.entries r = d := by
  unfold entries
  rw [h]

namespace Render

variable {eval : Expr → Render Value} {env : RenderEnv} {s : RenderState} {x y : Reference} {r : Ref} {d : Dict Value}
  {k j : String} {v : Value} {e : Expr} {p q : Position}

/-! ### Reading and assigning -/

/-- Whether a reference reads a value, in conditions and elsewhere, and changes nothing but what is remembered. -/
def Reads (eval : Expr → Render Value) (env : RenderEnv) (s : RenderState) (x : Reference) (v : Value) : Prop :=
  ∀ lenient, ∃ t, reference eval x lenient env s = .ok v t ∧ s.Turns env.types s.store t

lemma reads_property (hs : s.Recalls env.types) (hy : y.segments = [⟨.property j, q⟩])
    (hm : s.get? y.root = some (.map r)) (hd : s.store.cell? r = some (.map d)) :
    Reads eval env s y (d.property j) := by
  intro lenient
  rw [reference_of_segment hy hm rfl, ← Store.entries_of_cell? hd]
  exact member_property hs r j q _

lemma assign_property (hx : x.segments = [⟨.property k, p⟩]) (hm : s.get? x.root = some (.map r))
    (hd : s.store.cell? r = some (.map d)) (v : Value) :
    assign eval x v env s = .ok ⟨⟩ { s with store := s.store.set r (.map (d.assign k v)) } := by
  rw [assign_of_segment hx hm rfl, ← Store.entries_of_cell? hd]
  rfl

/-- An assignment by an index keeps a null. -/
lemma assign_index {key : Value} {t : RenderState} (hy : y.segments = [⟨.index e, q⟩])
    (hm : s.get? y.root = some (.map r)) (he : eval e env s = .ok key t) (hd : t.store.cell? r = some (.map d))
    (v : Value) :
    assign eval y v env s = .ok ⟨⟩ { t with store := t.store.set r (.map (d.insert (key.display t.store) v)) } := by
  rw [assign_of_segment hy hm rfl, ← Store.entries_of_cell? hd]
  unfold assignSegment
  rw [bind_apply, strict_apply]
  dsimp only
  rw [bind_apply, he]
  rfl

/-! ### Main results -/

/-- A property assignment on a map is read back. Whatever the map and the value that is not null, and whether references
are strict or not, the property of the name reads the value afterwards and every other property reads what it did. The
names `empty` and `Empty` are no entries: before and afterwards they read whether the map is empty. -/
theorem property_reads_back (hx : x.segments = [⟨.property k, p⟩]) (hm : s.get? x.root = some (.map r))
    (hd : s.store.cell? r = some (.map d)) (hs : s.Recalls env.types) (hv : v.isNull = false) :
    ∃ t, assign eval x v env s = .ok ⟨⟩ t ∧
      ∀ y j q, y.segments = [⟨.property j, q⟩] → s.get? y.root = some (.map r) →
        if j = "empty" ∨ j = "Empty" then Reads eval env s y (.bool d.isEmpty) ∧ Reads eval env t y (.bool false)
        else ∃ w, Reads eval env s y w ∧ Reads eval env t y (if j = k then v else w) := by
  have there := Store.cell?_set_self hd (.map (d.insert k v))
  have turned := hs.turns (s.store.set r (.map (d.insert k v)))
  have run : assign eval x v env s = _ := assign_property hx hm hd v
  rw [Dict.assign_of_not_null hv] at run
  refine ⟨_, run, fun y j q hy hn => ?_⟩
  have before : Reads eval env s y (d.property j) := reads_property hs hy hn hd
  have after : Reads eval env _ y ((d.insert k v).property j) := reads_property turned.recalls hy hn there
  split
  · next asks =>
    rw [Dict.property_of_asks asks] at before after
    rw [Dict.isEmpty_insert] at after
    exact ⟨before, after⟩
  · next entry =>
    rw [Dict.property_insert entry] at after
    exact ⟨_, before, after⟩

/-- An entry is added to a map that has one. -/
theorem property_reads_back_added :
    let p : Position := default
    let x : Reference := ⟨"m", false, [⟨.property "b", p⟩], "$m.b", p⟩
    let eval := (Interpreter.ofDepth 1).value
    let env := (Engine.initial .standard).env (.ofTemplates [] id)
    let s := (Engine.initial .standard).start ⟨#[.map (Dict.ofList [("a", .int 1)])]⟩
      (Context.empty.put "m" (.map ⟨0⟩)) .empty
    (s.get? "m" = some (.map ⟨0⟩) ∧ s.store.cell? ⟨0⟩ = some (.map (Dict.ofList [("a", .int 1)])) ∧
        s.Recalls env.types) ∧
      ∃ t, assign eval x (.int 2) env s = .ok ⟨⟩ t ∧ Reads eval env t x (.int 2) := by
  intro p x eval env s
  have recalls : s.Recalls env.types := .of_nil (ChoiceMemory.sound_empty _) rfl
  obtain ⟨t, run, reads⟩ := @property_reads_back eval env s x ⟨0⟩ _ "b" (.int 2) p rfl rfl rfl recalls rfl
  have read := reads x "b" p rfl rfl
  rw [if_neg (by decide)] at read
  obtain ⟨w, -, after⟩ := read
  rw [if_pos rfl] at after
  exact ⟨⟨rfl, rfl, recalls⟩, t, run, after⟩

/-- An entry of the name `empty` is written but not read. -/
theorem empty_not_read_back :
    let r := (Engine.initial .standard).renderText (.ofTemplates [] id)
      "#set($m = \x7b'a': 1\x7d)#set($m.empty = 'x')$m.empty" .empty .empty .empty
    r.halt.isNone ∧ r.sink.written = "false" := by
  decide +kernel

/-- The two ways to assign an entry of a map do the very same, unless the value is null: then the property takes the key
away and the index keeps it, with the null. -/
theorem assigned_alike_iff (hx : x.segments = [⟨.property k, p⟩]) (hy : y.segments = [⟨.index e, q⟩])
    (he : eval e env s = .ok (.str k) s) (hm : s.get? x.root = some (.map r)) (hn : s.get? y.root = some (.map r))
    (hd : s.store.cell? r = some (.map d)) :
    (assign eval x v env s = assign eval y v env s ↔ v.isNull = false) ∧
      (v.isNull = true →
        (∃ t, assign eval x v env s = .ok ⟨⟩ t ∧ t.store.cell? r = some (.map (d.erase k))) ∧
          ∃ t, assign eval y v env s = .ok ⟨⟩ t ∧ t.store.cell? r = some (.map (d.insert k v))) := by
  have property : assign eval x v env s = _ := assign_property hx hm hd v
  have index := assign_index hy hn he hd v
  have erased (hv : v.isNull = true) : d.assign k v = d.erase k := if_pos hv
  have removed : (s.store.set r (.map (d.erase k))).cell? r = some (.map (d.erase k)) := Store.cell?_set_self hd _
  have kept : (s.store.set r (.map (d.insert k v))).cell? r = some (.map (d.insert k v)) := Store.cell?_set_self hd _
  refine ⟨⟨fun alike => ?_, fun hv => ?_⟩, fun hv => ⟨?_, ?_⟩⟩
  · by_contra null
    rw [property, index, erased (Bool.not_eq_false _ ▸ null)] at alike
    have stores := congrArg RenderState.store (EStateM.Result.ok.inj alike).2
    have cells := congrArg (·.cell? r) stores
    exact d.erase_ne_insert k v (Cell.map.inj (Option.some.inj (removed.symm.trans (cells.trans kept))))
  · rw [property, index, Dict.assign_of_not_null hv]
    rfl
  · rw [erased hv] at property
    exact ⟨_, property, removed⟩
  · exact ⟨_, index, kept⟩

/-- A number is assigned to a new key of an empty map. -/
theorem assigned_alike_iff_number :
    let p : Position := default
    let e : Expr := ⟨.literal (.str "k"), p⟩
    let x : Reference := ⟨"m", false, [⟨.property "k", p⟩], "$m.k", p⟩
    let y : Reference := ⟨"m", false, [⟨.index e, p⟩], "$m['k']", p⟩
    let eval := (Interpreter.ofDepth 1).value
    let env := (Engine.initial .standard).env (.ofTemplates [] id)
    let s := (Engine.initial .standard).start ⟨#[.map ∅]⟩ (Context.empty.put "m" (.map ⟨0⟩)) .empty
    (eval e env s = .ok (.str "k") s ∧ s.get? "m" = some (.map ⟨0⟩) ∧ s.store.cell? ⟨0⟩ = some (.map ∅)) ∧
      assign eval x (.int 1) env s = assign eval y (.int 1) env s ∧
      assign eval x .null env s ≠ assign eval y .null env s := by
  intro p e x y eval env s
  have alike (v : Value) : assign eval x v env s = assign eval y v env s ↔ v.isNull = false :=
    (assigned_alike_iff (x := x) (y := y) rfl rfl rfl rfl rfl rfl).1
  exact ⟨⟨rfl, rfl, rfl⟩, (alike _).mpr rfl, fun same => nomatch (alike _).mp same⟩

/-- A null that is assigned by an index is an entry. -/
theorem null_kept_by_index :
    let r := (Engine.initial .standard).renderText (.ofTemplates [] id)
      "#set($m = \x7b\x7d)#set($n = \x7b\x7d)#set($m.k = null)#set($n['k'] = null)$m.size()$n.size()"
      .empty .empty .empty
    r.halt.isNone ∧ r.sink.written = "01" := by
  decide +kernel

end Render

end Stencil
