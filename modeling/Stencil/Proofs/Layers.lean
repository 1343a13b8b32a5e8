import Mathlib.Data.List.Sort
import Mathlib.Data.String.Basic
import Stencil.Proofs.Lasting

/-!
# The layers of a context

A context is a stack of maps: a read sees the layer nearest to the reader that binds the name, which is the innermost
scope that does, and a write goes to the own layer. A caller may have many contexts that wrap one another, and may read,
write and wrap them in any order. Main statement: `Desk.answers_by_layers`.
-/

namespace Stencil

/-! ### The order of names -/

/-- Whether the bytes of a name come before those of another one. -/
def BytesBefore (s t : String) : Prop := s.toUTF8.data.toList < t.toUTF8.data.toList

lemma bytes_toUTF8 (s : String) : s.toUTF8.data.toList = s.toList.flatMap String.utf8EncodeChar := by
  conv_lhs => rw [← String.ofList_toList (s := s)]
  exact List.toList_data_toByteArray

/-- The character of the smaller number has the smaller bytes, whatever comes after them. -/
lemma utf8EncodeChar_append_lt {c d : Char} (h : c < d) (xs ys : List UInt8) :
    String.utf8EncodeChar c ++ xs < String.utf8EncodeChar d ++ ys := by
  have h : c.val.toNat < d.val.toNat := h
  have bounded : d.val.toNat < 0x110000 := by
    rcases d.valid with low | ⟨-, high⟩
    · exact low.trans (by decide)
    · exact high
  unfold String.utf8EncodeChar
  generalize c.val.toNat = m at h ⊢
  generalize d.val.toNat = n at h bounded ⊢
  -- the bytes are made of the digits to the base 64
  have digits (k : Nat) : k / 4096 = k / 64 / 64 ∧ k / 262144 = k / 64 / 64 / 64 := by omega
  have := digits m
  have := digits n
  dsimp only
  split_ifs <;>
    simp (disch := omega) only [List.cons_append, List.nil_append, List.cons_lt_cons_iff, UInt8.lt_iff_toNat_lt,
      ← UInt8.toNat_inj, UInt8.toNat_ofNat', Nat.mod_eq_of_lt] <;> omega

lemma flatMap_utf8EncodeChar_lt {cs ds : List Char} (h : cs < ds) :
    cs.flatMap String.utf8EncodeChar < ds.flatMap String.utf8EncodeChar := by
  induction h with
  | @nil d ds =>
    obtain ⟨b, bs, hb⟩ := List.exists_cons_of_ne_nil (String.utf8EncodeChar_ne_nil (c := d))
    rw [List.flatMap_nil, List.flatMap_cons, hb]
    exact List.nil_lt_cons ..
  | rel h => exact utf8EncodeChar_append_lt h ..
  | cons _ ih => exact List.append_left_lt ih

/-- The order of names by their characters is that by their bytes. -/
theorem bytesBefore_iff_lt (s t : String) : BytesBefore s t ↔ s < t := by
  unfold BytesBefore
  rw [bytes_toUTF8, bytes_toUTF8, String.lt_iff]
  refine ⟨fun h => ?_, flatMap_utf8EncodeChar_lt⟩
  rcases lt_trichotomy s.toList t.toList with before | same | after
  · exact before
  · rw [same] at h
    exact absurd h (List.lt_irrefl _)
  · exact absurd h (List.lt_asymm (flatMap_utf8EncodeChar_lt after))

lemma nodup_eraseDups : ∀ names : List String, names.eraseDups.Nodup
  | [] => List.nodup_nil
  | name :: names => by
    rw [List.eraseDups_cons]
    refine List.nodup_cons.mpr ⟨fun h => ?_, nodup_eraseDups _⟩
    obtain ⟨-, other⟩ := List.mem_filter.mp (List.mem_eraseDups.mp h)
    simp at other
termination_by names => names.length
decreasing_by exact Nat.lt_succ_of_le (List.length_filter_le _ _)

/-! ### One context -/

namespace Context

variable {c : Context}

/-- Whether a layer binds a name to a value, and no layer that is nearer to the reader binds it. -/
def Nearest (c : Context) (name : String) (v : Value) : Prop :=
  ∃ front layer back, c.layers = front ++ layer :: back ∧ layer.get? name = some v ∧ ∀ l ∈ front, l.get? name = none

/-- A read sees the nearest layer that binds the name. -/
lemma get?_eq_some_iff (c : Context) (name : String) (v : Value) : c.get? name = some v ↔ c.Nearest name v :=
  List.findSome?_eq_some_iff

lemma contains_iff (c : Context) (name : String) : c.contains name = true ↔ ∃ v, c.Nearest name v := by
  simp only [contains, Option.isSome_iff_exists, get?_eq_some_iff]

/-- The keys are the names that are bound in some layer. -/
lemma mem_keys_iff (c : Context) (name : String) : name ∈ c.keys ↔ ∃ v, c.Nearest name v := by
  rw [← contains_iff]
  simp only [keys, List.mem_mergeSort, List.mem_eraseDups, List.mem_flatMap, Dict.mem_keys_iff, contains, get?,
    List.findSome?_isSome_iff]

lemma pairwise_keys (c : Context) : c.keys.Pairwise BytesBefore := by
  have sorted : c.keys.Pairwise (· ≤ ·) := List.pairwise_mergeSort' ..
  have distinct : c.keys.Nodup := (List.mergeSort_perm ..).nodup_iff.mpr (nodup_eraseDups _)
  exact (sorted.and distinct).imp fun ⟨le, ne⟩ => (bytesBefore_iff_lt ..).mpr (lt_of_le_of_ne le ne)

/-- Whether no layer holds a null. -/
def Dense (c : Context) : Prop := ∀ layer ∈ c.layers, ∀ name v, layer.get? name = some v → v.isNull = false

lemma dense_iff (c : Context) : c.Dense ↔
    c.Solid ∧ ∀ layer ∈ c.wrapped, ∀ name v, layer.get? name = some v → v.isNull = false :=
  List.forall_mem_cons

lemma dense_empty : empty.Dense := (dense_iff _).mpr ⟨solid_empty, nofun⟩

lemma Dense.wrap (h : c.Dense) : c.wrap.Dense := (dense_iff _).mpr ⟨c.solid_wrap, h⟩

lemma Dense.put (h : c.Dense) (name : String) (v : Value) : (c.put name v).Dense := by
  obtain ⟨own, below⟩ := (dense_iff c).mp h
  refine (dense_iff _).mpr ⟨own.put name v, ?_⟩
  rwa [c.wrapped_put]

lemma Dense.remove (h : c.Dense) (name : String) : (c.remove name).Dense := by
  obtain ⟨own, below⟩ := (dense_iff c).mp h
  exact (dense_iff _).mpr ⟨own.remove name, below⟩

lemma Dense.foldl_put (h : c.Dense) (es : List (String × Value)) : (es.foldl (fun c e => c.put e.1 e.2) c).Dense := by
  induction es generalizing c with
  | nil => exact h
  | cons e es ih => exact ih (h.put e.1 e.2)

lemma dense_ofJson {σ τ : Store} {j : Json} (h : ofJson σ j = .ok (c, τ)) : c.Dense := by
  cases j <;> cases h
  exact dense_empty.foldl_put _

end Context

/-! ### The contexts of a caller -/

/-- What a caller asks for. Contexts are told apart by the order of their creation. -/
inductive Context.Call where
  | fresh
  | ofJson (j : Json)
  | wrap (i : Nat)
  | get (i : Nat) (name : String)
  | put (i : Nat) (name : String) (v : Value)
  | remove (i : Nat) (name : String)
  | contains (i : Nat) (name : String)
  | keys (i : Nat)

/-- The context to which a call writes. -/
def Context.Call.written? : Call → Option Nat
  | put i .. | remove i .. => some i
  | _ => none

/-- What a caller is told. -/
inductive Context.Reply where
  | created (i : Nat)
  | binding (v : Option Value)
  | truth (b : Bool)
  | names (names : List String)
  | failure (e : TemplateError)

open Context (Call Reply)

/-- The contexts of a caller in order of their creation, and the store of the values in them. -/
structure Desk where
  contexts : List Context
  store : Store

namespace Desk

def bare : Desk := ⟨[], .empty⟩

def add (d : Desk) (c : Context) : Reply × Desk :=
  (.created d.contexts.length, { d with contexts := d.contexts ++ [c] })

def replace (d : Desk) (i : Nat) (c : Context) : Desk := { d with contexts := d.contexts.set i c }

/-- Does what is asked for, as long as there is the context that it is asked of. Writing tells what was bound. -/
def serve (d : Desk) : Call → Option (Reply × Desk)
  | .fresh => some (d.add .empty)
  | .ofJson j =>
    match Context.ofJson d.store j with
    | .ok (c, σ) => some ({ d with store := σ }.add c)
    | .error e => some (.failure e, d)
  | .wrap i => d.contexts[i]?.map fun c => d.add c.wrap
  | .get i name => d.contexts[i]?.map fun c => (.binding (c.get? name), d)
  | .put i name v => d.contexts[i]?.map fun c => (.binding (c.local? name), d.replace i (c.put name v))
  | .remove i name => d.contexts[i]?.map fun c => (.binding (c.local? name), d.replace i (c.remove name))
  | .contains i name => d.contexts[i]?.map fun c => (.truth (c.contains name), d)
  | .keys i => d.contexts[i]?.map fun c => (.names c.keys, d)

def run (d : Desk) : List Call → Option Desk
  | [] => some d
  | call :: calls => (d.serve call).bind fun r => r.2.run calls

variable {d e : Desk} {call : Call} {reply : Reply}

/-- What a call can do to the contexts: nothing, add one, or write to the own layer of one. -/
lemma serve_cases (served : d.serve call = some (reply, e)) :
    e.contexts = d.contexts ∨
    (∃ c, e.contexts = d.contexts ++ [c] ∧ ((∀ b ∈ d.contexts, b.Dense) → c.Dense)) ∨
    ∃ i c c', call.written? = some i ∧ d.contexts[i]? = some c ∧ e.contexts = d.contexts.set i c' ∧
      c'.wrapped = c.wrapped ∧ (c.Dense → c'.Dense) := by
  cases call with
  | fresh =>
    cases served
    exact .inr (.inl ⟨_, rfl, fun _ => Context.dense_empty⟩)
  | ofJson j =>
    simp only [serve] at served
    split at served
    · next c σ made =>
      cases served
      exact .inr (.inl ⟨c, rfl, fun _ => Context.dense_ofJson made⟩)
    · cases served
      exact .inl rfl
  | wrap i =>
    obtain ⟨c, held, same⟩ := Option.map_eq_some_iff.mp served
    cases same
    exact .inr (.inl ⟨_, rfl, fun dense => (dense c (List.mem_of_getElem? held)).wrap⟩)
  | put i name v =>
    obtain ⟨c, held, same⟩ := Option.map_eq_some_iff.mp served
    cases same
    exact .inr (.inr ⟨i, c, _, rfl, held, rfl, c.wrapped_put name v, fun dense => dense.put name v⟩)
  | remove i name =>
    obtain ⟨c, held, same⟩ := Option.map_eq_some_iff.mp served
    cases same
    exact .inr (.inr ⟨i, c, _, rfl, held, rfl, rfl, fun dense => dense.remove name⟩)
  | get i | contains i | keys i =>
    obtain ⟨c, held, same⟩ := Option.map_eq_some_iff.mp served
    cases same
    exact .inl rfl

lemma dense_of_serve (served : d.serve call = some (reply, e)) (h : ∀ c ∈ d.contexts, c.Dense) :
    ∀ c ∈ e.contexts, c.Dense := by
  rcases serve_cases served with same | ⟨c, added, dense⟩ | ⟨i, c, c', -, held, written, -, dense⟩
  · rwa [same]
  · rw [added]
    exact List.forall_mem_append.mpr ⟨h, List.forall_mem_singleton.mpr (dense h)⟩
  · rw [written]
    intro b hb
    rcases List.mem_or_eq_of_mem_set hb with old | rfl
    · exact h b old
    · exact dense (h c (List.mem_of_getElem? held))

/-- A context keeps what it wraps, and it keeps everything unless it is itself written to. -/
lemma kept_of_serve (served : d.serve call = some (reply, e)) {i : Nat} {c : Context}
    (held : d.contexts[i]? = some c) :
    ∃ c', e.contexts[i]? = some c' ∧ c'.wrapped = c.wrapped ∧ (call.written? ≠ some i → c' = c) := by
  have bound : i < d.contexts.length := (List.getElem?_eq_some_iff.mp held).1
  rcases serve_cases served with same | ⟨new, added, -⟩ | ⟨j, b, b', target, there, written, wrapped, -⟩
  · exact ⟨c, same ▸ held, rfl, fun _ => rfl⟩
  · exact ⟨c, by rw [added, List.getElem?_append_left bound, held], rfl, fun _ => rfl⟩
  · by_cases hj : j = i
    · subst hj
      rw [there] at held
      cases held
      exact ⟨b', by rw [written, List.getElem?_set_self bound], wrapped, fun other => absurd target other⟩
    · exact ⟨c, by rw [written, List.getElem?_set_ne hj, held], rfl, fun _ => rfl⟩

/-- No layer ever holds a null. -/
lemma dense_of_run {calls : List Call} (ran : d.run calls = some e) (h : ∀ c ∈ d.contexts, c.Dense) :
    ∀ c ∈ e.contexts, c.Dense := by
  induction calls generalizing d with
  | nil =>
    cases ran
    exact h
  | cons call calls ih =>
    obtain ⟨⟨reply, f⟩, served, rest⟩ := Option.bind_eq_some_iff.mp ran
    exact ih rest (dense_of_serve served h)

lemma kept_of_run {calls : List Call} (ran : d.run calls = some e) {i : Nat} {c : Context}
    (held : d.contexts[i]? = some c) :
    ∃ c', e.contexts[i]? = some c' ∧ c'.wrapped = c.wrapped ∧ ((∀ call ∈ calls, call.written? ≠ some i) → c' = c) := by
  induction calls generalizing d c with
  | nil =>
    cases ran
    exact ⟨c, held, rfl, fun _ => rfl⟩
  | cons call calls ih =>
    obtain ⟨⟨reply, f⟩, served, rest⟩ := Option.bind_eq_some_iff.mp ran
    obtain ⟨b, there, wrapped, same⟩ := kept_of_serve served held
    obtain ⟨c', last, wrapped', same'⟩ := ih rest there
    refine ⟨c', last, wrapped'.trans wrapped, fun unwritten => ?_⟩
    obtain ⟨first, others⟩ := List.forall_mem_cons.mp unwritten
    exact (same' others).trans (same first)

/-- **A context is a stack of maps**, whatever its caller did before, and no layer of it holds a null. Reads, tests and
lists of the keys go by the layer nearest to the reader; writes change the own layer at one name and tell what it bound
there; and whatever is done later, a context changes only where it is itself written to, and what it wraps never. -/
theorem answers_by_layers {past : List Call} (reached : bare.run past = some d) {i : Nat} {c : Context}
    (held : d.contexts[i]? = some c) :
    (∀ layer ∈ c.layers, ∀ name v, layer.get? name = some v → v.isNull = false) ∧
    (∀ name, ∃ found, d.serve (.get i name) = some (.binding found, d) ∧ ∀ v, found = some v ↔ c.Nearest name v) ∧
    (∀ name v, ∃ c', d.serve (.put i name v) = some (.binding (c.values.get? name), d.replace i c') ∧
      c'.wrapped = c.wrapped ∧ ∀ other, c'.values.get? other =
        if other = name then if v.isNull then none else some v else c.values.get? other) ∧
    (∀ name, ∃ c', d.serve (.remove i name) = some (.binding (c.values.get? name), d.replace i c') ∧
      c'.wrapped = c.wrapped ∧ ∀ other, c'.values.get? other = if other = name then none else c.values.get? other) ∧
    (∀ name, ∃ b, d.serve (.contains i name) = some (.truth b, d) ∧ (b = true ↔ ∃ v, c.Nearest name v)) ∧
    (∃ names, d.serve (.keys i) = some (.names names, d) ∧ names.Pairwise BytesBefore ∧
      ∀ name, name ∈ names ↔ ∃ v, c.Nearest name v) ∧
    (∃ w, d.serve (.wrap i) = some (d.add w) ∧ w.layers = ∅ :: c.layers) ∧
    (∀ later e, d.run later = some e → ∃ c', e.contexts[i]? = some c' ∧ c'.wrapped = c.wrapped ∧
      ((∀ call ∈ later, call.written? ≠ some i) → c' = c)) := by
  refine ⟨?dense, fun name => ?get, fun name v => ?put, fun name => ?remove, fun name => ?contains, ?keys, ?wrap,
    fun later e ran => kept_of_run ran held⟩
  case dense => exact dense_of_run reached nofun c (List.mem_of_getElem? held)
  case get => exact ⟨c.get? name, by rw [serve, held]; rfl, c.get?_eq_some_iff name⟩
  case put => exact ⟨c.put name v, by rw [serve, held]; rfl, c.wrapped_put name v, c.local?_put name v⟩
  case remove => exact ⟨c.remove name, by rw [serve, held]; rfl, rfl, c.local?_remove name⟩
  case contains => exact ⟨c.contains name, by rw [serve, held]; rfl, c.contains_iff name⟩
  case keys => exact ⟨c.keys, by rw [serve, held]; rfl, c.pairwise_keys, c.mem_keys_iff⟩
  case wrap => exact ⟨c.wrap, by rw [serve, held]; rfl, rfl⟩

/-- A site under a page: what the page is given later, the site does not see. -/
theorem answers_by_layers_site :
    ∃ d e c, bare.run [.ofJson (.obj [("title", .str "Docs"), ("draft", .null)]), .wrap 0] = some d ∧
      d.contexts[0]? = some c ∧ c.Nearest "title" (.str "Docs") ∧
      d.run [.put 1 "title" (.str "Intro"), .remove 1 "title"] = some e ∧ e.contexts[0]? = some c := by
  have reached : bare.run [.ofJson (.obj [("title", .str "Docs"), ("draft", .null)]), .wrap 0] = some _ := rfl
  obtain ⟨-, get, -, -, -, -, -, later⟩ := answers_by_layers reached (i := 0) rfl
  obtain ⟨found, told, nearest⟩ := get "title"
  cases told
  obtain ⟨c', there, -, same⟩ := later [.put 1 "title" (.str "Intro"), .remove 1 "title"] _ rfl
  exact ⟨_, _, _, reached, rfl, (nearest _).mp rfl, rfl, same (by decide) ▸ there⟩

end Desk

end Stencil
