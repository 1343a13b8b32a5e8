import Stencil.Proofs.Reading.Faithful
import Stencil.Proofs.Reading.Sites

/-!
# Meanings that stand for their text

What a match stands for is faithful to its text as soon as its parts are. Main statement:
`Rule.faithful_meaning`, for every rule but the three whose meaning depends on how their match is made up.
-/

namespace Stencil

/-! ### Answers of steps that may fail -/

lemma ok_of_bind {ε α β : Type} {x : Except ε α} {f : α → Except ε β} {b : β} (h : x >>= f = .ok b) :
    ∃ a, x = .ok a ∧ f a = .ok b := by
  cases x with
  | error e => cases h
  | ok a => exact ⟨a, rfl, h⟩

lemma mem_of_mapM {ε α β : Type} {f : α → Except ε β} {xs : List α} {ys : List β}
    (h : xs.mapM f = .ok ys) {y : β} (hy : y ∈ ys) : ∃ x ∈ xs, f x = .ok y := by
  induction xs generalizing ys with
  | nil =>
    cases h
    cases hy
  | cons x xs ih =>
    rw [List.mapM_cons] at h
    obtain ⟨z, hz, h⟩ := ok_of_bind h
    obtain ⟨zs, hzs, h⟩ := ok_of_bind h
    cases h
    rcases List.mem_cons.mp hy with rfl | hy
    · exact ⟨x, List.mem_cons_self .., hz⟩
    · obtain ⟨x', hx', hf⟩ := ih hzs hy
      exact ⟨x', List.mem_cons_of_mem _ hx', hf⟩

/-- Steps fail where one of them does. -/
lemma exists_of_mapM_eq_error {ε α β : Type} {f : α → Except ε β} {xs : List α} {e : ε}
    (h : xs.mapM f = .error e) : ∃ x ∈ xs, f x = .error e := by
  induction xs with
  | nil => cases h
  | cons x xs ih =>
    rw [List.mapM_cons] at h
    cases hx : f x with
    | error e' =>
      rw [hx] at h
      cases h
      exact ⟨x, List.mem_cons_self .., hx⟩
    | ok y =>
      rw [hx] at h
      cases hxs : xs.mapM f with
      | error e' =>
        rw [hxs] at h
        cases h
        obtain ⟨x', hx', hf⟩ := ih hxs
        exact ⟨x', List.mem_cons_of_mem _ hx', hf⟩
      | ok ys =>
        rw [hxs] at h
        cases h

lemma Tree.evalAll_eq_mapM {ρ ε α : Type} (meaning : ρ → Cursor → Cursor → List α → Except ε α) (ts : List (Tree ρ)) :
    evalAll meaning ts = ts.mapM (eval meaning) := by
  induction ts with
  | nil => rfl
  | cons t ts ih => rw [evalAll, List.mapM_cons, ih]

/-- The meanings of trees are those of the first ones and those of the others. -/
lemma Tree.evalAll_append_eq {ρ ε α : Type} (meaning : ρ → Cursor → Cursor → List α → Except ε α)
    (ts us : List (Tree ρ)) :
    evalAll meaning (ts ++ us) = do return (← evalAll meaning ts) ++ (← evalAll meaning us) := by
  simp only [evalAll_eq_mapM, List.mapM_append]

lemma Tree.evalAll_append {ρ ε α : Type} (meaning : ρ → Cursor → Cursor → List α → Except ε α)
    {ts us : List (Tree ρ)} {parts : List α} (h : evalAll meaning (ts ++ us) = .ok parts) :
    ∃ ps qs, evalAll meaning ts = .ok ps ∧ evalAll meaning us = .ok qs ∧ parts = ps ++ qs := by
  rw [evalAll_append_eq] at h
  obtain ⟨ps, hps, h⟩ := ok_of_bind h
  obtain ⟨qs, hqs, h⟩ := ok_of_bind h
  cases h
  exact ⟨ps, qs, hps, hqs, rfl⟩

lemma Tree.exists_of_evalAll_cons {ρ ε α : Type} {meaning : ρ → Cursor → Cursor → List α → Except ε α} {t : Tree ρ}
    {ts : List (Tree ρ)} {parts : List α} (h : evalAll meaning (t :: ts) = .ok parts) :
    ∃ p ps, t.eval meaning = .ok p ∧ evalAll meaning ts = .ok ps ∧ parts = p :: ps := by
  obtain ⟨p, first, h⟩ := ok_of_bind h
  obtain ⟨ps, others, h⟩ := ok_of_bind h
  cases h
  exact ⟨p, ps, first, others, rfl⟩

/-- The parts of one tree: its own meaning, given its children's. -/
lemma Tree.evalAll_single {ρ ε α : Type} (meaning : ρ → Cursor → Cursor → List α → Except ε α) {r : ρ}
    {c d : Cursor} {ts : List (Tree ρ)} {parts : List α}
    (h : evalAll meaning [.node r c d ts] = .ok parts) :
    ∃ ps part, evalAll meaning ts = .ok ps ∧ meaning r c d ps = .ok part ∧ parts = [part] := by
  rw [evalAll, eval] at h
  obtain ⟨part, hpart, h⟩ := ok_of_bind h
  obtain ⟨ps, hps, hm⟩ := ok_of_bind hpart
  cases h
  exact ⟨ps, part, hps, hm, rfl⟩

/-! ### Joined texts -/

lemma Node.exists_of_join? {m n k : Node} (h : m.join? n = some k) : ∃ s p, k = ⟨.text s, p⟩ := by
  unfold join? at h
  split at h
  · split at h
    · cases h
      exact ⟨_, _, rfl⟩
    · cases h
  · cases h

/-- What holds of texts and of the nodes of a block holds of the nodes when texts are joined. -/
lemma forall_joinTexts {P : Node → Prop} (ht : ∀ s p, P ⟨.text s, p⟩) {b : Block} (hb : ∀ n ∈ b, P n) :
    ∀ n ∈ joinTexts b, P n := by
  induction b with
  | nil => exact hb
  | cons n b ih =>
    obtain ⟨here, later⟩ := List.forall_mem_cons.mp hb
    have rest := ih later
    unfold joinTexts
    cases hj : joinTexts b with
    | nil => exact fun m hm => List.mem_singleton.mp hm ▸ here
    | cons m ms =>
      rw [hj] at rest
      obtain ⟨next, others⟩ := List.forall_mem_cons.mp rest
      dsimp only
      split
      · next k hk =>
        obtain ⟨s, p, rfl⟩ := Node.exists_of_join? hk
        exact List.forall_mem_cons.mpr ⟨ht s p, others⟩
      · exact List.forall_mem_cons.mpr ⟨here, rest⟩

/-! ### Parts -/

/-- A reference that lies inside a span and keeps its text, with its expressions inside of it. -/
structure Reference.Faithful (cs : List Char) (quoted : Bool) (outer : Span) (r : Reference) : Prop where
  inside : r.position.span.Inside outer
  literal : quoted = false → r.Literal cs
  exprs : ∀ e ∈ r.exprs, Expr.Faithful cs quoted r.position.span e

/-- A part of a match that lies inside a span and stands for its text. -/
def Part.Faithful (site : Site) (quoted : Bool) (text : List Char) (outer : Span) : Part → Prop
  | mark => True
  | word w start => ∃ front back, text = front ++ w ++ back ∧ start = utf8Length front ∧
    outer.start ≤ site.absolute start ∧ site.absolute (utf8Length (front ++ w)) ≤ outer.stop
  | node n => n.position.span.Inside outer ∧ Node.Faithful site.chars quoted n
  | block b => Block.Faithful site.chars quoted outer b
  | branch b => Expr.Faithful site.chars quoted outer b.condition ∧
    Block.Faithful site.chars quoted outer b.body
  | otherwise b => Block.Faithful site.chars quoted outer b
  | loopHead _ e => Expr.Faithful site.chars quoted outer e
  | macroHead _ params => ∀ q ∈ params, ∀ e ∈ q.fallback, Expr.Faithful site.chars quoted outer e
  | param q => ∀ e ∈ q.fallback, Expr.Faithful site.chars quoted outer e
  | callHead _ as => ∀ a ∈ as, Expr.Faithful site.chars quoted outer a.value
  | args as => ∀ a ∈ as, Expr.Faithful site.chars quoted outer a.value
  | arg a => Expr.Faithful site.chars quoted outer a.value
  | expr e => Expr.Faithful site.chars quoted outer e
  | unaryOp _ p => p.span.Inside outer
  | binaryOp _ => True
  | entry e => Expr.Faithful site.chars quoted outer e.key ∧ Expr.Faithful site.chars quoted outer e.value
  | reference r => r.Faithful site.chars quoted outer
  | quiet => True
  | path _ segments => ∀ s ∈ segments, ∀ e ∈ s.kind.exprs, Expr.Faithful site.chars quoted outer e
  | segment s => ∀ e ∈ s.kind.exprs, Expr.Faithful site.chars quoted outer e

lemma Reference.faithful_references {cs : List Char} {quoted : Bool} {r : Reference}
    (h : quoted = false → r.Literal cs) : ∀ q ∈ [r], quoted = false → q.Literal cs := by
  intro q hq
  obtain rfl := List.mem_singleton.mp hq
  exact h

namespace Part

variable {site : Site} {quoted : Bool} {text : List Char} {outer outer' : Span} {part : Part}
  {parts : List Part}

lemma Faithful.mono (h : part.Faithful site quoted text outer) (ho : outer.Inside outer') :
    part.Faithful site quoted text outer' := by
  cases part with
  | mark => trivial
  | word w start =>
    obtain ⟨front, back, ht, hs, lo, hi⟩ := h
    exact ⟨front, back, ht, hs, Nat.le_trans ho.start lo, Nat.le_trans hi ho.stop⟩
  | node n => exact ⟨h.1.trans ho, h.2⟩
  | block b => exact Block.Faithful.mono h ho
  | branch b => exact ⟨h.1.mono ho, h.2.mono ho⟩
  | otherwise b => exact Block.Faithful.mono h ho
  | loopHead var e => exact Expr.Faithful.mono h ho
  | macroHead name params => exact fun q hq e he => (h q hq e he).mono ho
  | param q => exact fun e he => (h e he).mono ho
  | callHead name as => exact fun a ha => (h a ha).mono ho
  | args as => exact fun a ha => (h a ha).mono ho
  | arg a => exact Expr.Faithful.mono h ho
  | expr e => exact Expr.Faithful.mono h ho
  | unaryOp op p => exact Span.Inside.trans h ho
  | binaryOp op => trivial
  | entry e => exact ⟨h.1.mono ho, h.2.mono ho⟩
  | reference r => exact ⟨h.inside.trans ho, h.literal, h.exprs⟩
  | quiet => trivial
  | path root segments => exact fun s hs e he => (h s hs e he).mono ho
  | segment s => exact fun e he => (h e he).mono ho

lemma Faithful.toExpr (h : part.Faithful site quoted text outer) {e : Expr} (he : part.toExpr = .ok e) :
    Expr.Faithful site.chars quoted outer e := by
  cases part with
  | expr x =>
    cases he
    exact h
  | reference r =>
    cases he
    exact .intro h.inside (Reference.faithful_references h.literal)
      (fun x hx => (h.exprs x hx).mono h.inside) nofun
  | _ => cases he

lemma Faithful.toNode (h : part.Faithful site quoted text outer) {n : Node} (hn : part.toNode = .ok n) :
    Node.Faithful site.chars quoted n := by
  cases part with
  | node m =>
    cases hn
    exact h.2
  | reference r =>
    cases hn
    exact .intro h.literal (Reference.faithful_references h.literal) h.exprs nofun
  | _ => cases hn

lemma Faithful.toParam (h : part.Faithful site quoted text outer) {q : Param} (hq : part.toParam = .ok q) :
    ∀ e ∈ q.fallback, Expr.Faithful site.chars quoted outer e := by
  cases part with
  | param p =>
    cases hq
    exact h
  | _ => cases hq

lemma Faithful.toArg (h : part.Faithful site quoted text outer) {a : Argument} (ha : part.toArg = .ok a) :
    Expr.Faithful site.chars quoted outer a.value := by
  cases part with
  | arg b =>
    cases ha
    exact h
  | _ => cases ha

lemma Faithful.toEntry (h : part.Faithful site quoted text outer) {e : Entry} (he : part.toEntry = .ok e) :
    Expr.Faithful site.chars quoted outer e.key ∧ Expr.Faithful site.chars quoted outer e.value := by
  cases part with
  | entry f =>
    cases he
    exact h
  | _ => cases he

lemma Faithful.toSegment (h : part.Faithful site quoted text outer) {s : Segment}
    (hs : part.toSegment = .ok s) : ∀ e ∈ s.kind.exprs, Expr.Faithful site.chars quoted outer e := by
  cases part with
  | segment t =>
    cases hs
    exact h
  | _ => cases hs

/-- Whether all parts of a match lie inside a span and stand for their text. -/
abbrev AllFaithful (site : Site) (quoted : Bool) (text : List Char) (outer : Span) (parts : List Part) :
    Prop :=
  ∀ part ∈ parts, part.Faithful site quoted text outer

lemma AllFaithful.head (hp : AllFaithful site quoted text outer (part :: parts)) :
    part.Faithful site quoted text outer :=
  hp part (List.mem_cons_self ..)

lemma AllFaithful.tail (hp : AllFaithful site quoted text outer (part :: parts)) :
    AllFaithful site quoted text outer parts :=
  fun q hq => hp q (List.mem_cons_of_mem _ hq)

lemma AllFaithful.of_mapM (hp : AllFaithful site quoted text outer parts) {α : Type}
    {f : Part → Except Failure α} {P : α → Prop}
    (hf : ∀ {q : Part}, q.Faithful site quoted text outer → ∀ {x : α}, f q = .ok x → P x) {xs : List α}
    (h : parts.mapM f = .ok xs) : ∀ x ∈ xs, P x := by
  intro x hx
  obtain ⟨q, hq, hfq⟩ := mem_of_mapM h hx
  exact hf (hp q hq) hfq

variable {kind : NodeKind}

lemma faithful_exprs (hp : AllFaithful site quoted text outer parts) {es : List Expr}
    (he : parts.mapM toExpr = .ok es) : ∀ e ∈ es, Expr.Faithful site.chars quoted outer e :=
  hp.of_mapM Faithful.toExpr he

lemma faithful_soleExpr (hp : AllFaithful site quoted text outer parts) {what : String} {e : Expr}
    (he : soleExpr what parts = .ok e) : Expr.Faithful site.chars quoted outer e := by
  unfold soleExpr at he
  split at he
  · exact hp.head.toExpr he
  · cases he

lemma faithful_branches (hp : AllFaithful site quoted text outer parts) {b : Branch}
    (hb : b ∈ branches parts) : Expr.Faithful site.chars quoted outer b.condition ∧
      Block.Faithful site.chars quoted outer b.body := by
  obtain ⟨part, hpart, h⟩ := List.mem_filterMap.mp hb
  cases part with
  | branch b' =>
    obtain rfl := Option.some.inj h
    exact hp _ hpart
  | _ => cases h

lemma faithful_otherwise (hp : AllFaithful site quoted text outer parts) {b : Block}
    (hb : otherwise? parts = some b) : Block.Faithful site.chars quoted outer b := by
  have all : ∀ b ∈ otherwise? parts, Block.Faithful site.chars quoted outer b := by
    refine List.foldlRecOn (motive := fun found => ∀ b ∈ found, Block.Faithful site.chars quoted outer b)
      parts _ (fun b hb => by cases hb) fun found hf part hpart => ?_
    cases part with
    | otherwise b =>
      intro b' hb'
      obtain rfl := Option.some.inj hb'
      exact hp _ hpart
    | _ => exact hf
  exact all b hb

lemma faithful_conditional (hp : AllFaithful site quoted text outer parts)
    (hk : Part.conditional parts = .ok kind) :
    kind.Faithful site.chars quoted outer ∧ ∀ p, Node.Literal site.chars ⟨kind, p⟩ := by
  unfold Part.conditional at hk
  split at hk
  · next c b rest =>
    cases hk
    have condition : Expr.Faithful site.chars quoted outer c := hp.head
    have body : Block.Faithful site.chars quoted outer b := hp.tail.head
    have later := hp.tail.tail
    have all : ∀ br ∈ (⟨c, b⟩ : Branch) :: branches rest,
        Expr.Faithful site.chars quoted outer br.condition ∧
          Block.Faithful site.chars quoted outer br.body := by
      intro br hb
      rcases List.mem_cons.mp hb with rfl | hb
      · exact ⟨condition, body⟩
      · exact faithful_branches later hb
    refine ⟨⟨nofun, ?_, ?_⟩, fun _ => trivial⟩
    · intro e he
      obtain ⟨br, hb, rfl⟩ := List.mem_map.mp he
      exact (all br hb).1
    · intro b' hb'
      rcases List.mem_append.mp hb' with hb' | hb'
      · obtain ⟨br, hb, rfl⟩ := List.mem_map.mp hb'
        exact (all br hb).2
      · exact faithful_otherwise later (Option.mem_toList.mp hb')
  · cases hk

lemma faithful_loop (hp : AllFaithful site quoted text outer parts) (hk : Part.loop parts = .ok kind) :
    kind.Faithful site.chars quoted outer ∧ ∀ p, Node.Literal site.chars ⟨kind, p⟩ := by
  unfold Part.loop at hk
  split at hk
  · next var e b rest =>
    cases hk
    have iterable : Expr.Faithful site.chars quoted outer e := hp.head
    have body : Block.Faithful site.chars quoted outer b := hp.tail.head
    have later := hp.tail.tail
    refine ⟨⟨nofun, ?_, ?_⟩, fun _ => trivial⟩
    · intro x hx
      rcases List.mem_cons.mp hx with rfl | hx
      · exact iterable
      · cases iterable with
        | intro _ _ exprs _ => exact exprs x hx
    · intro b' hb'
      rcases List.mem_cons.mp hb' with rfl | hb'
      · exact body
      · exact faithful_otherwise later (Option.mem_toList.mp hb')
  · cases hk

lemma faithful_assignment (hp : AllFaithful site quoted text outer parts)
    (hk : Part.assignment parts = .ok kind) :
    kind.Faithful site.chars quoted outer ∧ ∀ p, Node.Literal site.chars ⟨kind, p⟩ := by
  unfold Part.assignment at hk
  split at hk
  · next target value =>
    obtain ⟨e, he, hk⟩ := ok_of_bind hk
    cases hk
    have reference : target.Faithful site.chars quoted outer := hp.head
    have assigned := hp.tail.head.toExpr he
    refine ⟨⟨Reference.faithful_references reference.literal, ?_, nofun⟩, fun _ => trivial⟩
    intro x hx
    rcases List.mem_cons.mp hx with rfl | hx
    · exact assigned
    · exact (reference.exprs x hx).mono reference.inside
  · cases hk

lemma faithful_definition (hp : AllFaithful site quoted text outer parts) {p : Position}
    (hk : Part.definition site p parts = .ok kind) :
    kind.Faithful site.chars quoted outer ∧ ∀ p, Node.Literal site.chars ⟨kind, p⟩ := by
  unfold Part.definition at hk
  split at hk
  · next name params b rest =>
    cases hk
    have defaults : ∀ q ∈ params, ∀ e ∈ q.fallback, Expr.Faithful site.chars quoted outer e :=
      hp.head
    have body : Block.Faithful site.chars quoted outer b := hp.tail.head
    refine ⟨⟨nofun, ?_, ?_⟩, fun _ => trivial⟩
    · intro e he
      obtain ⟨q, hq, he⟩ := List.mem_flatMap.mp he
      exact defaults q hq e (Option.mem_toList.mp he)
    · intro b' hb'
      obtain rfl := List.mem_singleton.mp hb'
      exact body
  · cases hk

lemma faithful_parameter (hp : AllFaithful site quoted text outer parts) {p : Position}
    (h : Part.parameter p parts = .ok part) : part.Faithful site quoted text outer := by
  unfold Part.parameter at h
  split at h
  · cases h
    exact nofun
  · next value =>
    obtain ⟨e, he, h⟩ := ok_of_bind h
    cases h
    intro x hx
    obtain rfl := Option.some.inj hx
    exact hp.tail.head.toExpr he
  · cases h

lemma faithful_call (hp : AllFaithful site quoted text outer parts) {name : String} {as : List Argument}
    (h : Part.call parts = .ok (name, as)) : ∀ a ∈ as, Expr.Faithful site.chars quoted outer a.value := by
  unfold Part.call at h
  split at h
  · cases h
    exact hp.tail.head
  · cases h

lemma faithful_blockCall (hp : AllFaithful site quoted text outer parts) {literal : String}
    (hk : Part.blockCall literal parts = .ok kind) :
    kind.Faithful site.chars quoted outer ∧ ∃ name as b, kind = .macroCall ⟨name, as, some b, literal⟩ := by
  unfold Part.blockCall at hk
  split at hk
  · next name as b rest =>
    cases hk
    have args : ∀ a ∈ as, Expr.Faithful site.chars quoted outer a.value := hp.head
    have body : Block.Faithful site.chars quoted outer b := hp.tail.head
    refine ⟨⟨nofun, ?_, ?_⟩, name, as, b, rfl⟩
    · intro e he
      obtain ⟨a, ha, rfl⟩ := List.mem_map.mp he
      exact args a ha
    · intro b' hb'
      obtain rfl := List.mem_singleton.mp hb'
      exact body
  · cases hk

/-! ### References -/

lemma faithful_pathOf (hp : AllFaithful site quoted text outer parts) {root : String}
    {segments : List Segment} (h : Part.pathOf parts = .ok (root, segments)) :
    ∀ s ∈ segments, ∀ e ∈ s.kind.exprs, Expr.Faithful site.chars quoted outer e := by
  unfold Part.pathOf at h
  split at h
  · cases h
    exact hp.head
  · next name start rest =>
    obtain ⟨found, hf, h⟩ := ok_of_bind h
    cases h
    exact hp.tail.of_mapM Faithful.toSegment hf
  · cases h

lemma faithful_referenceOf {p : Position} {literal : String} (hp : AllFaithful site quoted text p.span parts)
    (hl : quoted = false → p.span.Spells site.chars literal.toList) {r : Reference}
    (h : Part.referenceOf literal p parts = .ok r) : r.Faithful site.chars quoted p.span := by
  have path (parts : List Part) (hp : AllFaithful site quoted text p.span parts) (isQuiet : Bool)
      (h : (pathOf parts >>= fun path => return (⟨path.1, isQuiet, path.2, literal, p⟩ : Reference)) =
        Except.ok r) :
      r.Faithful site.chars quoted p.span := by
    obtain ⟨⟨root, segments⟩, hs, h⟩ := ok_of_bind h
    cases h
    refine ⟨.refl _, hl, ?_⟩
    intro e he
    obtain ⟨s, hm, he⟩ := List.mem_flatMap.mp he
    exact faithful_pathOf hp hs s hm e he
  unfold Part.referenceOf at h
  split at h
  next isQuiet rest hsplit =>
  refine path rest ?_ isQuiet h
  split at hsplit
  · next rest' =>
    cases hsplit
    exact hp.tail
  · cases hsplit
    exact hp

end Part

/-! ### Operators -/

/-- What operators between operands keep holds of whatever they complete. -/
lemma Pending.forall_complete {P : Expr → Prop} (hi : ∀ op l r, P l → P r → P (.ofInfix op l r)) (level : Nat)
    {pending : Pending} {e : Expr} (hp : ∀ x ∈ pending, P x.1) (he : P e) :
    (∀ x ∈ (pending.complete level e).1, P x.1) ∧ P (pending.complete level e).2 := by
  induction pending generalizing e with
  | nil => exact ⟨hp, he⟩
  | cons first pending ih =>
    obtain ⟨left, op⟩ := first
    obtain ⟨here, later⟩ := List.forall_mem_cons.mp hp
    unfold Pending.complete
    split
    · exact ih later (hi op left e here he)
    · exact ⟨hp, he⟩

/-- What operators between operands keep holds of the whole expression. -/
lemma Expr.forall_ofOperands {P : Expr → Prop} (hi : ∀ op l r, P l → P r → P (.ofInfix op l r))
    {pending : Pending} {e : Expr} {rest : List (BinaryOp × Expr)} (hp : ∀ x ∈ pending, P x.1) (he : P e)
    (hr : ∀ x ∈ rest, P x.2) : P (.ofOperands pending e rest) := by
  induction rest generalizing pending e with
  | nil => exact (Pending.forall_complete hi 0 hp he).2
  | cons first rest ih =>
    obtain ⟨op, f⟩ := first
    obtain ⟨here, later⟩ := List.forall_mem_cons.mp hr
    obtain ⟨waiting, operand⟩ := Pending.forall_complete hi op.level hp he
    unfold Expr.ofOperands
    exact ih (List.forall_mem_cons.mpr ⟨operand, waiting⟩) here later

section

variable {cs : List Char} {quoted : Bool} {outer : Span}

lemma Expr.Faithful.inside {e : Expr} (h : Expr.Faithful cs quoted outer e) :
    e.position.span.Inside outer := by
  cases h with
  | intro inside _ _ _ => exact inside

/-- A literal stands for its text wherever it lies inside the span. -/
lemma Expr.faithful_literal (l : Literal) {p : Position} (hp : p.span.Inside outer) :
    Expr.Faithful cs quoted outer ⟨.literal l, p⟩ :=
  .intro hp nofun nofun nofun

lemma Expr.faithful_ofPrefix (op : UnaryOp) {p : Position} {operand : Expr} (hp : p.span.Inside outer)
    (ho : Expr.Faithful cs quoted outer operand) :
    Expr.Faithful cs quoted outer (.ofPrefix op p operand) := by
  have place : (p.to operand.position).span.Inside outer := ⟨hp.start, ho.inside.stop⟩
  have applied (op : UnaryOp) :
      Expr.Faithful cs quoted outer ⟨.unary op operand, p.to operand.position⟩ := by
    refine .intro place nofun ?_ nofun
    intro x hx
    obtain rfl := List.mem_singleton.mp hx
    exact ho
  unfold Expr.ofPrefix
  dsimp only
  split
  · split
    · exact applied .neg
    · exact faithful_literal _ place
  · exact faithful_literal _ place
  · exact applied _

lemma Expr.faithful_ofInfix (op : BinaryOp) {left right : Expr} (hl : Expr.Faithful cs quoted outer left)
    (hr : Expr.Faithful cs quoted outer right) :
    Expr.Faithful cs quoted outer (.ofInfix op left right) := by
  refine .intro ⟨hl.inside.start, hr.inside.stop⟩ nofun ?_ nofun
  intro x hx
  rcases List.mem_cons.mp hx with rfl | hx
  · exact hl
  · obtain rfl := List.mem_singleton.mp hx
    exact hr

lemma Expr.faithful_foldl {pending : List (UnaryOp × Position)} {e : Expr}
    (hp : ∀ x ∈ pending, x.2.span.Inside outer) (he : Expr.Faithful cs quoted outer e) :
    Expr.Faithful cs quoted outer (pending.foldl (fun e (op, p) => .ofPrefix op p e) e) := by
  induction pending generalizing e with
  | nil => exact he
  | cons first pending ih =>
    exact ih (fun x hx => hp x (List.mem_cons_of_mem _ hx))
      (faithful_ofPrefix first.1 (hp first (List.mem_cons_self ..)) he)

end

namespace Part

variable {site : Site} {quoted : Bool} {text : List Char} {outer : Span} {parts : List Part}

lemma faithful_operation {pending : List (UnaryOp × Position)} {chain : List (BinaryOp × Expr)}
    {op? : Option BinaryOp} {first? : Option Expr} (hpending : ∀ x ∈ pending, x.2.span.Inside outer)
    (hchain : ∀ x ∈ chain, Expr.Faithful site.chars quoted outer x.2)
    (hfirst : ∀ e ∈ first?, Expr.Faithful site.chars quoted outer e)
    (hp : AllFaithful site quoted text outer parts) {e : Expr}
    (h : operation pending chain op? first? parts = .ok e) : Expr.Faithful site.chars quoted outer e := by
  induction parts generalizing pending chain op? first? with
  | nil =>
    unfold operation at h
    cases first? with
    | none => cases h
    | some first =>
      cases h
      refine Expr.forall_ofOperands (fun op l r => Expr.faithful_ofInfix op) (List.forall_mem_nil _)
        (hfirst first rfl) ?_
      intro x hx
      exact hchain x (List.mem_reverse.mp hx)
  | cons part rest ih =>
    have here := hp.head
    have later := hp.tail
    unfold operation at h
    split at h
    · cases ‹_ :: _ = []›
    · next op p rest' heq =>
      obtain ⟨rfl, rfl⟩ := List.cons.inj heq
      refine ih ?_ hchain hfirst later h
      intro x hx
      rcases List.mem_cons.mp hx with rfl | hx
      · exact here
      · exact hpending x hx
    · next op rest' heq =>
      obtain ⟨rfl, rfl⟩ := List.cons.inj heq
      exact ih (List.forall_mem_nil _) hchain hfirst later h
    · next part' rest' _ _ heq =>
      obtain ⟨rfl, rfl⟩ := List.cons.inj heq
      obtain ⟨x, hx, h⟩ := ok_of_bind h
      have operand := Expr.faithful_foldl hpending (here.toExpr hx)
      dsimp only at h
      split at h
      · next op _ first =>
        refine ih (List.forall_mem_nil _) ?_ hfirst later h
        intro y hy
        rcases List.mem_cons.mp hy with rfl | hy
        · exact operand
        · exact hchain y hy
      · refine ih (List.forall_mem_nil _) hchain ?_ later h
        intro y hy
        obtain rfl := Option.some.inj hy
        exact operand

end Part

/-! ### Meanings -/

/-- Whether what is read from the content of strings fills it, in templates of the characters `cs`. -/
def ReadsFaithfully (cs : List Char) (inner : Site → List Char → Except Failure Block) : Prop :=
  ∀ {site : Site} {quoted : Bool} {text : List Char} {b : Block}, site.chars = cs →
    site.Regular quoted text → inner site text = .ok b →
    b.Fills cs quoted (site.absolute 0) (site.absolute (utf8Length text))

section

variable {site : Site} {inner : Site → List Char → Except Failure Block} {quoted : Bool}
  {text w : List Char} {c d : Cursor} {parts : List Part} {part : Part}

lemma ExprKind.faithful_ofQuoted (hi : ReadsFaithfully site.chars inner) (hr : site.Regular quoted text)
    {content : List Char} {start : Nat} {p : Position}
    (hw : Part.Faithful site quoted text p.span (.word content start)) {kind : ExprKind}
    (h : ofQuoted site inner content start = .ok kind) :
    Expr.Faithful site.chars quoted p.span ⟨kind, p⟩ := by
  obtain ⟨front, back, ht, rfl, lo, hi'⟩ := hw
  unfold ofQuoted at h
  rcases hu : Quoted.unescape (utf8Length front) content with ⟨unescaped, origins⟩
  rw [hu] at h
  dsimp only at h
  split at h
  · cases h
    exact Expr.faithful_literal _ (.refl _)
  · obtain ⟨b, hb, h⟩ := ok_of_bind h
    split at h
    · cases h
      exact Expr.faithful_literal _ (.refl _)
    · cases h
      obtain ⟨regular, first, last⟩ := hr.within ht hu
      have chars : (site.within origins).chars = site.chars := rfl
      have fills := hi chars regular hb
      rw [first, last] at fills
      refine .intro (.refl _) nofun nofun ?_
      intro b' hb'
      obtain rfl := List.mem_singleton.mp hb'
      exact fills.faithful.mono ⟨lo, hi'⟩

/-- What the match of a rule stands for is faithful when its parts are. Blocks, raw texts and escapes are left
out: what they stand for depends on how their match is made up. -/
theorem Rule.faithful_meaning (hi : ReadsFaithfully site.chars inner) {r : Rule}
    (hr : r ≠ .block ∧ r ≠ .rawBlock ∧ r ≠ .escaped) (hread : site.Read quoted text c d w)
    (hp : Part.AllFaithful site quoted text (site.position c d).span parts)
    (h : r.meaning site inner c d parts = .ok part) :
    part.Faithful site quoted text (site.position c d).span := by
  have upTo : c.upTo d = w := hread.reaches.upTo_eq
  have spells (hq : quoted = false) :
      (site.position c d).span.Spells site.chars (String.ofList w).toList := by
    rw [String.toList_ofList]
    exact hread.spells hq
  have word : Part.Faithful site quoted text (site.position c d).span (.word w c.offset) := by
    obtain ⟨front, ht, hc, hd⟩ := hread.parts
    refine ⟨front, d.rest, ht, hc, Nat.le_refl _, ?_⟩
    rw [← hd]
    exact Nat.le_refl _
  have node {kind : NodeKind} (hk : kind.Faithful site.chars quoted (site.position c d).span)
      (hl : quoted = false → Node.Literal site.chars ⟨kind, site.position c d⟩) :
      Part.Faithful site quoted text (site.position c d).span (.node ⟨kind, site.position c d⟩) :=
    ⟨.refl _, hk.node hl⟩
  -- What is built from the parts without looking at the text.
  have built {build : Except Failure NodeKind} (hb : ∀ {kind}, build = .ok kind →
        kind.Faithful site.chars quoted (site.position c d).span ∧ ∀ p, Node.Literal site.chars ⟨kind, p⟩)
      (h : (build >>= fun kind => .ok (.node ⟨kind, site.position c d⟩)) = Except.ok part) :
      part.Faithful site quoted text (site.position c d).span := by
    obtain ⟨kind, hk, h⟩ := ok_of_bind h
    cases h
    obtain ⟨faithful, literal⟩ := hb hk
    exact node faithful fun _ => literal _
  have expr {kind : ExprKind} (hrefs : ∀ q ∈ kind.references, quoted = false → q.Literal site.chars)
      (hes : ∀ x ∈ kind.exprs, Expr.Faithful site.chars quoted (site.position c d).span x)
      (hbs : kind.blocks = []) :
      Part.Faithful site quoted text (site.position c d).span (.expr ⟨kind, site.position c d⟩) := by
    refine .intro (.refl _) hrefs hes ?_
    rw [hbs]
    exact nofun
  cases r with
  | block => exact absurd rfl hr.1
  | rawBlock => exact absurd rfl hr.2.1
  | escaped => exact absurd rfl hr.2.2
  -- marks, words and operators
  | ending | elseHead | endMarker | quiet | opOr | opAnd | opEq | opNe | opLe | opGe | opLt | opGt | opAdd | opSub
  | opMul | opDiv | opMod => cases h; trivial
  | opNot | opNeg => cases h; exact Span.Inside.refl _
  | rawContent | macroName | ident | dqInner | sqInner => cases h; rwa [upTo]
  -- texts and comments
  | text | stray =>
    simp only [meaning, upTo] at h
    cases h
    exact node ⟨nofun, nofun, nofun⟩ spells
  | lineComment | blockComment =>
    cases h
    exact node ⟨nofun, nofun, nofun⟩ fun _ => trivial
  | unterminated => cases h
  -- directives
  | template =>
    simp only [meaning] at h
    split at h
    · cases h
      exact hp.head
    · cases h
  | ifDirective => exact built (Part.faithful_conditional hp) h
  | foreachDirective => exact built (Part.faithful_loop hp) h
  | setDirective => exact built (Part.faithful_assignment hp) h
  | macroDirective => exact built (Part.faithful_definition hp) h
  | ifHead | elseifHead =>
    obtain ⟨e, he, h⟩ := ok_of_bind h
    cases h
    exact Part.faithful_soleExpr hp he
  | elseifBranch =>
    simp only [meaning] at h
    split at h
    · cases h
      exact ⟨hp.head, hp.tail.head⟩
    · cases h
  | elseBranch =>
    simp only [meaning] at h
    split at h
    · next b =>
      cases h
      exact hp.tail.head
    · cases h
  | foreachHead =>
    simp only [meaning] at h
    split at h
    · obtain ⟨e, he, h⟩ := ok_of_bind h
      cases h
      exact hp.tail.head.toExpr he
    · cases h
  | loopVar =>
    simp only [meaning] at h
    split at h
    · cases h
      exact hp.head
    · cases h
  | macroHead =>
    simp only [meaning] at h
    split at h
    · next name start rest =>
      obtain ⟨params, hm, h⟩ := ok_of_bind h
      cases h
      exact hp.tail.of_mapM Part.Faithful.toParam hm
    · cases h
  | macroParam => exact Part.faithful_parameter hp h
  | parseDirective | evaluateDirective =>
    obtain ⟨e, he, h⟩ := ok_of_bind h
    cases h
    refine node ⟨nofun, ?_, nofun⟩ fun _ => trivial
    intro x hx
    obtain rfl := List.mem_singleton.mp hx
    exact Part.faithful_soleExpr hp he
  | includeDirective =>
    obtain ⟨es, he, h⟩ := ok_of_bind h
    cases h
    exact node ⟨nofun, Part.faithful_exprs hp he, nofun⟩ fun _ => trivial
  | stopDirective => cases h; exact node ⟨nofun, nofun, nofun⟩ fun _ => trivial
  | breakDirective =>
    simp only [meaning] at h
    split at h
    · cases h
      exact node ⟨nofun, nofun, nofun⟩ fun _ => trivial
    · cases h
      exact node ⟨nofun, nofun, nofun⟩ fun _ => trivial
  -- macro calls
  | blockMacroCall =>
    simp only [meaning, upTo] at h
    obtain ⟨kind, hk, h⟩ := ok_of_bind h
    cases h
    obtain ⟨faithful, name, as, b, rfl⟩ := Part.faithful_blockCall hp hk
    exact node faithful spells
  | blockCallHead =>
    obtain ⟨⟨name, as⟩, hc, h⟩ := ok_of_bind h
    cases h
    exact Part.faithful_call hp hc
  | macroCall =>
    simp only [meaning, upTo] at h
    obtain ⟨⟨name, as⟩, hc, h⟩ := ok_of_bind h
    cases h
    refine node ⟨nofun, ?_, nofun⟩ spells
    intro e he
    obtain ⟨a, ha, rfl⟩ := List.mem_map.mp he
    exact Part.faithful_call hp hc a ha
  | macroArgs =>
    obtain ⟨as, hm, h⟩ := ok_of_bind h
    cases h
    exact hp.of_mapM Part.Faithful.toArg hm
  | namedArg =>
    simp only [meaning] at h
    split at h
    · obtain ⟨e, he, h⟩ := ok_of_bind h
      cases h
      exact hp.tail.head.toExpr he
    · cases h
  | positionalArg =>
    obtain ⟨e, he, h⟩ := ok_of_bind h
    cases h
    exact Part.faithful_soleExpr hp he
  | bareWord => cases h; exact expr nofun nofun rfl
  -- expressions
  | expr =>
    obtain ⟨e, he, h⟩ := ok_of_bind h
    cases h
    refine Part.faithful_operation (List.forall_mem_nil _) (List.forall_mem_nil _) ?_ hp he
    intro first hf
    cases hf
  | range =>
    simp only [meaning] at h
    split at h
    · obtain ⟨lower, hl, h⟩ := ok_of_bind h
      obtain ⟨upper, hu, h⟩ := ok_of_bind h
      cases h
      refine expr nofun ?_ rfl
      intro x hx
      rcases List.mem_cons.mp hx with rfl | hx
      · exact hp.head.toExpr hl
      · obtain rfl := List.mem_singleton.mp hx
        exact hp.tail.head.toExpr hu
    · cases h
  | list =>
    obtain ⟨es, he, h⟩ := ok_of_bind h
    cases h
    exact expr nofun (Part.faithful_exprs hp he) rfl
  | map =>
    obtain ⟨es, hm, h⟩ := ok_of_bind h
    cases h
    refine expr nofun ?_ rfl
    intro x hx
    obtain ⟨entry, hentry, hx⟩ := List.mem_flatMap.mp hx
    obtain ⟨key, value⟩ := hp.of_mapM Part.Faithful.toEntry hm entry hentry
    rcases List.mem_cons.mp hx with rfl | hx
    · exact key
    · obtain rfl := List.mem_singleton.mp hx
      exact value
  | mapEntry =>
    simp only [meaning] at h
    split at h
    · obtain ⟨key, hk, h⟩ := ok_of_bind h
      obtain ⟨value, hv, h⟩ := ok_of_bind h
      cases h
      exact ⟨hp.head.toExpr hk,
        hp.tail.head.toExpr hv⟩
    · cases h
  | dqString =>
    simp only [meaning] at h
    split at h
    · obtain ⟨kind, hk, h⟩ := ok_of_bind h
      cases h
      exact ExprKind.faithful_ofQuoted hi hread.regular hp.head hk
    · cases h
  | sqString | number =>
    simp only [meaning] at h
    split at h
    · cases h
      exact expr nofun nofun rfl
    · cases h
  | boolean | nullLit => cases h; exact expr nofun nofun rfl
  -- references
  | reference =>
    simp only [meaning, upTo] at h
    obtain ⟨q, hq, h⟩ := ok_of_bind h
    cases h
    exact Part.faithful_referenceOf hp spells hq
  | formal =>
    obtain ⟨⟨root, segments⟩, hs, h⟩ := ok_of_bind h
    cases h
    exact Part.faithful_pathOf hp hs
  | methodCall =>
    simp only [meaning] at h
    split at h
    · obtain ⟨es, he, h⟩ := ok_of_bind h
      cases h
      exact Part.faithful_exprs hp.tail he
    · cases h
  | property =>
    simp only [meaning] at h
    split at h
    · cases h
      exact List.forall_mem_nil _
    · cases h
  | index =>
    obtain ⟨e, he, h⟩ := ok_of_bind h
    cases h
    intro x hx
    obtain rfl := List.mem_singleton.mp hx
    exact Part.faithful_soleExpr hp he

end

end Stencil
