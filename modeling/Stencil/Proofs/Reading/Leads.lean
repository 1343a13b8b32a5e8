import Stencil.Proofs.Reading.Heads
import Stencil.Proofs.Reading.Nodes

/-!
# What nodes start with

The first characters of a text tell most nodes apart. Main statement: `Rule.goes_node_eq_none`, where the head of a
block stands, no other node can be read and no block ends.
-/

namespace Stencil

/-! ### What texts start with -/

/-- What the text may start with where a pattern is read, as far as it shows. -/
def Pattern.leads : Pattern → List (List Char)
  | word w => [w]
  | seq p q =>
    match p.words with
    | some ws => ws.flatMap fun w => q.leads.map (w ++ ·)
    | none => p.leads
  | alt p q => p.leads ++ q.leads
  | _ => [[]]

lemma Pattern.exists_lead {p : Pattern} {c d : Cursor} (h : p.run c = some d) : ∃ w ∈ p.leads, w <+: c.rest := by
  induction p generalizing c d with
  | word w => exact ⟨w, List.mem_singleton_self w, d.rest, (Cursor.word?_reaches h).1.symm⟩
  | seq p q ihp ihq =>
    obtain ⟨e, he, hd⟩ := Option.bind_eq_some_iff.mp h
    unfold leads
    split
    · next ws hws =>
      obtain ⟨w, hw, reach⟩ := mem_words hws he
      obtain ⟨u, hu, rest, hr⟩ := ihq hd
      refine ⟨w ++ u, List.mem_flatMap.mpr ⟨w, hw, List.mem_map_of_mem hu⟩, rest, ?_⟩
      rw [reach.1, ← hr, List.append_assoc]
    · exact ihp he
  | alt p q ihp ihq =>
    unfold run at h
    split at h
    · next e he =>
      obtain ⟨w, hw, prefix_⟩ := ihp he
      exact ⟨w, List.mem_append_left _ hw, prefix_⟩
    · obtain ⟨w, hw, prefix_⟩ := ihq h
      exact ⟨w, List.mem_append_right _ hw, prefix_⟩
  | one p => exact ⟨[], List.mem_singleton_self _, List.nil_prefix⟩
  | many p => exact ⟨[], List.mem_singleton_self _, List.nil_prefix⟩
  | opt p => exact ⟨[], List.mem_singleton_self _, List.nil_prefix⟩
  | absent p => exact ⟨[], List.mem_singleton_self _, List.nil_prefix⟩

/-- What the text may start with where an expression is read, given what it may start with for the rules. -/
def Peg.leads {ρ : Type} (rules : ρ → List (List Char)) : Peg ρ → List (List Char)
  | token p => p.leads
  | seq g _ => g.leads rules
  | alt g h => g.leads rules ++ h.leads rules
  | rule r => rules r
  | _ => [[]]

/-- What the text may start with where a rule is read, as far as it shows within so many rules. -/
def Grammar.leads {ρ : Type} (grammar : Grammar ρ) : Nat → ρ → List (List Char)
  | 0, _ => [[]]
  | n + 1, r =>
    match grammar r with
    | .word p => p.leads
    | .phrase g => g.leads (grammar.leads n)

lemma Peg.Derives.exists_lead {ρ : Type} {grammar : Grammar ρ} {g : Peg ρ} {c d : Cursor} {ts : List (Tree ρ)}
    (hd : Derives grammar g c d ts) (n : Nat) : ∃ w ∈ g.leads (grammar.leads n), w <+: c.rest := by
  have nothing {c : Cursor} : ∃ w ∈ [([] : List Char)], w <+: c.rest := ⟨[], List.mem_singleton_self _, List.nil_prefix⟩
  induction hd generalizing n with
  | token h => exact Pattern.exists_lead h
  | seq _ _ ih _ => exact ih n
  | left _ ih =>
    obtain ⟨w, hw, prefix_⟩ := ih n
    exact ⟨w, List.mem_append_left _ hw, prefix_⟩
  | right _ ih =>
    obtain ⟨w, hw, prefix_⟩ := ih n
    exact ⟨w, List.mem_append_right _ hw, prefix_⟩
  | done => exact nothing
  | more _ _ _ _ => exact nothing
  | skipped => exact nothing
  | taken _ _ => exact nothing
  | word hb h =>
    cases n with
    | zero => exact nothing
    | succ n =>
      simp only [Peg.leads, Grammar.leads, hb]
      exact Pattern.exists_lead h
  | phrase hb _ ih =>
    cases n with
    | zero => exact nothing
    | succ n =>
      simp only [Peg.leads, Grammar.leads, hb]
      exact ih n

/-! ### Where a head stands -/

variable {c d : Cursor} {r : Rule}

namespace Rule

/-- The word of a head. -/
def headWord : Rule → List Char
  | ifHead => "if".toList
  | foreachHead => "foreach".toList
  | macroHead => "macro".toList
  | _ => []

/-- The directive that a head belongs to. -/
def headOf : Rule → Rule
  | ifHead => ifDirective
  | foreachHead => foreachDirective
  | macroHead => macroDirective
  | r => r

/-- A directive's word behind its mark, in braces or with no name going on with it. -/
def marked (w : List Char) : Pattern :=
  .seq (.lit "#") (.alt (.word ('\x7b' :: w ++ ['\x7d']))
    (.seq (.word w) (.absent (.one fun x => x.isAlphanum || x == '_'))))

lemma exists_marked (hr : r ∈ blockHeads) : ∃ q arg, body r = .phrase (headed (marked r.headWord) q arg) := by
  simp only [blockHeads, List.mem_cons, List.not_mem_nil, or_false] at hr
  rcases hr with rfl | rfl | rfl
  · exact ⟨_, _, rfl⟩
  · exact ⟨_, _, rfl⟩
  · exact ⟨_, _, rfl⟩

/-- A head starts with its word. -/
lemma spells_head (hr : r ∈ blockHeads) (h : Spans (.rule r) c d) :
    (∃ rest, c.rest = '#' :: '\x7b' :: (r.headWord ++ '\x7d' :: rest)) ∨
      ∃ rest, c.rest = '#' :: (r.headWord ++ rest) ∧ ∀ x ∈ rest.head?, (x.isAlphanum || x == '_') = false := by
  obtain ⟨q, arg, hb⟩ := exists_marked hr
  obtain ⟨c₆, h, -⟩ := spans_seq.mp ((spans_phrase hb).mp h)
  obtain ⟨c₅, h, -⟩ := spans_seq.mp h
  obtain ⟨c₄, h, -⟩ := spans_seq.mp h
  obtain ⟨c₃, h, -⟩ := spans_seq.mp h
  obtain ⟨c₂, h, -⟩ := spans_seq.mp h
  obtain ⟨c₁, word, -⟩ := spans_seq.mp h
  obtain ⟨e, mark, word⟩ := Option.bind_eq_some_iff.mp (spans_token.mp word)
  have hash : c.rest = '#' :: e.rest := (Cursor.word?_reaches mark).1
  unfold Pattern.run at word
  split at word
  · next f braced =>
    left
    refine ⟨f.rest, ?_⟩
    rw [hash, (Cursor.word?_reaches braced).1, List.cons_append, List.cons_append, List.append_assoc]
    rfl
  · right
    obtain ⟨f, plain, absent⟩ := Option.bind_eq_some_iff.mp word
    exact ⟨f.rest, by rw [hash, (Cursor.word?_reaches plain).1], Pattern.head_of_run_absent absent⟩

/-- The word of a head is a keyword, in braces or where no name goes on with it. -/
lemma run_keyword (hr : r ∈ blockHeads) (o : Nat) (rest : List Char) :
    (∃ d, keyword.run ⟨o, '\x7b' :: (r.headWord ++ '\x7d' :: rest)⟩ = some d) ∧
      ((∀ x ∈ rest.head?, (x.isAlphanum || x == '_') = false) → ∃ d, keyword.run ⟨o, r.headWord ++ rest⟩ = some d) := by
  have after {k : Nat} (h : ∀ x ∈ rest.head?, (x.isAlphanum || x == '_') = false) :
      (Pattern.absent (.one fun x => x.isAlphanum || x == '_')).run ⟨k, rest⟩ = some ⟨k, rest⟩ :=
    Pattern.run_absent (Pattern.run_one_eq_none h)
  simp only [blockHeads, List.mem_cons, List.not_mem_nil, or_false] at hr
  rcases hr with rfl | rfl | rfl
  · exact ⟨⟨⟨o + 4, rest⟩, rfl⟩, fun h => ⟨⟨o + 2, rest⟩, after h⟩⟩
  · exact ⟨⟨⟨o + 9, rest⟩, rfl⟩, fun h => ⟨⟨o + 7, rest⟩, after h⟩⟩
  · exact ⟨⟨⟨o + 7, rest⟩, rfl⟩, fun h => ⟨⟨o + 5, rest⟩, after h⟩⟩

/-- Where a keyword follows the mark, no macro is called and the mark is no stray one. -/
lemma goes_eq_none_of_keyword {o : Nat} {rest : List Char} (hk : ∃ d, keyword.run ⟨o + 1, rest⟩ = some d)
    (hc : c = ⟨o, '#' :: rest⟩) : goes (.rule text) c = none ∧ goes (.rule stray) c = none ∧
      goes (.rule macroName) ⟨o + 1, rest⟩ = none := by
  subst hc
  obtain ⟨d, hk⟩ := hk
  obtain ⟨special, -, marked, htext, hstray⟩ := exists_mark
  obtain ⟨e, mark⟩ := marked ⟨o, '#' :: rest⟩ rfl
  refine ⟨(goes_word htext _).trans ?_, (goes_word hstray _).trans ?_, (goes_word rfl _).trans ?_⟩
  · have none : (Pattern.absent special).run ⟨o, '#' :: rest⟩ = none := by
      show (if (special.run _).isSome then none else _) = _
      rw [mark]
      rfl
    exact Pattern.run_seq_eq_none (Pattern.run_seq_eq_none none)
  · have both : (Pattern.lit "#" ++ keyword).run ⟨o, '#' :: rest⟩ = some d := hk
    refine Pattern.run_seq_eq_none ?_
    show (if ((Pattern.lit "#" ++ keyword).run _).isSome then none else _) = _
    rw [both]
    rfl
  · refine Pattern.run_seq_eq_none ?_
    show (if (keyword.run _).isSome then none else _) = _
    rw [hk]
    rfl

/-- Where the head of a block stands, no macro is called. -/
lemma goes_macroCall_eq_none (hr : r ∈ blockHeads) (h : Spans (.rule r) c d) :
    goes (.rule text) c = none ∧ goes (.rule stray) c = none ∧ goes (.rule macroCall) c = none := by
  have hb : body macroCall = .phrase (.seq (.seq (.seq (.seq (.seq (.seq (.token (.lit "#"))
      (.alt (.seq (.seq (.token (.lit "\x7b")) (.rule macroName)) (.token (.lit "\x7d"))) (.rule macroName)))
      (.token (.lit "("))) gap) (.rule macroArgs)) gap) (.token (.lit ")"))) := rfl
  have hn : body macroName = .word (.seq (.absent keyword) (.seq (.one fun c => c.isAlpha || c == '_')
      (.many (.one fun c => c.isAlphanum || c == '_')))) := rfl
  have called {o : Nat} {rest : List Char} (hc : c = ⟨o, '#' :: rest⟩)
      (noName : goes (.rule macroName) ⟨o + 1, rest⟩ = none)
      (noBraces : goes (.seq (.token (.lit "\x7b")) (.rule macroName)) ⟨o + 1, rest⟩ = none) :
      goes (.rule macroCall) c = none := by
    subst hc
    have mark : goes (.token (.lit "#")) ⟨o, '#' :: rest⟩ = some ⟨o + 1, rest⟩ := rfl
    rw [goes_phrase hb]
    exact goes_seq_of_none (goes_seq_of_none (goes_seq_of_none (goes_seq_of_none (goes_seq_of_none
      ((goes_after mark _).trans ((goes_right (goes_seq_of_none noBraces _) _).trans noName)) _) _) _) _) _
  obtain ⟨o, text⟩ := c
  rcases spells_head hr h with ⟨rest, hc⟩ | ⟨rest, hc, next⟩
  · obtain rfl : text = _ := hc
    obtain ⟨noText, noStray, noName⟩ := goes_eq_none_of_keyword (run_keyword hr (o + 1) rest).1 rfl
    refine ⟨noText, noStray, called rfl noName ?_⟩
    -- Inside of the braces the keyword stands on its own.
    have brace : goes (.token (.lit "\x7b")) ⟨o + 1, '\x7b' :: (r.headWord ++ '\x7d' :: rest)⟩ =
      some ⟨o + 1 + 1, r.headWord ++ '\x7d' :: rest⟩ := rfl
    have keyword_ := (run_keyword hr (o + 1 + 1) ('\x7d' :: rest)).2 (forall_mem_of_eq_some rfl (by decide))
    exact (goes_after brace _).trans (goes_eq_none_of_keyword keyword_ rfl).2.2
  · obtain rfl : text = _ := hc
    obtain ⟨noText, noStray, noName⟩ := goes_eq_none_of_keyword ((run_keyword hr (o + 1) rest).2 next) rfl
    refine ⟨noText, noStray, called rfl noName (@goes_eq_none_of_openers _ _ 0 ['\x7b'] rfl ?_)⟩
    have first : ∀ r ∈ blockHeads, ∃ y ys, r.headWord = y :: ys ∧ y ∉ ['\x7b'] := by
      simp only [blockHeads, List.forall_mem_cons]
      exact ⟨⟨'i', ['f'], rfl, by decide⟩, ⟨'f', "oreach".toList, rfl, by decide⟩, ⟨'m', "acro".toList, rfl, by decide⟩,
        List.forall_mem_nil _⟩
    obtain ⟨y, ys, hw, other⟩ := first r hr
    have start : (r.headWord ++ rest).head? = some y := by
      rw [hw]
      rfl
    exact forall_mem_of_eq_some start other

/-- Where the head of a block stands, no block ends, and of the nodes only the directive of the head can be read. -/
theorem goes_node_eq_none (hr : r ∈ blockHeads) (h : Spans (.rule r) c d) :
    blockEnd.run c = none ∧ ∀ q ∈ nodes, q ≠ r.headOf → goes (.rule q) c = none := by
  have starts : ∃ v ∈ ['#' :: '\x7b' :: (r.headWord ++ ['\x7d']), '#' :: r.headWord], v <+: c.rest := by
    rcases spells_head hr h with ⟨rest, hc⟩ | ⟨rest, hc, -⟩
    · exact ⟨_, List.mem_cons_self, rest, by rw [hc]; simp⟩
    · exact ⟨_, List.mem_cons_of_mem _ List.mem_cons_self, rest, by rw [hc]; simp⟩
  obtain ⟨v, hv, prefix_⟩ := starts
  have apart {us : List (List Char)} (hu : us.all (fun u =>
      ['#' :: '\x7b' :: (r.headWord ++ ['\x7d']), '#' :: r.headWord].all fun v =>
        !u.isPrefixOf v && !v.isPrefixOf u) = true) : ¬∃ u ∈ us, u <+: c.rest := by
    rintro ⟨u, hmem, other⟩
    have distinct := List.all_eq_true.mp (List.all_eq_true.mp hu u hmem) v hv
    simp only [Bool.and_eq_true, Bool.not_eq_true', Bool.eq_false_iff, ne_eq, List.isPrefixOf_iff_prefix] at distinct
    rcases List.prefix_or_prefix_of_prefix other prefix_ with before | after
    · exact distinct.1 before
    · exact distinct.2 after
  constructor
  · have checked : ∀ r ∈ blockHeads, blockEnd.leads.all (fun u =>
        ['#' :: '\x7b' :: (r.headWord ++ ['\x7d']), '#' :: r.headWord].all fun v =>
          !u.isPrefixOf v && !v.isPrefixOf u) = true := by
      decide +kernel
    cases hend : blockEnd.run c with
    | none => rfl
    | some e => exact absurd (Pattern.exists_lead hend) (apart (checked r hr))
  · intro q hq other
    obtain ⟨noText, noStray, noCall⟩ := goes_macroCall_eq_none hr h
    have checked : ∀ r ∈ blockHeads, ∀ q ∈ nodes, q = r.headOf ∨ q ∈ [text, stray, macroCall] ∨
        (body.leads 3 q).all (fun u =>
          ['#' :: '\x7b' :: (r.headWord ++ ['\x7d']), '#' :: r.headWord].all fun v =>
            !u.isPrefixOf v && !v.isPrefixOf u) = true := by
      decide +kernel
    rcases checked r hr q hq with same | plain | leads
    · exact absurd same other
    · simp only [List.mem_cons, List.not_mem_nil, or_false] at plain
      rcases plain with rfl | rfl | rfl
      · exact noText
      · exact noStray
      · exact noCall
    · exact goes_eq_none fun e ⟨ts, hd⟩ => apart leads (hd.exists_lead 3)

end Rule

end Stencil
