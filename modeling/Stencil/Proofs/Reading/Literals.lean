import Stencil.Proofs.Datum
import Stencil.Proofs.Reading.Numerals

/-!
# Literals

How the literal of a datum is read wherever an expression may stand. Main statement: `Rule.reads_literal`.
-/

namespace Stencil

variable {c d e : Cursor} {depth : Nat}

/-! ### Meanings -/

/-- An expression is the literal of a datum. -/
inductive Datum.Form : Datum → Expr → Prop
  | null (p : Position) : Form .null ⟨.literal .null, p⟩
  | bool (b : Bool) (p : Position) : Form (.bool b) ⟨.literal (.bool b), p⟩
  | int (n : Int64) (p : Position) : Form (.int n) ⟨.literal (.int n), p⟩
  | str (s : String) (p : Position) : Form (.str s) ⟨.literal (.str s), p⟩
  | list {ds es} (p : Position) : List.Forall₂ Form ds es → Form (.list ds) ⟨.list es, p⟩
  | map {es fs} (p : Position) : List.Forall₂ Form (es.map fun e => .str e.1) (fs.map Entry.key) →
    List.Forall₂ Form (es.map Prod.snd) (fs.map Entry.value) → Form (.map es) ⟨.map fs, p⟩

/-- A tree means the literal of a datum, wherever it stands. -/
def Tree.Writes (t : Tree Rule) (d : Datum) : Prop :=
  ∀ site inner, ∃ e, t.eval (Rule.meaning site inner) = .ok (.expr e) ∧ d.Form e

/-- An operand on its own means what it means. -/
lemma Tree.Writes.expr {t : Tree Rule} {v : Datum} (h : t.Writes v) : (node .expr c d [t]).Writes v := by
  intro site inner
  obtain ⟨e, meaning, form⟩ := h site inner
  refine ⟨e, ?_, form⟩
  rw [eval, evalAll, meaning]
  rfl

namespace Rule

/-! ### Words -/

/-- After a literal, no word goes on. -/
lemma ends_word (hd : d.Closes) :
    (Pattern.absent (.one fun c => c.isAlphanum || c == '_')).run d = some d :=
  Pattern.run_absent (Pattern.run_one_eq_none (hd.head (forall_mem_of_all (by decide))))

/-- An operand without operators is an expression. -/
lemma reads_alone {r : Rule} {front back : List Rule} {t : Tree Rule} {v : Datum}
    (hs : operands = front ++ r :: back) (hf : ∀ q ∈ opNot :: opNeg :: front, (body.matcher depth q).Fails c)
    (hp : ∀ x ∈ c.rest.head?, x ∉ ['(']) (hr : (body.matcher depth r).Reads c d [t]) (ht : t.Writes v)
    (hd : d.Closes) : ∃ t, (body.matcher (depth + 1) expr).Reads c d [t] ∧ t.Writes v :=
  ⟨_, reads_sole hs hf hp hr hd, ht.expr⟩

lemma reads_null (h : c.Reaches d "null".toList) (hd : d.Closes) :
    ∃ t, (body.matcher (depth + 2) expr).Reads c d [t] ∧ t.Writes .null := by
  have first : ∀ x ∈ c.rest.head?, x ∈ ['n'] := h.head (List.mem_singleton_self _)
  have noNot : (body.matcher (depth + 1) opNot).Fails c := by
    refine fails_word rfl ?_
    obtain ⟨o, rest⟩ := c
    obtain ⟨rfl, -⟩ := h
    rfl
  have others : ∀ q ∈ [opNeg, range, list, map, dqString, sqString, number, boolean],
      (body.matcher (depth + 1) q).Fails c := fails_of_opensOff first (by decide)
  have word : (body.matcher (depth + 1) nullLit).Reads c d [.node nullLit c d []] := by
    exact reads_word rfl (Pattern.run_seq (Pattern.run_word h) (ends_word hd))
  have noParen : ∀ x ∈ c.rest.head?, x ∉ ['('] := fun x hx => List.mem_singleton.mp (first x hx) ▸ by decide
  exact reads_alone rfl (List.forall_mem_cons.mpr ⟨noNot, others⟩) noParen word (fun site inner => ⟨_, rfl, .null _⟩) hd

lemma reads_bool {b : Bool} (h : c.Reaches d (toString b).toList) (hd : d.Closes) :
    ∃ t, (body.matcher (depth + 2) expr).Reads c d [t] ∧ t.Writes (.bool b) := by
  have first : ∀ x ∈ c.rest.head?, x ∈ ['t', 'f'] := by
    cases b with
    | true => exact Cursor.Reaches.head h (by decide)
    | false => exact Cursor.Reaches.head h (by decide)
  have others : ∀ q ∈ [opNot, opNeg, range, list, map, dqString, sqString, number],
      (body.matcher (depth + 1) q).Fails c := fails_of_opensOff first (by decide)
  have word : (body.matcher (depth + 1) boolean).Reads c d [.node boolean c d []] := by
    refine reads_word rfl (Pattern.run_seq ?_ (ends_word hd))
    cases b with
    | true => exact Pattern.run_left (Pattern.run_word h)
    | false =>
      have other : (Pattern.word "true".toList).run c = none :=
        @Pattern.run_eq_none _ ['t'] rfl c (Cursor.Reaches.head h (by decide))
      exact Pattern.run_right other (Pattern.run_word h)
  have noParen : ∀ x ∈ c.rest.head?, x ∉ ['('] := fun x hx => by
    have other : ∀ x ∈ ['t', 'f'], x ∉ ['('] := forall_mem_of_all (by decide)
    exact other x (first x hx)
  have meaning : (Tree.node boolean c d []).Writes (.bool b) := by
    intro site inner
    refine ⟨_, rfl, ?_⟩
    rw [h.upTo_eq]
    cases b
    · exact .bool false _
    · exact .bool true _
  exact reads_alone rfl others noParen word meaning hd

/-! ### Numbers -/

/-- The digits of a number, with a minus before them where it is negative, are an expression. -/
lemma reads_int {n : Int64} (hn : n ≠ Int64.minValue) (h : c.Reaches d (toString n.toInt).toList)
    (hd : d.Closes) : ∃ t, (body.matcher (depth + 2) expr).Reads c d [t] ∧ t.Writes (.int n) := by
  rw [← Numeral.text_ofInt] at h
  have value : n.toInt = (Numeral.ofInt n.toInt).value := (Numeral.value_ofInt n.toInt).symm
  obtain ⟨b, digits, read⟩ := (Numeral.ofInt n.toInt).reads_expr h hd
  refine ⟨_, read, fun site inner => ?_⟩
  obtain ⟨parts, p, means, operand⟩ := Numeral.evalAll_trees digits value hn
  exact ⟨_, operand.eval_expr means, .int n p⟩

/-! ### Texts -/

lemma undouble_doubled (cs : List Char) : undouble (cs.flatMap Datum.doubled) = cs := by
  induction cs with
  | nil => rfl
  | cons c cs ih =>
    rw [List.flatMap_cons, Datum.doubled]
    split
    · next quote =>
      subst quote
      exact congrArg _ ih
    · next other =>
      show undouble (c :: cs.flatMap Datum.doubled) = c :: cs
      rw [undouble.eq_2 _ _ fun _ quote => absurd quote other, ih]

/-- A character of a text between quotes is read as it is written there. -/
lemma run_doubled {x : Char} (h : c.Reaches d (Datum.doubled x)) :
    (Pattern.alt (.lit "''") (.seq (.absent (.lit "'")) .any)).run c = some d := by
  unfold Datum.doubled at h
  split at h
  · exact Pattern.run_left (Pattern.run_word h)
  · next other =>
    have away : ∀ y ∈ c.rest.head?, y ∉ ['\''] := h.head fun hx => other (List.mem_singleton.mp hx)
    have noPair : (Pattern.lit "''").run c = none := Pattern.run_eq_none rfl away
    have noQuote : (Pattern.lit "'").run c = none := Pattern.run_eq_none rfl away
    exact Pattern.run_right noPair (Pattern.run_seq (Pattern.run_absent noQuote) (Pattern.run_one h rfl))

/-- The content of a text between quotes ends where a quote stands alone. -/
lemma run_quote_eq_none (h : d.Reaches e ['\'']) (he : ∀ x ∈ e.rest.head?, x ≠ '\'') :
    (Pattern.alt (.lit "''") (.seq (.absent (.lit "'")) .any)).run d = none := by
  have single : (Pattern.lit "'").run d = some e := Pattern.run_word h
  have noPair : (Pattern.lit "''").run d = none := by
    have second : (Pattern.lit "'").run e = none := by
      refine Pattern.run_eq_none rfl (fun x hx hm => he x hx (List.mem_singleton.mp hm))
    have first : d.next? (· == '\'') = some e := Pattern.run_one h (beq_self_eq_true '\'')
    show (d.next? (· == '\'')).bind (·.word? ['\'']) = none
    rw [first]
    exact second
  refine Pattern.run_right noPair (Pattern.run_seq_eq_none ?_)
  show (if ((Pattern.lit "'").run d).isSome then none else some d) = none
  rw [single]
  rfl

/-- A string is read where its content is, between the marks that delimit it. -/
lemma reads_between {r content : Rule} {w : String} {a b : Cursor} {ts : List (Tree Rule)}
    (hr : body r = .phrase (.seq (.seq (.token (.lit w)) (.rule content)) (.token (.lit w))))
    (opened : c.Reaches a w.toList) (inner : (body.matcher depth content).Reads a b ts)
    (closed : b.Reaches d w.toList) : (body.matcher (depth + 1) r).Reads c d [.node r c d ts] := by
  have opening : (Matcher.token (.lit w) : Matcher Rule).Reads c a [] := Matcher.reads_token (Pattern.run_word opened)
  have closing : (Matcher.token (.lit w) : Matcher Rule).Reads b d [] := Matcher.reads_token (Pattern.run_word closed)
  have all := (opening.seq inner).seq closing
  rw [List.append_nil] at all
  exact reads_phrase hr all

/-- A text between quotes is read as what it quotes. -/
lemma reads_quoted {s : String} (h : c.Reaches d (Datum.quoted s)) (hd : d.Closes) :
    ∃ t, (body.matcher (depth + 3) expr).Reads c d [t] ∧ t.Writes (.str s) := by
  obtain ⟨b, opened, hb⟩ := Cursor.Reaches.split (show c.Reaches d (['\''] ++ (_ ++ _)) from h)
  obtain ⟨a, content, closed⟩ := hb.split
  have ends : ∀ x ∈ d.rest.head?, x ≠ '\'' := hd.head (forall_mem_of_all (by decide))
  have inner : (body.matcher (depth + 1) sqInner).Reads b a [.node sqInner b a []] := by
    rw [List.flatMap_def] at content
    refine reads_word rfl (Pattern.run_many content ?_ (run_quote_eq_none closed ends))
    refine List.forall_mem_map.mpr fun x _ => ⟨?_, fun c d hcd => run_doubled hcd⟩
    unfold Datum.doubled
    split
    · exact List.cons_ne_nil _ _
    · exact List.cons_ne_nil _ _
  have string : (body.matcher (depth + 2) sqString).Reads c d [.node sqString c d [.node sqInner b a []]] :=
    reads_between body_sqString opened inner closed
  have first : ∀ x ∈ c.rest.head?, x ∈ ['\''] := opened.head (List.mem_singleton_self _)
  have front : ∀ q ∈ [opNot, opNeg, range, list, map, dqString], (body.matcher (depth + 2) q).Fails c :=
    fails_of_opensOff first (by decide)
  have noParen : ∀ x ∈ c.rest.head?, x ∉ ['('] := fun x hx => List.mem_singleton.mp (first x hx) ▸ by decide
  have meaning : (Tree.node sqString c d [.node sqInner b a []]).Writes (.str s) := by
    intro site inner
    refine ⟨_, rfl, ?_⟩
    rw [content.upTo_eq, undouble_doubled, String.ofList_toList]
    exact .str s _
  exact reads_alone rfl front noParen string meaning hd

/-! ### Lists and maps -/

/-- A literal starts with a character that is seen. -/
lemma starts_literal (v : Datum) : ∃ x xs, v.literal = x :: xs ∧ x ∉ blankChars := by
  cases v with
  | null => exact ⟨_, _, rfl, by decide⟩
  | bool b =>
    cases b with
    | true => exact ⟨_, _, rfl, by decide⟩
    | false => exact ⟨_, _, rfl, by decide⟩
  | int n =>
    obtain ⟨x, xs, hx, numeric⟩ := (Numeral.ofInt n.toInt).exists_text
    have apart : ∀ x ∈ "-0123456789".toList, x ∉ blankChars := forall_mem_of_all (by decide)
    rw [Datum.literal, ← Numeral.text_ofInt]
    exact ⟨x, xs, hx, apart x numeric⟩
  | str s => exact ⟨_, _, rfl, by decide⟩
  | list ds => exact ⟨_, _, rfl, by decide⟩
  | map es => exact ⟨_, _, rfl, by decide⟩

/-- Trees that each stand for a part that fits something stand for parts that fit all of it. -/
lemma evalAll_fits {α β : Type} {Fits : α → β → Prop}
    {m : Rule → Cursor → Cursor → List Part → Except Failure Part} {part : β → Part}
    (project : Part → Except Failure β) (hp : ∀ y, project (part y) = .ok y) {xs : List α} {ts : List (Tree Rule)}
    (h : List.Forall₂ (fun x t => ∃ y, t.eval m = .ok (part y) ∧ Fits x y) xs ts) :
    ∃ parts ys, Tree.evalAll m ts = .ok parts ∧ parts.mapM project = .ok ys ∧ List.Forall₂ Fits xs ys := by
  induction h with
  | nil => exact ⟨[], [], rfl, rfl, .nil⟩
  | cons first _ ih =>
    obtain ⟨y, here, fits⟩ := first
    obtain ⟨parts, ys, later, projected, all⟩ := ih
    refine ⟨part y :: parts, y :: ys, ?_, ?_, .cons fits all⟩
    · rw [Tree.evalAll, here, later]
      rfl
    · rw [List.mapM_cons, hp, projected]
      rfl

/-- What starts as a list of literals is no range: no two dots follow the first of them. -/
lemma fails_range {ds : List Datum} {b : Cursor}
    (hp : Parted (depth + 1) (.rule expr) Datum.literal (fun v t => t.Writes v) ds) (hb : c.Reaches b ['['])
    (h : b.Reaches d (", ".toList.intercalate (ds.map Datum.literal))) (hd : d.Reaches e [']']) :
    (body.matcher (depth + 2) range).Fails c := by
  have opening : (Matcher.token (.lit "[") : Matcher Rule).Reads c b [] := Matcher.reads_token (Pattern.run_word hb)
  have noGap : (gap.matcher (body.matcher (depth + 1))).Reads b b [] :=
    reads_no_gap (hp.head (by decide) h hd)
  have start := opening.seq noGap
  refine fails_phrase body_range (Matcher.Fails.seq (Matcher.Fails.seq (Matcher.Fails.seq (Matcher.Fails.seq ?_))))
  cases ds with
  | nil =>
    obtain rfl := h.eq_of_nil
    exact (start.seq_fails (fails_expr (hd.head (by decide)))).seq.seq
  | cons v vs =>
    rw [List.map_cons, intercalate_cons, List.flatMap_map] at h
    obtain ⟨a, here, later⟩ := h.split
    obtain ⟨t, read, -⟩ := hp.reads v (List.mem_cons_self ..) here (closes_separated (by decide) later hd)
    have next : ∀ x ∈ a.rest.head?, x ∈ [',', ']'] := by
      cases vs with
      | nil =>
        obtain rfl := later.eq_of_nil
        exact hd.head (by decide)
      | cons v vs => exact Cursor.Reaches.head (show a.Reaches d (',' :: _) from later) (by decide)
    have apart : ∀ x ∈ [',', ']'], x ∉ blankChars ∧ x ∉ ['.'] := forall_mem_of_all (by decide)
    have noGap : (gap.matcher (body.matcher (depth + 1))).Reads a a [] :=
      reads_no_gap fun x hx => (apart x (next x hx)).1
    have noDots : (Matcher.token (.lit "..") : Matcher Rule).Fails a :=
      Matcher.fails_token (Pattern.run_eq_none rfl fun x hx => (apart x (next x hx)).2)
    exact ((start.seq read).seq noGap).seq_fails noDots

/-- A list of literals is an expression where each of them is. -/
lemma reads_list {ds : List Datum} (hp : Parted (depth + 1) (.rule expr) Datum.literal (fun v t => t.Writes v) ds)
    (h : c.Reaches d (Datum.list ds).literal) (hd : d.Closes) :
    ∃ t, (body.matcher (depth + 3) expr).Reads c d [t] ∧ t.Writes (.list ds) := by
  rw [Datum.literal, Datum.literals_eq] at h
  obtain ⟨b, hb, inside⟩ := Cursor.Reaches.split (show c.Reaches d (['['] ++ (_ ++ [']'])) from h)
  obtain ⟨a, items, ha⟩ := inside.split
  have noItem : (body.matcher (depth + 1) expr).Fails a := fails_expr (ha.head (by decide))
  obtain ⟨ts, list, means⟩ := reads_bracketed hp body_list noItem rfl (by decide) hb items ha
  have first : ∀ x ∈ c.rest.head?, x ∈ ['['] := hb.head (by decide)
  have noPrefix : ∀ q ∈ [opNot, opNeg], (body.matcher (depth + 2) q).Fails c := fails_of_opensOff first (by decide)
  have noRange : (body.matcher (depth + 2) range).Fails c := fails_range hp hb items ha
  have front : ∀ q ∈ [opNot, opNeg, range], (body.matcher (depth + 2) q).Fails c := by
    intro q hq
    rcases List.mem_append.mp (show q ∈ [opNot, opNeg] ++ [range] from hq) with hq | hq
    · exact noPrefix q hq
    · exact List.mem_singleton.mp hq ▸ noRange
  have meaning : (Tree.node Rule.list c d ts).Writes (.list ds) := by
    intro site inner
    obtain ⟨parts, es, here, exprs, forms⟩ := evalAll_fits Part.toExpr (fun _ => rfl) (means.imp fun _ _ h => h site inner)
    refine ⟨⟨.list es, site.position c d⟩, ?_, .list _ forms⟩
    rw [Tree.eval, here]
    show (parts.mapM Part.toExpr).bind _ = _
    rw [exprs]
    rfl
  exact reads_alone rfl front (hb.head (by decide)) list meaning hd

/-- A tree means an entry of a map literal. -/
def WritesEntry (e : String × Datum) (t : Tree Rule) : Prop :=
  ∀ site inner, ∃ f, t.eval (meaning site inner) = .ok (.entry f) ∧ Datum.Form (.str e.1) f.key ∧
    Datum.Form e.2 f.value

/-- The text of an entry of a map literal. -/
def entryText (e : String × Datum) : List Char := Datum.quoted e.1 ++ ": ".toList ++ e.2.literal

/-- The literal of an entry is read where that of its value is. -/
lemma reads_mapEntry {f : String × Datum} (hv : ∀ {c d}, c.Reaches d f.2.literal → d.Closes →
      ∃ t, (body.matcher (depth + 3) expr).Reads c d [t] ∧ t.Writes f.2)
    (h : c.Reaches d (entryText f)) (hd : d.Closes) :
    ∃ t, (body.matcher (depth + 4) mapEntry).Reads c d [t] ∧ WritesEntry f t := by
  obtain ⟨a, before, value⟩ := Cursor.Reaches.split h
  obtain ⟨b, key, between⟩ := before.split
  obtain ⟨b', colon, blank⟩ := Cursor.Reaches.split (show b.Reaches a ([':'] ++ [' ']) from between)
  obtain ⟨t, readKey, meansKey⟩ := @reads_quoted _ _ depth _ key (colon.closes (by decide))
  obtain ⟨u, readValue, meansValue⟩ := hv value hd
  obtain ⟨x, xs, hx, visible⟩ := starts_literal f.2
  rw [hx] at value
  have noGap : (gap.matcher (body.matcher (depth + 3))).Reads b b [] := reads_no_gap (colon.head (by decide))
  have read : (Matcher.token (.lit ":") : Matcher Rule).Reads b b' [] := Matcher.reads_token (Pattern.run_word colon)
  have oneBlank : (gap.matcher (body.matcher (depth + 3))).Reads b' a [] :=
    reads_gap blank (forall_mem_of_all (by decide)) (value.head visible)
  refine ⟨.node mapEntry c d [t, u], ?_, fun site inner => ?_⟩
  · exact reads_phrase body_mapEntry ((((readKey.seq noGap).seq read).seq oneBlank).seq readValue)
  · obtain ⟨e, here, form⟩ := meansKey site inner
    obtain ⟨e', there, form'⟩ := meansValue site inner
    refine ⟨⟨e, e'⟩, ?_, form, form'⟩
    rw [Tree.eval, Tree.evalAll, Tree.evalAll, Tree.evalAll, here, there]
    rfl

/-- A map of literals is an expression where each of its entries is one. -/
lemma reads_map {es : List (String × Datum)} (hp : Parted (depth + 1) (.rule mapEntry) entryText WritesEntry es)
    (h : c.Reaches d (Datum.map es).literal) (hd : d.Closes) :
    ∃ t, (body.matcher (depth + 3) expr).Reads c d [t] ∧ t.Writes (.map es) := by
  rw [Datum.literal, Datum.entryLiterals_eq] at h
  obtain ⟨b, hb, inside⟩ := Cursor.Reaches.split (show c.Reaches d (['\x7b'] ++ (_ ++ ['\x7d'])) from h)
  obtain ⟨a, items, ha⟩ := inside.split
  have noEntry : (body.matcher (depth + 1) mapEntry).Fails a := by
    have noKey : (body.matcher depth expr).Fails a := fails_expr (ha.head (by decide))
    exact fails_phrase body_mapEntry (Matcher.Fails.seq noKey).seq.seq.seq
  obtain ⟨ts, map, means⟩ := reads_bracketed hp body_map noEntry rfl (by decide) hb items ha
  have front : ∀ q ∈ [opNot, opNeg, range, list], (body.matcher (depth + 2) q).Fails c :=
    fails_of_opensOff (hb.head (List.mem_singleton_self _)) (by decide)
  have meaning : (Tree.node Rule.map c d ts).Writes (.map es) := by
    intro site inner
    obtain ⟨parts, fs, here, entries, forms⟩ :=
      evalAll_fits Part.toEntry (fun _ => rfl) (means.imp fun _ _ h => h site inner)
    have keys : List.Forall₂ Datum.Form (es.map fun e => .str e.1) (fs.map Entry.key) :=
      List.forall₂_map_left_iff.mpr (List.forall₂_map_right_iff.mpr (forms.imp fun _ _ form => form.1))
    have values : List.Forall₂ Datum.Form (es.map Prod.snd) (fs.map Entry.value) :=
      List.forall₂_map_left_iff.mpr (List.forall₂_map_right_iff.mpr (forms.imp fun _ _ form => form.2))
    refine ⟨⟨.map fs, site.position c d⟩, ?_, .map _ keys values⟩
    rw [Tree.eval, here]
    show (parts.mapM Part.toEntry).bind _ = _
    rw [entries]
    rfl
  exact reads_alone rfl front (hb.head (by decide)) map meaning hd

/-- The literal of a datum is an expression that means it, wherever an expression may end after it. -/
theorem reads_literal {v : Datum} (hp : v.isProper) (h : c.Reaches d v.literal) (hd : d.Closes)
    (hv : 3 * v.height + 3 ≤ depth) : ∃ t, (body.matcher depth expr).Reads c d [t] ∧ t.Writes v := by
  induction v generalizing c d depth with
  | null =>
    obtain ⟨k, rfl⟩ := Nat.exists_eq_add_of_le' hv
    exact reads_null h hd
  | bool b =>
    obtain ⟨k, rfl⟩ := Nat.exists_eq_add_of_le' hv
    exact reads_bool h hd
  | int n =>
    obtain ⟨k, rfl⟩ := Nat.exists_eq_add_of_le' hv
    exact reads_int (by simpa [Datum.isProper] using hp) h hd
  | str s =>
    obtain ⟨k, rfl⟩ := Nat.exists_eq_add_of_le' hv
    exact reads_quoted h hd
  | list ds ih =>
    have deep : 1 ≤ (Datum.list ds).height := Nat.succ_pos _
    obtain ⟨k, rfl⟩ : ∃ k, depth = k + 3 := ⟨depth - 3, by omega⟩
    refine reads_list ⟨fun v hv' c d hr hc => ?_, fun v _ => starts_literal v⟩ h hd
    have lower := Datum.height_lt_of_mem hv'
    exact ih v hv' (Datum.isProper_of_mem hp v hv') hr hc (by omega)
  | map es ih =>
    have deep : 1 ≤ (Datum.map es).height := Nat.succ_pos _
    obtain ⟨k, rfl⟩ : ∃ k, depth = k + 6 := ⟨depth - 6, by omega⟩
    refine reads_map ⟨fun f hf c d hr hc => ?_, fun f _ => ⟨_, _, rfl, by decide⟩⟩ h hd
    refine reads_mapEntry (fun hr hc => ?_) hr hc
    have lower := Datum.height_lt_of_entry hf
    exact ih f hf ((Datum.isProper_of_entry hp).2 f hf) hr hc (by omega)

end Rule

end Stencil
