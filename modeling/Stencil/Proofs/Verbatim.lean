import Stencil.Engine
import Stencil.Proofs.Reading
import Stencil.Proofs.Reading.Plain

/-!
# Texts that render to themselves

A reference without a value and a call of an unknown macro stand for their own text. Where a template is made
of these and of text, a render of it writes the template. Main statement: `Engine.renders_own_text`.
-/

namespace Stencil

/-- Whether a node stands for its own text where no variable has a value: a text, a reference that is not
quiet, or a call of a macro that neither table has. -/
def Node.isVerbatim (macros : Macros) (library : MacroLibrary) (n : Node) : Bool :=
  match n.kind with
  | .text _ => true
  | .reference r => !r.quiet
  | .macroCall c => (macros.get? c.name).isNone && (library.get? c.name).isNone
  | _ => false

/-- The text that such a node keeps. -/
def Node.verbatim (n : Node) : String :=
  match n.kind with
  | .text s => s
  | .reference r => r.literal
  | .macroCall c => c.literal
  | _ => ""

def Block.verbatim (b : Block) : String := String.join (b.map Node.verbatim)

variable {macros : Macros} {library : MacroLibrary}

/-! ### The text of a block -/

lemma Node.spells_verbatim {cs : List Char} {n : Node} (hv : n.isVerbatim macros library)
    (hf : Node.Faithful cs false n) : n.position.span.Spells cs n.verbatim.toList := by
  cases hf with
  | intro literal _ _ _ =>
    have kept := literal rfl
    obtain ⟨kind, p⟩ := n
    cases kind with
    | text s => exact kept
    | reference r => exact kept
    | macroCall c => exact kept
    | _ => cases hv

/-- The nodes of a row spell what it stands for, behind what is spelled before. -/
lemma Block.Tiles.spells {cs : List Char} {lo hi : Nat} {b : Block} (ht : b.Tiles lo hi)
    (hv : ∀ n ∈ b, n.isVerbatim macros library) (hf : ∀ n ∈ b, Node.Faithful cs false n) {w : String}
    (hw : Span.Spells cs ⟨0, lo⟩ w.toList) : Span.Spells cs ⟨0, hi⟩ (w ++ b.verbatim).toList := by
  induction ht generalizing w with
  | nil =>
    rw [Block.verbatim, List.map_nil, String.join]
    simpa using hw
  | @cons n b stop _ _ ih =>
    have here := Node.spells_verbatim (hv n (List.mem_cons_self ..)) (hf n (List.mem_cons_self ..))
    have next : Span.Spells cs ⟨0, n.position.span.stop⟩ (w ++ n.verbatim).toList := by
      rw [String.toList_append]
      exact hw.append here
    have rest := ih (fun m hm => hv m (List.mem_cons_of_mem _ hm))
      (fun m hm => hf m (List.mem_cons_of_mem _ hm)) next
    rwa [Block.verbatim, List.map_cons, String.join_cons, ← String.append_assoc]

/-- What is spelled from the first byte of a text to the last is the text. -/
lemma Span.Spells.eq_whole {cs w : List Char} (h : Span.Spells cs ⟨0, utf8Length cs⟩ w) : w = cs := by
  have all := takeBytes_append cs []
  rw [List.append_nil] at all
  have start : dropBytes 0 cs = cs := dropBytes_append [] cs
  rw [← h.slice_eq, slice, start]
  exact all

/-- A block that fills a text stands for the text. -/
theorem Block.Fills.verbatim_eq {text : String} {b : Block}
    (h : b.Fills text.toList false 0 text.utf8ByteSize) (hv : ∀ n ∈ b, n.isVerbatim macros library) :
    b.verbatim = text := by
  have nothing : Span.Spells text.toList ⟨0, 0⟩ "".toList := ⟨[], text.toList, rfl, rfl⟩
  have all := h.tiles.spells hv h.nodes nothing
  rw [String.empty_append, ← utf8Length_toList] at all
  exact String.toList_inj.mp all.eq_whole

/-! ### Rendering -/

/-- What a render finds where no variable has a value, references are not strict, and the macros are those of
two tables at most. -/
structure Unbound (macros : Macros) (library : MacroLibrary) (env : RenderEnv) (s : RenderState) : Prop where
  lenient : env.settings.strictReferences = false
  unknown : ∀ {name}, macros.get? name = none → library.get? name = none → env.macro? name = none
  missing : ∀ name, s.get? name = none

namespace Interpreter

variable (self : Interpreter) {env : RenderEnv} {s : RenderState} {w : String}

lemma emit_text (hs : s.sink = .text w) (t : String) :
    Render.emit t env s = .ok () { s with sink := .text (w ++ t) } := by
  rw [Render.emit_apply, hs]
  rfl

/-- A text is written as it is. -/
lemma node_text (hs : s.sink = .text w) (t : String) (p : Position) :
    self.node ⟨.text t, p⟩ env s = .ok .next { s with sink := .text (w ++ t) } := by
  show doing (Render.emit t) env s = _
  rw [doing, Render.bind_apply, emit_text hs]
  rfl

/-- A node that stands for its own text writes it, and evaluates nothing. -/
lemma node_verbatim {n : Node} (hu : Unbound macros library env s) (hs : s.sink = .text w)
    (hv : n.isVerbatim macros library) :
    self.node n env s = .ok .next { s with sink := .text (w ++ n.verbatim) } := by
  obtain ⟨kind, p⟩ := n
  have lenient : Render.strict env s = .ok false s := by
    show EStateM.Result.ok env.settings.strictReferences s = _
    rw [hu.lenient]
  cases kind with
  | text t => exact self.node_text hs t p
  | reference r =>
    have loud : r.quiet = false := by simpa [Node.isVerbatim] using hv
    have missing : Render.variableOf r false env s = .ok none s := by
      rw [Render.variableOf, Render.get_bind_apply, hu.missing]
      rfl
    have null : Render.reference self.value r false env s = .ok .null s := by
      rw [Render.reference, Render.walk, Render.bind_apply, lenient]
      dsimp only
      rw [Bool.false_and, Render.bind_apply, missing]
      rfl
    have writes : self.writeReference r env s = Render.emit r.literal env s := by
      rw [writeReference, Render.bind_apply, null]
      simp only [Value.isNull, loud, Bool.not_true, Bool.not_false, Bool.false_eq_true, if_false, if_true]
    show doing (self.writeReference r) env s = _
    rw [doing, Render.bind_apply, writes, emit_text hs]
    rfl
  | macroCall c =>
    obtain ⟨own, shared⟩ : macros.get? c.name = none ∧ library.get? c.name = none := by
      simpa [Node.isVerbatim] using hv
    show self.macroCall c p env s = _
    rw [macroCall, Render.read_bind_apply, hu.unknown own shared]
    dsimp only
    rw [Render.bind_apply, lenient]
    simp only [Bool.false_eq_true, if_false]
    rw [Render.bind_apply, emit_text hs]
    rfl
  | _ => cases hv

/-- A block whose nodes write their texts, whatever was written before, writes these in order. -/
lemma block_writes {b : Block} (h : ∀ n ∈ b, ∀ w, self.node n env { s with sink := .text w } =
      .ok .next { s with sink := .text (w ++ n.verbatim) }) (w : String) :
    self.block b env { s with sink := .text w } = .ok .next { s with sink := .text (w ++ b.verbatim) } := by
  induction b generalizing w with
  | nil =>
    have same : w ++ Block.verbatim [] = w := String.append_empty
    rw [same]
    rfl
  | cons n b ih =>
    obtain ⟨here, later⟩ := List.forall_mem_cons.mp h
    rw [block, Render.bind_apply, here w]
    dsimp only
    rw [ih later, Block.verbatim, Block.verbatim, List.map_cons, String.join_cons, String.append_assoc]

/-- A block of nodes that stand for their own texts writes these in order. -/
lemma block_verbatim {b : Block} (hu : Unbound macros library env s) (hs : s.sink = .text w)
    (hv : ∀ n ∈ b, n.isVerbatim macros library) :
    self.block b env s = .ok .next { s with sink := .text (w ++ b.verbatim) } := by
  have writing (w : String) : Unbound macros library env { s with sink := .text w } :=
    ⟨hu.lenient, hu.unknown, hu.missing⟩
  have all := self.block_writes (fun n hn w => self.node_verbatim (writing w) rfl (hv n hn)) w
  have same : { s with sink := .text w } = s := by rw [← hs]
  rwa [same] at all

end Interpreter

/-! ### Compiling -/

lemma blockFindings_of_texts {b : Block} (hb : ∀ n ∈ b, n.isText) (enclosure : Enclosure) :
    blockFindings enclosure b = [] := by
  induction b with
  | nil => rfl
  | cons n b ih =>
    obtain ⟨here, later⟩ := List.forall_mem_cons.mp hb
    obtain ⟨kind, p⟩ := n
    cases kind with
    | text s => exact ih later
    | _ => cases here

/-- A text in which no construct starts compiles, and its nodes are texts. -/
lemma Template.compile_of_plain {s : Source} (h : IsPlain s.text.toList) (unit : CodeUnit) :
    ∃ t, compile unit s .none = .ok t ∧ ∀ n ∈ t.root, n.isText := by
  obtain ⟨b, parsed, texts⟩ := parse_of_plain h
  have clean := blockFindings_of_texts texts ⟨false, false⟩
  refine ⟨⟨s, b, Macros.ofDefs [], unit⟩, compile_eq_ok_iff.mpr ⟨parsed, ?_, ?_⟩, texts⟩
  · rw [clean]
    rfl
  · rw [clean]
    rfl

lemma Node.isVerbatim_of_isText {n : Node} (h : n.isText) : n.isVerbatim macros library := by
  obtain ⟨kind, p⟩ := n
  cases kind with
  | text s => rfl
  | _ => cases h

/-! ### Engines -/

namespace Engine

lemma unbound_start (e : Engine) (h : Host) (he : e.settings.strictReferences = false) (t : Template)
    (σ : Store) {c : Context} (hc : ∀ name, c.get? name = none) (sink : Sink) :
    Unbound t.macros e.library ((e.env h).opening t) (e.start σ c sink) := by
  refine ⟨he, fun own shared => ?_, hc⟩
  unfold RenderEnv.macro? RenderEnv.opening
  rw [List.findSome?_cons, own]
  exact shared

/-- A template of texts, loud references and calls of unknown macros renders to its own text where no variable
has a value. -/
lemma renderCompiled_verbatim (e : Engine) (h : Host) (he : e.settings.strictReferences = false)
    {unit : CodeUnit} {s : Source} {t : Template} (ht : Template.compile unit s .none = .ok t)
    (hv : ∀ n ∈ t.root, n.isVerbatim t.macros e.library) (σ : Store) {c : Context}
    (hc : ∀ name, c.get? name = none) (w : String) :
    e.renderCompiled h t σ c (.text w) = ⟨none, c, σ, .text (w ++ s.text), e⟩ := by
  obtain ⟨spans, parsed⟩ := parseTree_of_parse (Template.parse_of_compile ht)
  have text : t.root.verbatim = s.text := (fills_of_parseTree parsed).verbatim_eq hv
  have rendered := (Interpreter.ofDepth 9999).block_verbatim (e.unbound_start h he t σ hc (.text w)) rfl hv
  rw [text] at rendered
  have outermost :
      (Interpreter.ofDepth maxNesting).render t.root ((e.env h).opening t) (e.start σ c (.text w)) =
        .ok .next { e.start σ c (.text w) with sink := .text (w ++ s.text) } := rendered
  exact renderWithin_of_ok outermost

/-- Where no variable has a value and references are not strict, a template of nothing but texts, loud
references and calls of unknown macros renders, and writes its own text. So does every text in which no
construct starts: it compiles, to texts. -/
theorem renders_own_text (e : Engine) (h : Host) (he : e.settings.strictReferences = false) (unit : CodeUnit)
    (s : Source) (σ : Store) {c : Context} (hc : ∀ name, c.get? name = none) (w : String) :
    (∀ t, Template.compile unit s .none = .ok t → (∀ n ∈ t.root, n.isVerbatim t.macros e.library) →
      e.renderCompiled h t σ c (.text w) = ⟨none, c, σ, .text (w ++ s.text), e⟩) ∧
    (IsPlain s.text.toList → ∃ t, Template.compile unit s .none = .ok t ∧ (∀ n ∈ t.root, n.isText) ∧
      e.renderCompiled h t σ c (.text w) = ⟨none, c, σ, .text (w ++ s.text), e⟩) := by
  constructor
  · intro t ht hv
    exact e.renderCompiled_verbatim h he ht hv σ hc w
  · intro hp
    obtain ⟨t, ht, texts⟩ := Template.compile_of_plain hp unit
    have verbatim : ∀ n ∈ t.root, n.isVerbatim t.macros e.library := fun n hn =>
      Node.isVerbatim_of_isText (texts n hn)
    exact ⟨t, ht, texts, e.renderCompiled_verbatim h he ht verbatim σ hc w⟩

/-- Calls of unknown macros and references, among stray marks. -/
def unboundTemplate : Source := ⟨"unbound", "$ #m($y) $\x7bx.a(1)\x7d \\ #@q(1)#if($z)5#end#end"⟩

/-- Marks that start nothing. -/
def strayTemplate : Source := ⟨"stray", "$5 # 6 \\ $\x7bx #@m("⟩

theorem renders_own_text_of_strays :
    (∃ t, Template.compile .inline unboundTemplate .none = .ok t ∧
      (initial .standard).renderCompiled (.ofTemplates [] id) t .empty .empty (.text "> ") =
        ⟨none, .empty, .empty, .text ("> " ++ unboundTemplate.text), initial .standard⟩) ∧
    IsPlain strayTemplate.text.toList ∧
    ∃ t, Template.compile .inline strayTemplate .none = .ok t ∧
      (initial .standard).renderCompiled (.ofTemplates [] id) t .empty .empty (.text "> ") =
        ⟨none, .empty, .empty, .text ("> " ++ strayTemplate.text), initial .standard⟩ := by
  have compiles : (Template.compile .inline unboundTemplate .none).toOption.any
      (fun t => t.root.all (·.isVerbatim t.macros (initial .standard).library)) = true := by
    decide +kernel
  have plain : IsPlain strayTemplate.text.toList := by decide +kernel
  refine ⟨?_, plain, ?_⟩
  · cases ht : Template.compile .inline unboundTemplate .none with
    | ok t =>
      rw [ht] at compiles
      have renders := renders_own_text (initial .standard) (.ofTemplates [] id) rfl .inline unboundTemplate
        .empty Context.get?_empty "> "
      exact ⟨t, rfl, renders.1 t ht (List.all_eq_true.mp compiles)⟩
    | error e =>
      rw [ht] at compiles
      cases compiles
  · have renders := renders_own_text (initial .standard) (.ofTemplates [] id) rfl .inline strayTemplate .empty
      Context.get?_empty "> "
    obtain ⟨t, ht, -, rendered⟩ := renders.2 plain
    exact ⟨t, ht, rendered⟩

end Engine

end Stencil
