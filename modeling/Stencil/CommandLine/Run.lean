import Stencil.CommandLine
import Stencil.Settings.Reading
import Stencil.Engine

/-!
# Running the program

What an invocation does with a tree of files. Errors end with exit code 1, a misused command line with 2.
-/

namespace Stencil

/-- How a run of the program ends: its exit code, its output, and the error that it reports. -/
structure Report where
  code : Nat
  output : String
  error : Option TemplateError

namespace Invocation

def configOf (t : FileTree) : Option String → Except TemplateError Settings
  | none => .ok .standard
  | some path => do
    match ← t.text? path |>.mapError fun _ => .of (.config (.file path "not text")) with
    | none => .error (.of (.config (.file path "not found")))
    | some (text, _) => Settings.ofText text

/-- The host: the files, read through the given roots first. -/
def host (i : Invocation) (t : FileTree) : Host where
  loaders := if i.roots.isEmpty then [] else [(FileLoader.mk i.roots).loader t]
  files := t
  types := fun _ => none
  clock := fun _ => 0

def directories (i : Invocation) (t : FileTree) : List String :=
  let configured :=
    match configOf t i.config with
    | .ok c => c.loaders.flatMap fun
      | .files paths => paths
      | .strings _ => []
    | .error _ => []
  "." :: i.roots ++ configured

def contextOf (t : FileTree) : Option String → Except TemplateError (Context × Store)
  | none => .ok (.empty, .empty)
  | some path => do
    match ← t.text? path |>.mapError fun _ => .of (.io (.reading path "not text")) with
    | none => .error (.of (.io (.reading path "not found")))
    | some (text, _) =>
      match Json.ofText? text with
      | none => .error (.of (.config (.contextFile path)))
      | some j => Context.ofJson .empty j

def engine (i : Invocation) (t : FileTree) : Except TemplateError Engine := do
  let c ← configOf t i.config
  let strict :=
    match i.command with
    | .render _ _ strict => strict
    | .check _ => false
  Engine.build { c with strictReferences := c.strictReferences || strict } (i.host t)

def failed (e : TemplateError) : Report := ⟨1, "", some e⟩

/-- Renders a template to the output; what was written before a failure stays. -/
def render (i : Invocation) (t : FileTree) (e : Engine) (name : String) (context : Option String) :
    Report :=
  match contextOf t context with
  | .error f => failed f
  | .ok (c, σ) =>
    let r := e.renderNamed (i.host t) name σ c .empty
    match r.halt with
    | none => ⟨0, r.sink.written, none⟩
    | some (.failed f) => ⟨1, r.sink.written, some f⟩
    | some .exhausted => ⟨1, r.sink.written, none⟩

/-- Compiles a template and tells how many macros it defines. -/
def check (i : Invocation) (t : FileTree) (e : Engine) (name : String) : Report :=
  match (e.template (i.host t) name).1 with
  | .error f => failed f
  | .ok template =>
    let count := template.macros.size
    let plural := if count = 1 then "" else "s"
    ⟨0, s!"{template.name}: ok ({count} macro{plural})\n", none⟩

def run (i : Invocation) (t : FileTree) : Report :=
  match i.engine t with
  | .error f => failed f
  | .ok e =>
    match i.command with
    | .render name context _ => i.render t e name context
    | .check name => i.check t e name

end Invocation

def Refused.report : Refused → Report
  | version => ⟨0, "vellum 0.1.0\n", none⟩
  | misuse => ⟨2, "", none⟩

def CommandLine.run (args : List String) (t : FileTree) : Report :=
  match parse args with
  | .ok i => i.run t
  | .error r => r.report

/-- Whatever the files are, a misused command line ends with exit code 2. -/
theorem CommandLine.code_of_misuse {args : List String} (h : parse args = .error .misuse)
    (t : FileTree) : (run args t).code = 2 := by
  simp [run, h, Refused.report]

end Stencil
