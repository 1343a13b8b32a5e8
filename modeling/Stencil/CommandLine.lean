/-!
# The command line

What the program is asked to do: to render a template or to check that one compiles. Options of the engine
stand before or after the command.
-/

namespace Stencil

/-- What to do. -/
inductive Command where
  | render (template : String) (context : Option String) (strict : Bool)
  | check (template : String)
  deriving Repr, DecidableEq

/-- A command with the options of the engine. -/
structure Invocation where
  /-- The directories to look for templates in, in order. -/
  roots : List String
  config : Option String
  command : Command
  deriving Repr, DecidableEq

/-- Why a command line is not carried out. -/
inductive Refused where
  /-- It asks for the version. -/
  | version
  | misuse
  deriving Repr, DecidableEq

namespace CommandLine

/-- The options of the engine on one side of the command. -/
structure EngineOptions where
  verbose : Bool
  roots : List String
  config : Option String
  deriving Repr, DecidableEq

/-- The options and the arguments of a command. -/
structure CommandOptions where
  engine : EngineOptions
  context : Option String
  strict : Bool
  template : Option String
  deriving Repr, DecidableEq

/-- One word of a command line. -/
inductive Word where
  /-- A long option, with the value after its equals sign. -/
  | long (name : String) (value : Option String)
  /-- Short options in one word. -/
  | short (letters : List Char)
  /-- Two hyphens: no options follow. -/
  | fence
  | plain (text : String)
  deriving Repr, DecidableEq

def Word.of (text : String) : Word :=
  match text.toList with
  | ['-', '-'] => fence
  | '-' :: '-' :: cs =>
    match cs.dropWhile (· != '=') with
    | _ :: value => long (String.ofList (cs.takeWhile (· != '='))) (some (String.ofList value))
    | [] => long (String.ofList cs) none
  | '-' :: c :: cs => short (c :: cs)
  | _ => plain text

/-- The value of an option: what is behind its equals sign, or else the next word, unless that looks like an
option. -/
def optionValue (value : Option String) (rest : List String) :
    Except Refused (String × List String) :=
  match value, rest with
  | some v, rest => .ok (v, rest)
  | none, v :: rest =>
    match Word.of v with
    | .plain v => .ok (v, rest)
    | _ => .error .misuse
  | none, [] => .error .misuse

/-- The value of an option that names a file or a directory: it is not empty. -/
def pathValue (value : Option String) (rest : List String) :
    Except Refused (String × List String) := do
  let (path, rest) ← optionValue value rest
  if path.isEmpty then .error .misuse else .ok (path, rest)

/-- A switch that is turned on, once. -/
def switch (on : Bool) (value : Option String) : Except Refused Bool :=
  if on || value.isSome then .error .misuse else .ok true

namespace EngineOptions

def none : EngineOptions := ⟨false, [], .none⟩

/-- Reads a long option; answers the options and what follows. -/
def long (o : EngineOptions) (name : String) (value : Option String) (rest : List String) :
    Except Refused (EngineOptions × List String) := do
  match name with
  | "verbose" => return ({ o with verbose := ← switch o.verbose value }, rest)
  | "root" =>
    let (path, rest) ← pathValue value rest
    return ({ o with roots := o.roots ++ [path] }, rest)
  | "config" =>
    if o.config.isSome then throw .misuse
    let (path, rest) ← pathValue value rest
    return ({ o with config := path }, rest)
  | _ => throw .misuse

/-- Reads short options. Where `atTop` holds, one of them asks for the version. -/
def short (o : EngineOptions) (atTop : Bool) : List Char → Except Refused EngineOptions
  | [] => return o
  | 'v' :: cs => do
    let o := { o with verbose := ← switch o.verbose .none }
    o.short atTop cs
  | 'V' :: _ => throw (if atTop then .version else .misuse)
  | _ => throw .misuse

/-- The options on both sides of a command. Of options that take a value, those behind the command count,
where there are any. -/
def merge (before after : EngineOptions) : EngineOptions where
  verbose := before.verbose || after.verbose
  roots := if after.roots.isEmpty then before.roots else after.roots
  config := after.config <|> before.config

end EngineOptions

/-- Takes a template's name, once. -/
def CommandOptions.takeTemplate (o : CommandOptions) (text : String) : Except Refused CommandOptions :=
  if o.template.isSome then .error .misuse else .ok { o with template := some text }

/-- Reads the options and arguments of a command; every word is read once, so their number bounds the
rounds. -/
def commandOptions (rendering : Bool) (o : CommandOptions) :
    Nat → List String → Except Refused CommandOptions
  | _, [] => return o
  | 0, _ => throw .misuse
  | bound + 1, text :: rest => do
    match Word.of text with
    | .fence => rest.foldlM CommandOptions.takeTemplate o
    | .plain text => commandOptions rendering (← o.takeTemplate text) bound rest
    | .short letters =>
      commandOptions rendering { o with engine := ← EngineOptions.short o.engine false letters } bound rest
    | .long name value =>
      if rendering && name == "strict" then
        commandOptions rendering { o with strict := ← switch o.strict value } bound rest
      else if rendering && name == "context" then
        if o.context.isSome then throw .misuse
        let (path, rest) ← pathValue value rest
        commandOptions rendering { o with context := path } bound rest
      else
        let (engine, rest) ← EngineOptions.long o.engine name value rest
        commandOptions rendering { o with engine := engine } bound rest

/-- Reads a command and what follows it, after the options before it. -/
def command (before : EngineOptions) (name : String) (rest : List String) :
    Except Refused Invocation := do
  let rendering := name == "render"
  if !rendering && name != "check" then throw .misuse
  let o ← commandOptions rendering ⟨EngineOptions.none, none, false, none⟩ rest.length rest
  match o.template with
  | none => throw .misuse
  | some template =>
    let engine := EngineOptions.merge before o.engine
    return ⟨engine.roots, engine.config,
      if rendering then .render template o.context o.strict else .check template⟩

/-- Reads the words up to the command and then the command. -/
def invocation (o : EngineOptions) : Nat → List String → Except Refused Invocation
  | _, [] => throw .misuse
  | 0, _ => throw .misuse
  | bound + 1, text :: rest => do
    match Word.of text with
    | .fence => throw .misuse
    | .plain name => command o name rest
    | .short letters => invocation (← EngineOptions.short o true letters) bound rest
    | .long "version" none => throw .version
    | .long name value =>
      let (o, rest) ← EngineOptions.long o name value rest
      invocation o bound rest

def parse (args : List String) : Except Refused Invocation :=
  invocation EngineOptions.none args.length args

end CommandLine

end Stencil
