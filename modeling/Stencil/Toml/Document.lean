import Stencil.Toml.Grammar
import Stencil.Toml.Scalar

/-!
# TOML documents

From the text of a document to its entries. A text is refused as a whole.
-/

namespace Stencil.Toml

/-- What a part of a document is. -/
inductive Part where
  | key (k : String)
  | value (v : Toml)
  | entry (path : List String) (v : Toml)
  | header (repeated : Bool) (path : List String)
  | document (d : Dict Toml)

def Part.keys (parts : List Part) : List String :=
  parts.filterMap fun
    | .key k => some k
    | _ => none

def Part.values (parts : List Part) : List Toml :=
  parts.filterMap fun
    | .value v => some v
    | _ => none

def Part.pairs (path : List String) : List Part → List (List String × Toml)
  | [] => []
  | .key k :: parts => pairs (path ++ [k]) parts
  | .value v :: parts => (path, v) :: pairs [] parts
  | _ :: parts => pairs path parts

def Part.sections : List Part → List (List String × Toml) × List Section
  | [] => ([], [])
  | .entry path v :: parts =>
    let (es, ss) := sections parts
    ((path, v) :: es, ss)
  | .header repeated path :: parts =>
    let (es, ss) := sections parts
    ([], ⟨repeated, path, es⟩ :: ss)
  | _ :: parts => sections parts

def assemble (parts : List Part) : Option (Dict Toml) := do
  let (es, ss) := Part.sections parts
  ss.foldlM (fun d s => addSection s d) (← defineAll .header ∅ es)

private def string (cs : List Char) : Part := .value (.str (String.ofList cs))

/-- What a rule means that matched a text with the given parts. -/
def meaning (r : TomlRule) (text : List Char) (parts : List Part) : Option Part :=
  match r with
  | .document => (assemble parts).map .document
  | .header => some (.header false (Part.keys parts))
  | .repeatedHeader => some (.header true (Part.keys parts))
  | .entry => (Part.pairs [] parts).head?.map fun e => .entry e.1 e.2
  | .bareKey => some (.key (String.ofList text))
  | .basicKey => (unescape false (inner 1 text)).map fun cs => .key (String.ofList cs)
  | .literalKey => some (.key (String.ofList (inner 1 text)))
  | .basicString => (unescape false (inner 1 text)).map string
  | .basicBlock => (unescape false (afterLineEnd (inner 3 text))).map string
  | .literalString => some (string (inner 1 text))
  | .literalBlock => some (string (plainLines (afterLineEnd (inner 3 text))))
  | .boolean => some (.value (.bool (text == "true".toList)))
  | .array => some (.value (.arr (Part.values parts)))
  | .inlineTable =>
    (defineAll .inline ∅ (Part.pairs [] parts)).map fun d => .value (.table .inline d)
  | .moment => if isMoment text then some (.value (.moment (String.ofList text))) else none
  | .float => (float? text).map fun x => .value (.float x)
  | .integer => (integer? text).map fun n => .value (.int n)

/-- Values can be nested this deep. -/
def maxDepth : Nat := 80

/-- The entries of a document, or none if the text is no document. -/
def ofText? (text : String) : Option (Dict Toml) :=
  let found :=
    match (TomlRule.body.matcher (maxDepth + 3) .document (.start text.toList) .none).1 with
    | some (_, [t]) =>
      t.eval fun r c d parts =>
        match meaning r (c.upTo d) parts with
        | some p => .ok p
        | none => .error ()
    | _ => .error ()
  match found with
  | .ok (.document d) => some d
  | _ => none

end Stencil.Toml
