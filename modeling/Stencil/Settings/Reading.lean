import Stencil.Settings
import Stencil.Toml.Document

/-!
# Reading a configuration

A configuration is a TOML document in which every setting may be left out. Entries that are no settings are
passed over; a setting of another kind than it should be makes the document unreadable.
-/

namespace Stencil

namespace Toml

def asStr? : Toml → Option String
  | str s => some s
  | _ => none

def asBool? : Toml → Option Bool
  | bool b => some b
  | _ => none

def asNat? : Toml → Option Nat
  | int n => if 0 ≤ n.toInt then some n.toInt.toNat else none
  | _ => none

def asItems? : Toml → Option (List Toml)
  | arr items => some items
  | tables ts => some (ts.map fun t => table .header t)
  | _ => none

def asEntries? : Toml → Option (Dict Toml)
  | table _ d => some d
  | _ => none

def asTexts? (v : Toml) : Option (List String) := v.asItems?.bind fun items => items.mapM asStr?

def isEmptyValue (v : Toml) : Bool :=
  (v.asItems?.map List.isEmpty).getD false || (v.asEntries?.map Dict.isEmpty).getD false

/-- A policy: its name, or a table with its name for the only key and nothing under it. -/
def asGobbling? (v : Toml) : Option GobblingPolicy :=
  match v with
  | str name => GobblingPolicy.ofName? name
  | v =>
    match v.asEntries?.map Dict.entries with
    | some [(name, w)] => if w.isEmptyValue then GobblingPolicy.ofName? name else none
    | _ => none

/-- The value under a key, or another where the key is left out. -/
def setting {α : Type} (d : Dict Toml) (key : String) (read : Toml → Option α) (otherwise : α) :
    Option α :=
  match d.get? key with
  | none => some otherwise
  | some v => read v

def asTemplates? (v : Toml) : Option (List (String × String)) := do
  let entries ← (← v.asEntries?).entries.mapM fun e => return (e.1, ← e.2.asStr?)
  return entries.mergeSort fun a b => decide (a.1 ≤ b.1)

def loaderOfKind? (kind : String)
    (setting : {α : Type} → String → (Toml → Option α) → α → Option α) : Option LoaderSetting :=
  match kind with
  | "file" => (setting "paths" asTexts? ["."]).map .files
  | "string" => (setting "templates" asTemplates? []).map .strings
  | _ => none

/-- A loader: a table with its kind, or an array of its kind and its setting. -/
def asLoader? (v : Toml) : Option LoaderSetting :=
  match v with
  | arr (kind :: rest) => do
    let kind ← kind.asStr?
    loaderOfKind? kind fun _ read otherwise =>
      match rest with
      | [] => some otherwise
      | [v] => read v
      | _ => none
  | v => do
    let d ← v.asEntries?
    let kind ← (← d.get? "kind").asStr?
    loaderOfKind? kind (setting d)

end Toml

namespace Settings

def ofToml? (d : Dict Toml) : Option Settings := do
  let c := standard
  return {
    gobbling := ← Toml.setting d "space_gobbling" Toml.asGobbling? c.gobbling
    strictReferences := ← Toml.setting d "strict_references" Toml.asBool? c.strictReferences
    macroMaxDepth := ← Toml.setting d "macro_max_depth" Toml.asNat? c.macroMaxDepth
    parseMaxDepth := ← Toml.setting d "parse_max_depth" Toml.asNat? c.parseMaxDepth
    foreachMaxLoops :=
      ← Toml.setting d "foreach_max_loops" (fun v => v.asNat?.map some) c.foreachMaxLoops
    rangeMaxSize := ← Toml.setting d "range_max_size" Toml.asNat? c.rangeMaxSize
    modificationCheckInterval :=
      ← Toml.setting d "modification_check_interval" Toml.asNat? c.modificationCheckInterval
    macroLibraries := ← Toml.setting d "macro_libraries" Toml.asTexts? c.macroLibraries
    loaders :=
      ← Toml.setting d "loaders" (fun v => v.asItems?.bind (·.mapM Toml.asLoader?)) c.loaders
    internNames := ← Toml.setting d "intern_names" Toml.asBool? c.internNames
    inputEncoding := ← Toml.setting d "input_encoding" Toml.asStr? c.inputEncoding }

def ofText (text : String) : Except TemplateError Settings := do
  match (Toml.ofText? text).bind ofToml? with
  | none => .error (.of (.config .notReadable))
  | some c =>
    c.validate
    return c

/-- Without settings the standard ones hold. -/
theorem ofToml?_empty : ofToml? ∅ = some standard := rfl

end Settings

end Stencil
