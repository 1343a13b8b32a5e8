import Stencil.Ast.Gobbling
import Stencil.Error

/-!
# Settings

What can be set about an engine. Every setting has a default, and some values cannot be honoured.
-/

namespace Stencil

/-- A source of templates to set up, tried in order. -/
inductive LoaderSetting where
  /-- Files below these directories. -/
  | files (paths : List String)
  /-- These texts by name. -/
  | strings (templates : List (String × String))
  deriving Repr, DecidableEq

/-- The settings of an engine. -/
structure Settings where
  gobbling : GobblingPolicy
  /-- Whether references without a value and members that do not exist are errors. -/
  strictReferences : Bool
  /-- How many macro calls may be open at once. -/
  macroMaxDepth : Nat
  /-- How many templates may be open at once, the outermost included. -/
  parseMaxDepth : Nat
  /-- How many rounds a loop has at most. -/
  foreachMaxLoops : Option Nat
  /-- How many items a range has at most that is made into a list. -/
  rangeMaxSize : Nat
  /-- Seconds between two checks whether a template has changed; zero for no checks. -/
  modificationCheckInterval : Nat
  /-- Templates whose macros every template can call; a later one counts before an earlier one. -/
  macroLibraries : List String
  loaders : List LoaderSetting
  /-- Whether the names of templates are shared in memory. -/
  internNames : Bool
  inputEncoding : String
  deriving Repr, DecidableEq

namespace Settings

def standard : Settings where
  gobbling := .lines
  strictReferences := false
  macroMaxDepth := 20
  parseMaxDepth := 10
  foreachMaxLoops := none
  rangeMaxSize := 1000000
  modificationCheckInterval := 2
  macroLibraries := []
  loaders := []
  internNames := true
  inputEncoding := "UTF-8"

/-- Whether the name means UTF-8, in any case and with either joint. -/
def isUtf8 (encoding : String) : Bool :=
  let plain := encoding.toList.map fun c => if c == '_' then '-' else c.toLower
  plain == "utf-8".toList || plain == "utf8".toList

def fault? (c : Settings) : Option SettingFault :=
  if !isUtf8 c.inputEncoding then some (.encoding c.inputEncoding)
  else if c.macroMaxDepth = 0 then some (.zeroLimit "macro_max_depth")
  else if c.parseMaxDepth = 0 then some (.zeroLimit "parse_max_depth")
  else if c.rangeMaxSize = 0 then some (.zeroLimit "range_max_size")
  else none

def validate (c : Settings) : Except TemplateError Unit :=
  match c.fault? with
  | some f => .error (.of (.config f))
  | none => .ok ()

/-- The default settings can be honoured. -/
theorem validate_standard : standard.validate = .ok () := by
  have : standard.fault? = none := by decide
  simp [validate, this]

end Settings

end Stencil
