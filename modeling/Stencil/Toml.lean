import Stencil.Dict
import Stencil.Decimal.Reading

/-!
# TOML values

The values of TOML documents and how tables grow. A table is written once: under a header, in braces, or
by keys with dots. Main statement: what a table defines stays as it is.
-/

namespace Stencil

/-- How a table comes to be. -/
inductive TableOrigin where
  /-- Under a header of its own, or as the document itself. -/
  | header
  /-- On the way to the table of a longer header. -/
  | passage
  /-- By a key with dots. -/
  | dotted
  /-- In braces. -/
  | inline
  deriving Repr, DecidableEq

/-- A TOML value. -/
inductive Toml where
  | str (s : String)
  | int (n : Int64)
  | float (x : Float)
  | bool (b : Bool)
  /-- A date, a time or both. -/
  | moment (text : String)
  | arr (items : List Toml)
  | table (origin : TableOrigin) (entries : Dict Toml)
  /-- Tables under headers in double brackets. -/
  | tables (items : List (Dict Toml))

namespace Toml

abbrev Change := TableOrigin → Dict Toml → Option (Dict Toml)

/-- Changes the table that a path leads to. Tables that are not there come to be as `origin` says. A key with
dots only leads through tables that no header and no braces define; a path through an array of tables
leads through its last one. -/
def changeAt (origin : TableOrigin) (f : Change) : List String → Change
  | [], o, d => f o d
  | k :: ks, _, d =>
    match d.get? k with
    | none => (changeAt origin f ks origin ∅).map fun t => d.insert k (.table origin t)
    | some (.table o t) =>
      if o = .inline ∨ (origin = .dotted ∧ o = .header) then none
      else (changeAt origin f ks o t).map fun t => d.insert k (.table o t)
    | some (.tables ts) =>
      match ts.getLast? with
      | none => none
      | some t =>
        (changeAt origin f ks .header t).map fun t => d.insert k (.tables (ts.dropLast ++ [t]))
    | some _ => none

def addEntry (k : String) (v : Toml) (d : Dict Toml) : Option (Dict Toml) :=
  if d.contains k then none else some (d.insert k v)

/-- Adds an entry under a key with dots, whose last part is `k`. Only the entry's own dots lead into a
table that dots define. -/
def define (path : List String) (k : String) (v : Toml) : Change :=
  changeAt .dotted (fun o d => if (o == .dotted) == path.isEmpty then none else addEntry k v d) path

def defineAll (o : TableOrigin) (d : Dict Toml) : List (List String × Toml) → Option (Dict Toml)
  | [] => some d
  | (path, v) :: es =>
    match path.getLast? with
    | none => none
    | some k => (define path.dropLast k v o d).bind fun d => defineAll o d es

def addTable (k : String) (es : List (List String × Toml)) (d : Dict Toml) : Option (Dict Toml) :=
  let known : Option (Dict Toml) :=
    match d.get? k with
    | none => some ∅
    | some (.table .passage t) => some t
    | some _ => none
  known.bind fun t => (defineAll .header t es).map fun t => d.insert k (.table .header t)

def addToTables (k : String) (es : List (List String × Toml)) (d : Dict Toml) :
    Option (Dict Toml) :=
  let known : Option (List (Dict Toml)) :=
    match d.get? k with
    | none => some []
    | some (.tables ts) => some ts
    | some _ => none
  known.bind fun ts => (defineAll .header ∅ es).map fun t => d.insert k (.tables (ts ++ [t]))

/-- The entries under one header. -/
structure Section where
  /-- Whether the header stands in double brackets. -/
  repeated : Bool
  path : List String
  entries : List (List String × Toml)

def addSection (s : Section) (d : Dict Toml) : Option (Dict Toml) :=
  match s.path.getLast? with
  | none => none
  | some k =>
    let add := if s.repeated then addToTables k s.entries else addTable k s.entries
    changeAt .passage (fun _ d => add d) s.path.dropLast .header d

/-- A new entry leaves the others as they are. -/
theorem get?_addEntry {k j : String} {v : Toml} {d e : Dict Toml} (h : addEntry k v d = some e) :
    d.get? k = none ∧ e.get? j = if j = k then some v else d.get? j := by
  unfold addEntry at h
  split at h
  · cases h
  · next hk =>
    obtain rfl := Option.some.inj h
    refine ⟨?_, Dict.get?_insert d k j v⟩
    simpa [Dict.contains] using hk

end Toml

end Stencil
