import Stencil.Loader
import Stencil.Template

/-!
# The template cache

Compiled templates by name, each with the loader it came from and the stamp under which it was read. An
entry that was checked long enough ago is checked again: an unchanged one stays, a changed one is compiled
anew, and for one that is gone all loaders are searched. What fails to compile does not stay.
-/

namespace Stencil

/-- A compiled template in the cache. -/
structure CacheEntry where
  template : Template
  stamp : Option Stamp
  /-- The place of the loader that it came from. -/
  loader : Nat
  /-- When the entry was made or last checked. -/
  checked : Nat

/-- Compiled templates by name. -/
structure TemplateCache where
  entries : Dict CacheEntry
  /-- How long an entry goes unchecked, in the units of the clock; zero for ever. -/
  interval : Nat
  gobbling : GobblingPolicy
  /-- The number of compilations so far. -/
  compiled : Nat

/-- A question put to a loader, which is given by its place. -/
inductive Consultation where
  | load (loader : Nat) (name : String)
  | stamp (loader : Nat) (name : String)
  deriving Repr, DecidableEq

/-- An answer with the cache afterwards and the questions put to the loaders meanwhile, in order. -/
structure Consulted (α : Type) where
  answer : Except TemplateError α
  cache : TemplateCache
  questions : List Consultation

namespace TemplateCache

def empty (interval : Nat) (gobbling : GobblingPolicy) : TemplateCache := ⟨∅, interval, gobbling, 0⟩

def size (c : TemplateCache) : Nat := c.entries.size

def contains (c : TemplateCache) (name : String) : Bool := c.entries.contains name

def evict (c : TemplateCache) (name : String) : TemplateCache :=
  { c with entries := c.entries.erase name }

def clear (c : TemplateCache) : TemplateCache := { c with entries := ∅ }

def store (c : TemplateCache) (name : String) (e : CacheEntry) : TemplateCache :=
  { c with entries := c.entries.insert name e }

def isDue (c : TemplateCache) (now : Nat) (e : CacheEntry) : Bool :=
  c.interval != 0 && c.interval ≤ now - e.checked

/-- Compiles a name from the loader at a place, if that has it. -/
def compileBy (c : TemplateCache) (now : Nat) (name : String) (place : Nat) (l : Loader) :
    Consulted (Option CacheEntry) :=
  let questions := [.load place name]
  match l.load name with
  | .error e => ⟨.error e, c, questions⟩
  | .ok none => ⟨.ok none, c, questions⟩
  | .ok (some r) =>
    let next := { c with compiled := c.compiled + 1 }
    match Template.compile (.loaded c.compiled) ⟨name, r.text⟩ c.gobbling with
    | .error e => ⟨.error e, next, questions⟩
    | .ok t => ⟨.ok (some ⟨t, r.stamp, place, now⟩), next, questions⟩

/-- Compiles a name from the first loader that has it; the loaders given start at a place. -/
def loadFrom (c : TemplateCache) (now : Nat) (name : String) :
    Nat → List Loader → Consulted Template
  | _, [] => ⟨.error (.of (.noLoader name)), c, []⟩
  | place, l :: ls =>
    match c.compileBy now name place l with
    | ⟨.error e, c, qs⟩ => ⟨.error e, c, qs⟩
    | ⟨.ok (some e), c, qs⟩ => ⟨.ok e.template, c.store name e, qs⟩
    | ⟨.ok none, c, qs⟩ =>
      let r := loadFrom c now name (place + 1) ls
      { r with questions := qs ++ r.questions }

def recheck (c : TemplateCache) (loaders : List Loader) (now : Nat) (name : String)
    (e : CacheEntry) : Consulted Template :=
  let asked := [.stamp e.loader name]
  let search (c : TemplateCache) (asked : List Consultation) : Consulted Template :=
    let r := (c.evict name).loadFrom now name 0 loaders
    { r with questions := asked ++ r.questions }
  match loaders[e.loader]? with
  | none => search c []
  | some l =>
    match l.stamp? name with
    | none => search c asked
    | some stamp =>
      if some stamp = e.stamp then
        ⟨.ok e.template, c.store name { e with checked := now }, asked⟩
      else
        match c.compileBy now name e.loader l with
        | ⟨.ok (some fresh), c, qs⟩ => ⟨.ok fresh.template, c.store name fresh, asked ++ qs⟩
        | ⟨.ok none, c, qs⟩ => search c (asked ++ qs)
        | ⟨.error err, c, qs⟩ => ⟨.error err, c.evict name, asked ++ qs⟩

/-- The compiled template of a name, from the cache where that has it and need not check it. -/
def get (c : TemplateCache) (loaders : List Loader) (now : Nat) (name : String) :
    Consulted Template :=
  match c.entries.get? name with
  | none => c.loadFrom now name 0 loaders
  | some e =>
    if c.isDue now e then c.recheck loaders now name e else ⟨.ok e.template, c, []⟩

/-- The text of a name from the first loader that has it, without compiling or keeping it. -/
def readText (c : TemplateCache) (name : String) : Nat → List Loader → Consulted String
  | _, [] => ⟨.error (.of (.noLoader name)), c, []⟩
  | place, l :: ls =>
    match l.load name with
    | .error e => ⟨.error e, c, [.load place name]⟩
    | .ok (some r) => ⟨.ok r.text, c, [.load place name]⟩
    | .ok none =>
      let r := readText c name (place + 1) ls
      { r with questions := .load place name :: r.questions }

/-- An entry that need not be checked is the answer, and no loader is asked. -/
theorem get_of_not_due {c : TemplateCache} {loaders : List Loader} {now : Nat} {name : String}
    {e : CacheEntry} (h : c.entries.get? name = some e) (hd : c.isDue now e = false) :
    c.get loaders now name = ⟨.ok e.template, c, []⟩ := by
  simp [get, h, hd]

/-- Without an interval no entry has to be checked. -/
theorem isDue_of_interval_zero {c : TemplateCache} (h : c.interval = 0) (now : Nat)
    (e : CacheEntry) : c.isDue now e = false := by
  simp [isDue, h]

end TemplateCache

end Stencil
