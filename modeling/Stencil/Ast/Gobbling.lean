import Stencil.Ast
import Stencil.Grammar.Rule
import Stencil.Text.Blank

/-!
# Gobbling space

A directive that writes nothing leaves its line empty. A policy says which blanks around such directives
disappear: the rest of a line that holds nothing else, and also the extra indentation of the bodies of
block directives.
-/

namespace Stencil

/-- Which blanks around directives disappear. -/
inductive GobblingPolicy where
  | none
  /-- The blanks and the line end around a directive alone on its line. -/
  | lines
  /-- These, and the indentation that a block directive gives to its body. -/
  | structured
  deriving Repr, DecidableEq, Inhabited

def GobblingPolicy.name : GobblingPolicy → String
  | .none => "none"
  | .lines => "lines"
  | .structured => "structured"

def GobblingPolicy.ofName? : String → Option GobblingPolicy
  | "none" => some .none
  | "lines" => some .lines
  | "structured" => some .structured
  | _ => .none

/-- A policy is found by its name. -/
theorem GobblingPolicy.ofName?_name (p : GobblingPolicy) : ofName? p.name = some p := by
  cases p <;> rfl

/-- The spans of the directives that write nothing, and of the first and last parts of the block
directives. -/
structure MarkerSpans where
  lines : List Span
  regions : List (Span × Span)

namespace MarkerSpans

def empty : MarkerSpans := ⟨[], []⟩

def append (m n : MarkerSpans) : MarkerSpans := ⟨m.lines ++ n.lines, m.regions ++ n.regions⟩

end MarkerSpans

def Rule.isSilent : Rule → Bool
  | lineComment | blockComment | setDirective | stopDirective | breakDirective | ifHead | elseifHead
  | elseHead | foreachHead | macroHead | blockCallHead | endMarker => true
  | _ => false

def Rule.isRegion : Rule → Bool
  | ifDirective | foreachDirective | macroDirective | blockMacroCall => true
  | _ => false

def Tree.span {ρ : Type} (t : Tree ρ) : Span := ⟨t.start.offset, t.stop.offset⟩

mutual

def Tree.markerSpans : Tree Rule → MarkerSpans
  | .node r c d ts =>
    let lines := if r.isSilent then [⟨c.offset, d.offset⟩] else []
    let regions :=
      match r.isRegion, ts.head?, ts.getLast? with
      | true, some head, some last => [(head.span, last.span)]
      | _, _, _ => []
    MarkerSpans.append ⟨lines, regions⟩ (Tree.allMarkerSpans ts)

def Tree.allMarkerSpans : List (Tree Rule) → MarkerSpans
  | [] => .empty
  | t :: ts => MarkerSpans.append (Tree.markerSpans t) (Tree.allMarkerSpans ts)

end

namespace Gobbling

private def isIndent (c : Char) : Bool := c == ' ' || c == '\t'

private def isLineFeed (c : Char) : Bool := c == '\n'

/-- The offset at which the line of the byte at `offset` starts. -/
def startOfLine (cs : List Char) (offset : Nat) : Nat :=
  offset - utf8Length ((takeBytes offset cs).reverse.takeWhile (!isLineFeed ·))

/-- The number of blanks at the start of the line that starts at `offset`. -/
def indentation (cs : List Char) (offset : Nat) : Nat :=
  ((dropBytes offset cs).takeWhile isIndent).length

/-- Where the line of a directive starts and where the next one does, if the directive has the line to
itself. A directive that ends with a line feed owns the end of its line. -/
def loneLine? (cs : List Char) (s : Span) : Option (Nat × Nat) :=
  let indent := (takeBytes s.start cs).reverse.takeWhile (!isLineFeed ·)
  if !indent.all isIndent then none
  else if ((takeBytes s.stop cs).getLast?.map isLineFeed).getD false then
    some (s.start - indent.length, s.stop)
  else
    let tail := (dropBytes s.stop cs).takeWhile (!isLineFeed ·)
    if !tail.all fun c => isIndent c || c == '\r' then none
    else some (s.start - indent.length, min (s.stop + tail.length + 1) (utf8Length cs))

def splitLines : List Char → List (List Char)
  | [] => [[]]
  | c :: cs =>
    if isLineFeed c then [] :: splitLines cs
    else
      match splitLines cs with
      | line :: lines => (c :: line) :: lines
      | [] => [[c]]

/-- The lines with the offsets at which they start, the first at `offset`. -/
def numberLines (offset : Nat) : List (List Char) → List (Nat × List Char)
  | [] => []
  | line :: lines => (offset, line) :: numberLines (offset + utf8Length line + 1) lines

/-- The starts of the lines of a body, each with the indentation that its block directive adds. -/
def excesses (cs : List Char) : Span × Span → List (Nat × Nat)
  | (head, last) =>
    match loneLine? cs head with
    | none => []
    | some (start, next) =>
      let lines := numberLines next (splitLines (dropBytes next cs))
      let body := lines.takeWhile (·.1 < startOfLine cs last.start)
      match body.find? fun l => !(Text.trim l.2).isEmpty with
      | none => []
      | some l =>
        let extra := (l.2.takeWhile isIndent).length - (head.start - start)
        body.map fun l => (l.1, extra)

def removals (cs : List Char) (policy : GobblingPolicy) (m : MarkerSpans) : List Span :=
  let around := m.lines.flatMap fun s =>
    match loneLine? cs s with
    | some (start, next) => [⟨start, s.start⟩, ⟨s.stop, next⟩]
    | none => []
  match policy with
  | .none => []
  | .lines => around
  | .structured =>
    let extras := m.regions.flatMap (excesses cs)
    let starts := (extras.map (·.1)).eraseDups
    around ++ starts.map fun start =>
      let amount := (extras.filter (·.1 == start)).foldl (fun n e => n + e.2) 0
      ⟨start, start + min amount (indentation cs start)⟩

def isRemoved (spans : List Span) (offset : Nat) : Bool :=
  spans.any fun s => s.start ≤ offset && offset < s.stop

def keep (spans : List Span) (offset : Nat) : List Char → List Char
  | [] => []
  | c :: cs =>
    let rest := keep spans (offset + c.utf8Size) cs
    if isRemoved spans offset then rest else c :: rest

mutual

def stripNode (spans : List Span) : Node → Option Node
  | ⟨kind, p⟩ => (stripKind spans p.span.start kind).map (⟨·, p⟩)
termination_by structural n => n

/-- What is left of a node of the given kind that starts at `offset`. -/
def stripKind (spans : List Span) (offset : Nat) : NodeKind → Option NodeKind
  | .text s =>
    let kept := keep spans offset s.toList
    if kept.isEmpty then none else some (.text (String.ofList kept))
  | .conditional branches otherwise =>
    some (.conditional (stripBranches spans branches) (stripOption spans otherwise))
  | .loop var e body otherwise =>
    some (.loop var e (stripBlock spans body) (stripOption spans otherwise))
  | .macroDef d => some (.macroDef (stripDef spans d))
  | .macroCall c => some (.macroCall (stripCall spans c))
  | .escaped s => some (.escaped s)
  | .raw s => some (.raw s)
  | .comment => some .comment
  | .reference r => some (.reference r)
  | .assign target value => some (.assign target value)
  | .parse e => some (.parse e)
  | .inclusion es => some (.inclusion es)
  | .evaluate e => some (.evaluate e)
  | .stop => some .stop
  | .leave scope => some (.leave scope)
termination_by structural k => k

def stripDef (spans : List Span) : MacroDef → MacroDef
  | ⟨name, params, body, source, p⟩ => ⟨name, params, stripBlock spans body, source, p⟩
termination_by structural d => d

def stripCall (spans : List Span) : MacroCall → MacroCall
  | ⟨name, args, body, literal⟩ => ⟨name, args, stripOption spans body, literal⟩
termination_by structural c => c

def stripOption (spans : List Span) : Option (List Node) → Option (List Node)
  | none => none
  | some b => some (stripBlock spans b)
termination_by structural b => b

def stripBranches (spans : List Span) : List Branch → List Branch
  | [] => []
  | ⟨e, body⟩ :: bs => ⟨e, stripBlock spans body⟩ :: stripBranches spans bs
termination_by structural bs => bs

/-- What is left of a block; a text of which nothing is left is dropped. -/
def stripBlock (spans : List Span) : List Node → List Node
  | [] => []
  | n :: ns =>
    match stripNode spans n with
    | some m => m :: stripBlock spans ns
    | none => stripBlock spans ns
termination_by structural ns => ns

end

end Gobbling

def Block.gobble (policy : GobblingPolicy) (cs : List Char) (m : MarkerSpans) (b : Block) : Block :=
  match Gobbling.removals cs policy m with
  | [] => b
  | spans => Gobbling.stripBlock spans b

end Stencil
