import Stencil.Ast
import Stencil.Error

/-!
# What a template defines and what is wrong with it

One walk over a tree in the order of its text finds the macros that it defines and the rules that it
breaks beyond its form. A macro inside another is a fault and is not looked into.
-/

namespace Stencil

/-- What a walk over a template finds. -/
inductive Finding where
  | fault (f : Failure)
  | definition (d : MacroDef)

/-- What encloses a place: a macro's definition, a string. -/
structure Enclosure where
  inMacro : Bool
  inString : Bool
  deriving Repr, DecidableEq

def Finding.at_ (f : InitFault) (p : Position) : Finding := .fault (.at_ (.init f) p)

def Reference.targetFindings (r : Reference) : List Finding :=
  match r.segments.getLast? with
  | some ⟨.method name _, p⟩ => [.at_ (.assignToCall name r.literal) p]
  | _ => []

mutual

def Node.findings (e : Enclosure) : Node → List Finding
  | ⟨kind, p⟩ => NodeKind.findings e p kind
termination_by structural n => n

/-- The findings in a node of the given kind at a position. -/
def NodeKind.findings (e : Enclosure) (p : Position) : NodeKind → List Finding
  | .text _ => []
  | .escaped _ => []
  | .raw _ => []
  | .comment => []
  | .reference r => Reference.findings e r
  | .conditional branches otherwise =>
    branchFindings e branches ++ optionFindings e otherwise
  | .loop _ iterable body otherwise =>
    Expr.findings e iterable ++ blockFindings e body ++ optionFindings e otherwise
  | .assign target value =>
    target.targetFindings ++ Reference.findings e target ++ Expr.findings e value
  | .macroDef d => MacroDef.findings e p d
  | .macroCall c => MacroCall.findings e c
  | .parse name => Expr.findings e name
  | .inclusion names => exprFindings e names
  | .evaluate text => Expr.findings e text
  | .stop => if e.inString then [.at_ .flowInString p] else []
  | .leave scope =>
    if e.inString then [.at_ .flowInString p]
    else
      match scope with
      | .unknown label => [.at_ (.unknownScope label) p]
      | _ => []
termination_by structural k => k

def blockFindings (e : Enclosure) : List Node → List Finding
  | [] => []
  | n :: ns => Node.findings e n ++ blockFindings e ns
termination_by structural ns => ns

def optionFindings (e : Enclosure) : Option (List Node) → List Finding
  | none => []
  | some b => blockFindings e b
termination_by structural b => b

def branchFindings (e : Enclosure) : List Branch → List Finding
  | [] => []
  | ⟨condition, body⟩ :: bs =>
    Expr.findings e condition ++ blockFindings e body ++ branchFindings e bs
termination_by structural bs => bs

/-- The findings in a macro's definition, the definition itself last. -/
def MacroDef.findings (e : Enclosure) (p : Position) : MacroDef → List Finding
  | ⟨name, params, body, source, q⟩ =>
    if e.inMacro then [.at_ (.nestedMacro name) p]
    else
      let inside := { e with inMacro := true }
      paramFindings inside name [] params ++ blockFindings inside body ++
        [.definition ⟨name, params, body, source, q⟩]
termination_by structural d => d

/-- The findings in the parameters of a macro after those of the names `seen`. -/
def paramFindings (e : Enclosure) (name : String) (seen : List String) : List Param → List Finding
  | [] => []
  | ⟨param, fallback, p⟩ :: ps =>
    (if seen.contains param then [.at_ (.repeatedParameter name param) p] else []) ++
      fallbackFindings e fallback ++ paramFindings e name (param :: seen) ps
termination_by structural ps => ps

def fallbackFindings (e : Enclosure) : Option Expr → List Finding
  | none => []
  | some x => Expr.findings e x
termination_by structural x => x

def MacroCall.findings (e : Enclosure) : MacroCall → List Finding
  | ⟨name, args, body, _⟩ => argFindings e name [] args ++ optionFindings e body
termination_by structural c => c

/-- The findings in the arguments of a call after those of the names `seen`. -/
def argFindings (e : Enclosure) (name : String) (seen : List String) : List Argument → List Finding
  | [] => []
  | ⟨none, value⟩ :: as => argValueFindings e name value ++ argFindings e name seen as
  | ⟨some arg, value⟩ :: as =>
    argValueFindings e name value ++
      (if seen.contains arg then [.at_ (.repeatedArgument arg name) value.position] else []) ++
      argFindings e name (arg :: seen) as
termination_by structural as => as

/-- The findings in the value of an argument, where a word without quotes is a fault. -/
def argValueFindings (e : Enclosure) (name : String) : Expr → List Finding
  | ⟨kind, p⟩ =>
    match kind with
    | .bareWord word => [.at_ (.bareWord word name) p]
    | kind => ExprKind.findings e kind
termination_by structural x => x

def Reference.findings (e : Enclosure) : Reference → List Finding
  | ⟨_, _, segments, _, _⟩ => segmentFindings e segments
termination_by structural r => r

def segmentFindings (e : Enclosure) : List Segment → List Finding
  | [] => []
  | ⟨kind, _⟩ :: ss => SegmentKind.findings e kind ++ segmentFindings e ss
termination_by structural ss => ss

def SegmentKind.findings (e : Enclosure) : SegmentKind → List Finding
  | .property _ => []
  | .method _ args => exprFindings e args
  | .index i => Expr.findings e i
termination_by structural k => k

def Expr.findings (e : Enclosure) : Expr → List Finding
  | ⟨kind, _⟩ => ExprKind.findings e kind
termination_by structural x => x

def ExprKind.findings (e : Enclosure) : ExprKind → List Finding
  | .literal _ => []
  | .bareWord _ => []
  | .interpolated body => blockFindings { e with inString := true } body
  | .reference r => Reference.findings e r
  | .list items => exprFindings e items
  | .map entries => entryFindings e entries
  | .range lower upper => Expr.findings e lower ++ Expr.findings e upper
  | .unary _ operand => Expr.findings e operand
  | .binary _ left right => Expr.findings e left ++ Expr.findings e right
termination_by structural k => k

def exprFindings (e : Enclosure) : List Expr → List Finding
  | [] => []
  | x :: xs => Expr.findings e x ++ exprFindings e xs
termination_by structural xs => xs

def entryFindings (e : Enclosure) : List Entry → List Finding
  | [] => []
  | ⟨key, value⟩ :: es => Expr.findings e key ++ Expr.findings e value ++ entryFindings e es
termination_by structural es => es

end

def Finding.faults (fs : List Finding) : List Failure :=
  fs.filterMap fun
    | .fault f => some f
    | .definition _ => none

def Finding.definitions (fs : List Finding) : List MacroDef :=
  fs.filterMap fun
    | .definition d => some d
    | .fault _ => none

theorem Finding.faults_append (fs gs : List Finding) : faults (fs ++ gs) = faults fs ++ faults gs :=
  List.filterMap_append

theorem Finding.definitions_append (fs gs : List Finding) :
    definitions (fs ++ gs) = definitions fs ++ definitions gs :=
  List.filterMap_append

end Stencil
