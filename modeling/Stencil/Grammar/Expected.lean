import Stencil.Error.Cause
import Stencil.Grammar.Rule
import Stencil.Text.Blank

/-!
# Reading a text by the grammar

A text is a template when the grammar reads it to its end. Where it is not, the answer is the furthest
place that was reached and the rules that could have gone on there, and these decide the wording.
-/

namespace Stencil

def Rule.all : List Rule := [
  ending, template, block, text, stray, lineComment, blockComment, rawBlock, rawContent,
  unterminated, escaped, ifDirective, ifHead, elseifBranch, elseifHead, elseBranch, elseHead,
  endMarker, foreachDirective, foreachHead, loopVar, setDirective, macroDirective, macroHead,
  macroParam, parseDirective, includeDirective, evaluateDirective, stopDirective, breakDirective,
  blockMacroCall, blockCallHead, macroCall, macroName, macroArgs, namedArg, positionalArg, bareWord,
  expr, opNot, opNeg, opOr, opAnd, opEq, opNe, opLe, opGe, opLt, opGt, opAdd, opSub, opMul, opDiv,
  opMod, range, list, map, mapEntry, dqString, dqInner, sqString, sqInner, number, boolean, nullLit,
  reference, quiet, formal, methodCall, property, index, ident]

/-- No rule is left out. -/
theorem Rule.mem_all (r : Rule) : r ∈ Rule.all := by
  cases r <;> decide

def Rule.thing : Rule → String
  | expr | opNot | opNeg | range | list | map | dqString | sqString | number | boolean | nullLit
  | bareWord => "an expression"
  | reference | quiet | formal => "a reference"
  | opOr | opAnd | opEq | opNe | opLe | opGe | opLt | opGt | opAdd | opSub | opMul | opDiv
  | opMod => "an operator"
  | methodCall | property | index => "a property, method or index"
  | ident | macroName => "a name"
  | loopVar => "a loop variable"
  | macroParam => "a macro parameter"
  | namedArg | positionalArg | macroArgs => "a macro argument"
  | dqInner | sqInner => "a closing quote"
  | mapEntry => "a map entry"
  | _ => "valid template syntax"

def Rule.closesBlock : Rule → Bool
  | endMarker | elseBranch | elseHead | elseifBranch | elseifHead => true
  | _ => false

def ParseFault.ofExpected (rules : List Rule) : ParseFault :=
  if rules.any Rule.closesBlock then .unclosedBlock
  else if rules.contains .ending then .strayBlockEnd
  else .expected (rules.map Rule.thing).eraseDups

/-- A place at which reading stopped, and the rules that could have gone on there. -/
structure Refusal where
  offset : Nat
  rules : List Rule
  deriving Repr, DecidableEq

def Refusal.ofAttempts (a : Attempts Rule) : Refusal :=
  ⟨a.offset, Rule.all.filter (a.rules.contains ·)⟩

/-- As many rules are open at once as can be on the way through a text: some for every character. -/
def openRules (cs : List Char) : Nat := 8 * (cs.length + 2)

def readTree (cs : List Char) : Except Refusal (Tree Rule) :=
  match Rule.body.matcher (openRules cs) .template (.start cs) .none with
  | (some (_, [t]), _) => .ok t
  | (_, a) => .error (.ofAttempts a)

/-- A text is read as the tree that the rule of templates answers, if it answers one tree. -/
theorem readTree_eq_ok_iff {cs : List Char} {t : Tree Rule} : readTree cs = .ok t ↔
    ∃ d, (Rule.body.matcher (openRules cs) .template (.start cs) .none).1 = some (d, [t]) := by
  unfold readTree
  split
  · next d u a read =>
    rw [read]
    constructor
    · rintro ⟨⟩
      exact ⟨d, rfl⟩
    · rintro ⟨e, ⟨⟩⟩
      rfl
  · next answer a other read =>
    constructor
    · nofun
    · rintro ⟨d, ht⟩
      rw [read] at ht
      exact absurd ht (other d t)

/-- A text that is refused tells how far it was read, and what would have been read on there. -/
theorem refusal_of_readTree {cs : List Char} {refusal : Refusal} (h : readTree cs = .error refusal) :
    refusal = .ofAttempts (Rule.body.matcher (openRules cs) .template (.start cs) .none).2 := by
  unfold readTree at h
  split at h
  · cases h
  · next read =>
    cases h
    rw [read]

/-- At most sixteen characters of the text from `offset` on, up to a blank; a blank there stands for
itself. -/
def tokenAt (cs : List Char) (offset : Nat) : List Char :=
  let rest := dropBytes offset cs
  let token := (rest.takeWhile fun c => !Text.isBlank c).take 16
  if token.isEmpty then rest.take 1 else token

end Stencil
