import Stencil.Grammar.Peg

/-!
# The grammar of templates

The rules of templates and their bodies. Blanks matter everywhere; where they are allowed without being
text, a body says so.
-/

namespace Stencil

/-- The rules of templates, in the order in which messages name them. -/
inductive Rule where
  | ending
  | template
  | block
  | text
  | stray
  | lineComment
  | blockComment
  | rawBlock
  | rawContent
  | unterminated
  | escaped
  | ifDirective
  | ifHead
  | elseifBranch
  | elseifHead
  | elseBranch
  | elseHead
  | endMarker
  | foreachDirective
  | foreachHead
  | loopVar
  | setDirective
  | macroDirective
  | macroHead
  | macroParam
  | parseDirective
  | includeDirective
  | evaluateDirective
  | stopDirective
  | breakDirective
  | blockMacroCall
  | blockCallHead
  | macroCall
  | macroName
  | macroArgs
  | namedArg
  | positionalArg
  | bareWord
  | expr
  | opNot
  | opNeg
  | opOr
  | opAnd
  | opEq
  | opNe
  | opLe
  | opGe
  | opLt
  | opGt
  | opAdd
  | opSub
  | opMul
  | opDiv
  | opMod
  | range
  | list
  | map
  | mapEntry
  | dqString
  | dqInner
  | sqString
  | sqInner
  | number
  | boolean
  | nullLit
  | reference
  | quiet
  | formal
  | methodCall
  | property
  | index
  | ident
  deriving Repr, DecidableEq

namespace Rule

/-! ### Words -/

open Pattern (lit one many several opt absent any)

private def identStart : Pattern := one fun c => c.isAlpha || c == '_'

private def identChar : Pattern := one fun c => c.isAlphanum || c == '_'

private def identifier : Pattern := identStart ++ many identChar

private def whole (w : String) : Pattern := lit w ++ absent identChar

private def digits : Pattern := several (one Char.isDigit)

private def directiveWord : Pattern :=
  lit "elseif" <|> lit "else" <|> lit "end" <|> lit "if" <|> lit "foreach" <|> lit "set" <|>
    lit "macro" <|> lit "parse" <|> lit "include" <|> lit "evaluate" <|> lit "stop" <|> lit "break"

def keyword : Pattern :=
  (lit "\x7b" ++ directiveWord ++ lit "\x7d") <|> (directiveWord ++ absent identChar)

def blockEnd : Pattern :=
  lit "#" ++
    (lit "\x7bend\x7d" <|> lit "\x7belseif\x7d" <|> lit "\x7belse\x7d" <|>
      ((lit "end" <|> lit "elseif" <|> lit "else") ++ absent identChar))

private def blanks : Pattern := many (one fun c => c == ' ' || c == '\t' || c == '\r' || c == '\n')

private def someBlanks : Pattern :=
  several (one fun c => c == ' ' || c == '\t' || c == '\r' || c == '\n')

private def lineBlanks : Pattern := many (one fun c => c == ' ' || c == '\t')

private def lineEnd : Pattern := lit "\n" <|> lit "\r\n" <|> lit "\r"

private def special : Pattern := lit "#" <|> lit "$" <|> lit "\\"

/-- `#` and a directive's word, in braces or on its own. -/
private def directive (w : String) : Pattern :=
  lit "#" ++ (lit ("\x7b" ++ w ++ "\x7d") <|> whole w)

private def symbolOrWord (symbol word : String) : Pattern := lit symbol <|> whole word

/-! ### Phrases -/

private local instance : HAppend (Peg Rule) (Peg Rule) (Peg Rule) := ⟨.seq⟩

private local instance : OrElse (Peg Rule) := ⟨fun g h => .alt g (h ())⟩

private local instance : Coe Pattern (Peg Rule) := ⟨.token⟩

private local instance : Coe Rule (Peg Rule) := ⟨.rule⟩

private def sym (s : String) : Peg Rule := .token (lit s)

private def w : Peg Rule := .token blanks

private def ref (r : Rule) : Peg Rule := .rule r

private def commaSeparated (g : Peg Rule) : Peg Rule := g ++ Peg.many (w ++ sym "," ++ w ++ g)

/-- The head of a directive whose argument stands in parentheses. -/
private def headWith (word : String) (arg : Peg Rule) : Peg Rule :=
  (.token (directive word) : Peg Rule) ++ .token lineBlanks ++ sym "(" ++ w ++ arg ++ w ++ sym ")"

private def dollarName : Peg Rule :=
  sym "$" ++ ((sym "\x7b" ++ ref ident ++ sym "\x7d") <|> ref ident)

private def calledName : Peg Rule :=
  (sym "\x7b" ++ ref macroName ++ sym "\x7d") <|> ref macroName

private def node : Peg Rule :=
  ref rawBlock <|> ref blockComment <|> ref lineComment <|> ref unterminated <|> ref escaped <|>
    ref ifDirective <|> ref foreachDirective <|> ref setDirective <|> ref macroDirective <|>
    ref parseDirective <|> ref includeDirective <|> ref evaluateDirective <|> ref stopDirective <|>
    ref breakDirective <|> ref blockMacroCall <|> ref macroCall <|> ref reference <|> ref text <|>
    ref stray

private def container : Peg Rule :=
  ref range <|> ref list <|> ref map <|> ref dqString <|> ref sqString <|> ref number <|>
    ref boolean <|> ref nullLit <|> ref reference

private def argValue : Peg Rule := container <|> ref bareWord

private def paren : Peg Rule := sym "(" ++ w ++ ref expr ++ w ++ sym ")"

private def primary : Peg Rule := paren <|> container

private def prefixOp : Peg Rule := (ref opNot <|> ref opNeg) ++ w

private def infixOp : Peg Rule :=
  ref opOr <|> ref opAnd <|> ref opEq <|> ref opNe <|> ref opLe <|> ref opGe <|> ref opLt <|>
    ref opGt <|> ref opAdd <|> ref opSub <|> ref opMul <|> ref opDiv <|> ref opMod

private def suffixPart : Peg Rule := ref methodCall <|> ref property <|> ref index

def body : Grammar Rule
  | ending => .word .ending
  | template => .phrase (ref block ++ ref ending)
  | block => .phrase (.many (.token (absent blockEnd) ++ node))
  -- text, comments and escapes
  | text => .word (several (absent special ++ any))
  | stray => .word (absent (lit "#" ++ keyword) ++ special)
  | lineComment => .word (lit "##" ++ many (absent lineEnd ++ any) ++ opt lineEnd)
  | blockComment => .word (lit "#*" ++ many (absent (lit "*#") ++ any) ++ lit "*#")
  | rawBlock => .phrase (sym "#[[" ++ ref rawContent ++ sym "]]#")
  | rawContent => .word (many (absent (lit "]]#") ++ any))
  | unterminated => .word (lit "#*" <|> lit "#[[")
  | escaped =>
    .word (lit "\\" ++
      ((lit "$" ++ opt (lit "!") ++ opt (lit "\x7b") ++ identifier ++ opt (lit "\x7d")) <|>
        (lit "#" ++ opt (lit "\x7b") ++ identifier ++ opt (lit "\x7d"))))
  -- directives
  | ifDirective =>
    .phrase (ref ifHead ++ ref block ++ Peg.many (ref elseifBranch) ++ Peg.opt (ref elseBranch) ++
      ref endMarker)
  | ifHead => .phrase (headWith "if" (ref expr))
  | elseifBranch => .phrase (ref elseifHead ++ ref block)
  | elseifHead => .phrase (headWith "elseif" (ref expr))
  | elseBranch => .phrase (ref elseHead ++ ref block)
  | elseHead => .word (directive "else")
  | endMarker => .word (directive "end")
  | foreachDirective =>
    .phrase (ref foreachHead ++ ref block ++ Peg.opt (ref elseBranch) ++ ref endMarker)
  | foreachHead =>
    .phrase (headWith "foreach" (ref loopVar ++ w ++ .token (whole "in") ++ w ++ ref expr))
  | loopVar => .phrase dollarName
  | setDirective => .phrase (headWith "set" (ref reference ++ w ++ sym "=" ++ w ++ ref expr))
  | macroDirective => .phrase (ref macroHead ++ ref block ++ ref endMarker)
  | macroHead => .phrase (headWith "macro" (ref macroName ++ Peg.many (ref macroParam)))
  | macroParam =>
    .phrase (w ++ Peg.opt (sym "," ++ w) ++ dollarName ++ Peg.opt (w ++ sym "=" ++ w ++ ref expr))
  | parseDirective => .phrase (headWith "parse" (ref expr))
  | includeDirective => .phrase (headWith "include" (commaSeparated (ref expr)))
  | evaluateDirective => .phrase (headWith "evaluate" (ref expr))
  | stopDirective => .word (directive "stop")
  | breakDirective =>
    .phrase (.token (directive "break") ++
      Peg.opt (sym "(" ++ w ++ sym "$" ++ ref ident ++ w ++ sym ")"))
  | blockMacroCall => .phrase (ref blockCallHead ++ ref block ++ ref endMarker)
  | blockCallHead =>
    .phrase (sym "#@" ++ calledName ++ sym "(" ++ w ++ ref macroArgs ++ w ++ sym ")")
  | macroCall => .phrase (sym "#" ++ calledName ++ sym "(" ++ w ++ ref macroArgs ++ w ++ sym ")")
  | macroName => .word (absent keyword ++ identifier)
  | macroArgs =>
    let arg := ref namedArg <|> ref positionalArg
    let separator := (w ++ sym "," ++ w) <|> (.token someBlanks : Peg Rule)
    .phrase (.opt (arg ++ Peg.many (separator ++ arg)))
  | namedArg => .phrase (ref ident ++ w ++ sym "=" ++ w ++ argValue)
  | positionalArg => .phrase argValue
  | bareWord => .word identifier
  -- expressions
  | expr =>
    .phrase (Peg.many prefixOp ++ primary ++
      Peg.many (w ++ infixOp ++ w ++ Peg.many prefixOp ++ primary))
  | opNot => .word ((lit "!" ++ absent (lit "=")) <|> whole "not")
  | opNeg => .word (lit "-")
  | opOr => .word (symbolOrWord "||" "or")
  | opAnd => .word (symbolOrWord "&&" "and")
  | opEq => .word (symbolOrWord "==" "eq")
  | opNe => .word (symbolOrWord "!=" "ne")
  | opLe => .word (symbolOrWord "<=" "le")
  | opGe => .word (symbolOrWord ">=" "ge")
  | opLt => .word (symbolOrWord "<" "lt")
  | opGt => .word (symbolOrWord ">" "gt")
  | opAdd => .word (lit "+")
  | opSub => .word (lit "-")
  | opMul => .word (lit "*")
  | opDiv => .word (lit "/")
  | opMod => .word (lit "%")
  | range =>
    .phrase (sym "[" ++ w ++ ref expr ++ w ++ sym ".." ++ w ++ ref expr ++ w ++ sym "]")
  | list => .phrase (sym "[" ++ w ++ Peg.opt (commaSeparated (ref expr)) ++ w ++ sym "]")
  | map => .phrase (sym "\x7b" ++ w ++ Peg.opt (commaSeparated (ref mapEntry)) ++ w ++ sym "\x7d")
  | mapEntry => .phrase (ref expr ++ w ++ sym ":" ++ w ++ ref expr)
  | dqString => .phrase (sym "\"" ++ ref dqInner ++ sym "\"")
  | dqInner => .word (many (lit "\\\"" <|> (absent (lit "\"") ++ any)))
  | sqString => .phrase (sym "'" ++ ref sqInner ++ sym "'")
  | sqInner => .word (many (lit "''" <|> (absent (lit "'") ++ any)))
  | number =>
    .word (opt (lit "-") ++ digits ++ opt (lit "." ++ digits) ++
      opt ((lit "e" <|> lit "E") ++ opt (lit "+" <|> lit "-") ++ digits))
  | boolean => .word ((lit "true" <|> lit "false") ++ absent identChar)
  | nullLit => .word (whole "null")
  -- references
  | reference =>
    .phrase (sym "$" ++ Peg.opt (ref quiet) ++
      (ref formal <|> (ref ident ++ Peg.many suffixPart)))
  | quiet => .word (lit "!")
  | formal => .phrase (sym "\x7b" ++ ref ident ++ Peg.many suffixPart ++ sym "\x7d")
  | methodCall =>
    .phrase (sym "." ++ ref ident ++ sym "(" ++ w ++ Peg.opt (commaSeparated (ref expr)) ++ w ++
      sym ")")
  | property => .phrase (sym "." ++ ref ident)
  | index => .phrase (sym "[" ++ w ++ ref expr ++ w ++ sym "]")
  | ident => .word identifier

end Rule

end Stencil
