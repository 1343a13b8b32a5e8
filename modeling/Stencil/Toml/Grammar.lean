import Stencil.Grammar.Peg

/-!
# The grammar of TOML

A document is a sequence of lines, each of which may hold a header or an entry. Only arrays and strings in
triple quotes go on over the ends of lines.
-/

namespace Stencil

/-- The rules of TOML documents. -/
inductive TomlRule where
  | document
  | header
  | repeatedHeader
  | entry
  | bareKey
  | basicKey
  | literalKey
  | basicString
  | basicBlock
  | literalString
  | literalBlock
  | boolean
  | array
  | inlineTable
  | moment
  | float
  | integer
  deriving Repr, DecidableEq

namespace TomlRule

/-! ### Words -/

open Pattern (lit one many several opt absent ending)

private def blankChar : Pattern := one fun c => c == ' ' || c == '\t'

private def blanks : Pattern := many blankChar

private def newline : Pattern := lit "\n" <|> lit "\r\n"

/-- A character that may stand in a line: no control character but the tab. -/
private def lineChar (c : Char) : Bool := c == '\t' || (' ' ≤ c && c != '\x7f')

private def comment : Pattern := lit "#" ++ many (one lineChar)

private def gap : Pattern := many (blankChar <|> newline <|> (comment ++ newline))

private def digit : Pattern := one Char.isDigit

private def hexDigit : Pattern :=
  one fun c => c.isDigit || ('a' ≤ c && c ≤ 'f') || ('A' ≤ c && c ≤ 'F')

private def twice (p : Pattern) : Pattern := p ++ p

private def spaced (p : Pattern) : Pattern := p ++ many (opt (lit "_") ++ p)

private def sign : Pattern := opt (lit "+" <|> lit "-")

private def whole : Pattern :=
  sign ++ ((one (fun c => '1' ≤ c && c ≤ '9') ++ several (opt (lit "_") ++ digit)) <|> digit)

private def based (letter : String) (p : Pattern) : Pattern := lit "0" ++ lit letter ++ spaced p

private def between (low high : Char) : Pattern := one fun c => low ≤ c && c ≤ high

private def exponent : Pattern := (lit "e" <|> lit "E") ++ sign ++ spaced digit

private def fraction : Pattern := lit "." ++ spaced digit

private def date : Pattern :=
  twice (twice digit) ++ lit "-" ++ twice digit ++ lit "-" ++ twice digit

private def clock : Pattern := twice digit ++ lit ":" ++ twice digit

private def time : Pattern := clock ++ lit ":" ++ twice digit ++ opt (lit "." ++ several digit)

private def zone : Pattern := lit "Z" <|> lit "z" <|> ((lit "+" <|> lit "-") ++ clock)

private def escaped : Pattern :=
  lit "\\" ++
    (one (fun c => "btnfr\"\\".contains c) <|> (lit "u" ++ twice (twice hexDigit)) <|>
      (lit "U" ++ twice (twice (twice hexDigit))))

private def basicChar : Pattern :=
  escaped <|> one fun c => lineChar c && c != '"' && c != '\\'

private def literalChar : Pattern := one fun c => lineChar c && c != '\''

private def basic : Pattern := lit "\"" ++ many basicChar ++ lit "\""

private def literal : Pattern := lit "'" ++ many literalChar ++ lit "'"

/-- A text in triple quotes: up to two quotes in a row belong to the text. -/
private def block (quote : String) (char : Pattern) : Pattern :=
  let q := lit quote
  let fence := q ++ q ++ q
  let last := absent (absent fence)
  fence ++ many (char <|> ((twice q <|> q) ++ absent q)) ++ opt ((twice q ++ last) <|> (q ++ last)) ++ fence

private def lineJoint : Pattern := lit "\\" ++ blanks ++ newline ++ many (blankChar <|> newline)

/-! ### Phrases -/

private local instance : HAppend (Peg TomlRule) (Peg TomlRule) (Peg TomlRule) := ⟨.seq⟩

private local instance : OrElse (Peg TomlRule) := ⟨fun g h => .alt g (h ())⟩

private def sym (s : String) : Peg TomlRule := .token (lit s)

private def w : Peg TomlRule := .token blanks

private def ref (r : TomlRule) : Peg TomlRule := .rule r

private def separated (separator g : Peg TomlRule) : Peg TomlRule := g ++ Peg.many (separator ++ g)

private def key : Peg TomlRule :=
  separated (w ++ sym "." ++ w) (ref bareKey <|> ref basicKey <|> ref literalKey)

private def value : Peg TomlRule :=
  ref basicBlock <|> ref basicString <|> ref literalBlock <|> ref literalString <|> ref boolean <|>
    ref array <|> ref inlineTable <|> ref moment <|> ref float <|> ref integer

private def assignment : Peg TomlRule := key ++ w ++ sym "=" ++ w ++ value

private def line : Peg TomlRule :=
  w ++ Peg.opt (ref repeatedHeader <|> ref header <|> ref entry) ++ w ++ .token (opt comment)

def body : Grammar TomlRule
  | document =>
    .phrase (.token (opt (lit "\ufeff")) ++ separated (.token newline) line ++ .token ending)
  | header => .phrase (sym "[" ++ w ++ key ++ w ++ sym "]")
  | repeatedHeader => .phrase (sym "[[" ++ w ++ key ++ w ++ sym "]]")
  | entry => .phrase assignment
  | bareKey => .word (several (one fun c => c.isAlphanum || c == '_' || c == '-'))
  | basicKey => .word basic
  | literalKey => .word literal
  | basicString => .word basic
  | basicBlock => .word (block "\"" (basicChar <|> lineJoint <|> newline))
  | literalString => .word literal
  | literalBlock => .word (block "'" (literalChar <|> newline))
  | boolean => .word (lit "true" <|> lit "false")
  | array =>
    let g : Peg TomlRule := .token gap
    .phrase (sym "[" ++ g ++ Peg.opt (separated (g ++ sym "," ++ g) value ++ Peg.opt (g ++ sym ",")) ++
      g ++ sym "]")
  | inlineTable =>
    .phrase (sym "\x7b" ++ w ++ Peg.opt (separated (w ++ sym "," ++ w) assignment) ++ w ++ sym "\x7d")
  | moment => .word ((date ++ opt ((lit "T" <|> lit "t" <|> lit " ") ++ time ++ opt zone)) <|> time)
  | float =>
    .word ((whole ++ (exponent <|> (fraction ++ opt exponent))) <|> (sign ++ (lit "inf" <|> lit "nan")))
  | integer =>
    .word (based "x" hexDigit <|> based "o" (between '0' '7') <|> based "b" (between '0' '1') <|> whole)

end TomlRule

end Stencil
