import Stencil.Error
import Stencil.Ast.Quoted
import Stencil.Grammar.Expected

/-!
# Places in a template

The text that is read is the template itself or the content of a string in it. A site knows the template
and where in it every byte of the text came from, so that all positions are positions in the template.
-/

namespace Stencil

/-- Where the text that is read stands. -/
structure Site where
  source : Source
  /-- The characters of the template. -/
  chars : List Char
  /-- Where the bytes of the text came from, and its end; none when it is the template itself. -/
  origins : Option (Array Nat)

namespace Site

def ofSource (s : Source) : Site := ⟨s, s.text.toList, none⟩

def absolute (site : Site) (offset : Nat) : Nat :=
  match site.origins with
  | none => offset
  | some origins => (origins[offset]? <|> origins.back?).getD offset

/-- The site of a string's content, which starts at `offset` and whose bytes came from `origins`. -/
def within (site : Site) (origins : List Nat) : Site :=
  { site with origins := some (origins.map site.absolute).toArray }

/-- The position of a span given by offsets in the template. -/
def positionOf (site : Site) (span : Span) : Position :=
  let (line, column) := lineColumn site.chars span.start
  ⟨site.source.name, line, column, span⟩

def position (site : Site) (c d : Cursor) : Position :=
  site.positionOf ⟨site.absolute c.offset, site.absolute d.offset⟩

/-- The failure of a part of the text that the grammar reads but that means nothing. -/
def fault (site : Site) (c d : Cursor) (f : ParseFault) : Failure :=
  .at_ (.parse f (String.ofList ((c.upTo d).take 16))) (site.position c d)

def refused (site : Site) (cs : List Char) (r : Refusal) : Failure :=
  let start := site.absolute r.offset
  let fault := ParseFault.ofExpected r.rules
  if utf8Length cs ≤ r.offset then
    .at_ (.parse fault "end of input") (site.positionOf ⟨start, start⟩)
  else
    let token := tokenAt cs r.offset
    let stop := site.absolute (min (r.offset + utf8Length token) (utf8Length cs))
    .at_ (.parse fault (String.ofList token)) (site.positionOf ⟨start, stop⟩)

end Site

end Stencil
