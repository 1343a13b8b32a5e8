import Stencil.Text.VisibleTable

/-!
# Texts as diagnostics show them

A text in double quotes in which every character can be seen: quotes, backslashes and line ends are
escaped, and so is a character without a visible form of its own, by its number.
-/

namespace Stencil.Text

private def inVisibleRanges (ranges : List (Nat × Nat)) (n : Nat) : Bool :=
  ranges.any fun r => r.1 ≤ n && n ≤ r.2

private def hexDigits (n : Nat) : List Char := Nat.toDigits 16 n

def showChar (c : Char) : List Char :=
  match c with
  | '\x00' => ['\\', '0']
  | '\t' => ['\\', 't']
  | '\r' => ['\\', 'r']
  | '\n' => ['\\', 'n']
  | '\\' => ['\\', '\\']
  | '"' => ['\\', '"']
  | c =>
    if 0x20 ≤ c.toNat ∧ c.toNat < 0x7F then [c]
    else if inVisibleRanges extendingRanges c.toNat || inVisibleRanges unprintableRanges c.toNat then
      ['\\', 'u', '{'] ++ hexDigits c.toNat ++ ['}']
    else [c]

/-- How a text is shown: in double quotes, character by character. -/
def showText (s : String) : String :=
  String.ofList ('"' :: s.toList.flatMap showChar ++ ['"'])

end Stencil.Text
