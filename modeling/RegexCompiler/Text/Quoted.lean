import RegexCompiler.Text.Shapeless

/-!
# Quoted text

A text between double quotes that shows exactly which characters it holds. The quote, the backslash
and the four usual controls have a two-character form, a character that cannot be seen or read by
itself is named by its code point, and every other character stands for itself.
-/

namespace RegexCompiler.Text

/-- The code point in lower-case hexadecimal, without leading zeros. -/
def hexadecimal (c : Char) : List Char :=
  Nat.toDigits 16 c.toNat

/-- How one character is written between the quotes. -/
def escape (c : Char) : List Char :=
  match c with
  | '\x00' => ['\\', '0']
  | '\t' => ['\\', 't']
  | '\r' => ['\\', 'r']
  | '\n' => ['\\', 'n']
  | '"' => ['\\', '"']
  | '\\' => ['\\', '\\']
  | c =>
    if c.toNat < 0x7F && 0x20 ≤ c.toNat then [c]
    else if isCombining c || isIgnorable c || isUnprintable c then
      ['\\', 'u', '\x7b'] ++ hexadecimal c ++ ['\x7d']
    else [c]

def quoted (text : String) : String :=
  String.ofList ('"' :: text.toList.flatMap escape ++ ['"'])

end RegexCompiler.Text
