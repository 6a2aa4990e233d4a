import RegexCompiler.Text.CodeRanges

/-!
# Blank characters

The characters that separate words: the ASCII controls from tab to carriage return, the space, and
the separators and spaces of other scripts. The zero-width characters are not blank.
-/

namespace RegexCompiler.Text

/-- The code points with the White_Space property. -/
def blankRanges : CodeRanges :=
  [(0x0009, 0x000D), (0x0020, 0x0020), (0x0085, 0x0085), (0x00A0, 0x00A0), (0x1680, 0x1680),
   (0x2000, 0x200A), (0x2028, 0x2029), (0x202F, 0x202F), (0x205F, 0x205F), (0x3000, 0x3000)]

/-- Whether a character is white space in any script. -/
def isBlank (c : Char) : Bool :=
  blankRanges.contains c

end RegexCompiler.Text
