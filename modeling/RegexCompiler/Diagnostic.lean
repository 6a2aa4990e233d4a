import RegexCompiler.Regex.Fault
import RegexCompiler.Text.Blank
import RegexCompiler.Text.Columns

/-!
# Diagnostics

A diagnostic shows a message and below it the source line in which something is marked: carets
stand under the marked characters and a label follows them. The mark is a range of bytes, and the
carets fill as many columns as the characters in the range. A line that begins with many blanks is
shown without most of them.
-/

namespace RegexCompiler

/-- A range of bytes in the UTF-8 form of a text. -/
structure ByteRange where
  start : Nat
  stop : Nat
deriving DecidableEq

namespace ByteRange

def length (text : List Char) : Nat :=
  text.foldr (fun c bytes => c.utf8Size + bytes) 0

/-- The range of the character at a position; at or beyond the end of the text, the empty range
at its end. -/
def ofPosition (text : List Char) (position : Nat) : ByteRange :=
  let start := length (text.take position)
  match text[position]? with
  | some c => ⟨start, start + c.utf8Size⟩
  | none => ⟨start, start⟩

end ByteRange

namespace Diagnostic

/-- The columns of the characters that end within the first bytes of a text. -/
def columnsWithin : List Char → Nat → Nat
  | [], _ => 0
  | c :: text, bytes =>
    if c.utf8Size ≤ bytes then Text.columns c + columnsWithin text (bytes - c.utf8Size) else 0

def fill (c : Char) (count : Nat) : String :=
  String.ofList (List.replicate count c)

/-- The codes for the parts of a diagnostic. -/
structure Colours where
  /-- The word at the beginning, the carets and the label. -/
  mark : String
  frame : String
  title : String
  reset : String

def plain : Colours where
  mark := ""
  frame := ""
  title := ""
  reset := ""

def terminal : Colours where
  mark := "\x1b[1m\x1b[91m"
  frame := "\x1b[1m\x1b[94m"
  title := "\x1b[1m"
  reset := "\x1b[0m"

def heading : String :=
  "error"

/-- The message behind the heading. A line feed in it goes on below the place where it began. -/
def title (colours : Colours) (message : String) : String :=
  let column := heading.length + 2
  let part (c : Char) : List Char :=
    if c = '\n' then
      (colours.reset ++ "\n" ++ fill ' ' column ++ colours.title).toList
    else Text.shown c
  colours.title ++ ": " ++ String.ofList (message.toList.flatMap part) ++ colours.reset

/-- The columns of the blanks that a line begins with, each of them but the tab taken as one. The
blanks of a line that holds nothing else are its content. -/
def indentation (line : List Char) : Nat :=
  if line.all Text.isBlank then 0
  else
    (line.takeWhile Text.isBlank).foldr
      (fun c filled => (if c = '\t' then Text.tabStop.length else 1) + filled) 0

/-- The columns to leave out of a line that is marked from a column on. Where more than 26 blank
columns lead up to the code and the mark, 22 of them stay. -/
def surplus (line : List Char) (marked : Nat) : Nat :=
  let lead := min (indentation line) marked
  if 26 < lead then lead - 22 else 0

/-- Takes characters off a shown line until they fill some columns at least, and tells how many
they fill. -/
def takeOff : List Char → Nat → Nat × List Char
  | line, 0 => (0, line)
  | [], _ + 1 => (0, [])
  | c :: line, columns + 1 =>
    let (filled, rest) := takeOff line (columns + 1 - Text.width c)
    (Text.width c + filled, rest)

/-- What stands for the characters that a line is shown without. -/
def ellipsis : String :=
  "..."

/-- A line as it is displayed without its first columns, and by how many columns it has moved to the
left. The ellipsis covers what would be seen first; a space fills the column that it cannot cover of
a wide character. -/
def clip (colours : Colours) (line : List Char) (columns : Nat) : Nat × String :=
  let shown := line.flatMap Text.shown
  if columns = 0 then (0, String.ofList shown)
  else
    let (hidden, seen) := takeOff shown columns
    let (covered, rest) := takeOff seen ellipsis.length
    (hidden, colours.frame ++ ellipsis ++ colours.reset ++ fill ' ' (covered - ellipsis.length)
      ++ String.ofList rest)

/-- The message, the source with its line number, and the label under the marked range. At least
one caret is drawn. -/
def render (colours : Colours) (message source label : String) (mark : ByteRange) : String :=
  let text := source.toList
  let before := columnsWithin text mark.start
  let carets := max 1 (columnsWithin text mark.stop - before)
  let paint code part := code ++ part ++ colours.reset
  let bar := paint colours.frame "|"
  let (moved, shown) := clip colours text (surplus text before)
  paint colours.mark heading ++ title colours message ++ "\n"
    ++ "  " ++ bar ++ "\n"
    ++ paint colours.frame "1" ++ " " ++ bar ++ (if shown.isEmpty then "" else " " ++ shown) ++ "\n"
    ++ "  " ++ bar ++ fill ' ' (before - moved + 1) ++ paint colours.mark (fill '^' carets) ++ " "
    ++ paint colours.mark label

end Diagnostic

/-- The fault shown in the text where it was found. -/
def Fault.render (fault : Fault) (source : String) (coloured : Bool) : String :=
  Diagnostic.render (if coloured then Diagnostic.terminal else Diagnostic.plain)
    fault.message source fault.label (ByteRange.ofPosition source.toList fault.position)

end RegexCompiler
