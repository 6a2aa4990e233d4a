/-!
# Control codes

A stream for a terminal mixes text with codes that act on the terminal. Codes are the ASCII controls
other than tabs and line ends, and the sequences that the escape character begins. An escape
sequence may hold punctuation before the character that ends it; a bracket or a letter right behind
the escape character can introduce a control sequence or a control string instead. Without its codes
a stream is plain text.
-/

namespace RegexCompiler.Text

def isControl (c : Char) : Bool :=
  c.toNat < 0x20 || c = '\x7f'

/-- Whether a control moves text on the page: a tab, a line feed, a form feed or a return. -/
def isLayout (c : Char) : Bool :=
  c = '\t' || c = '\n' || c = '\x0c' || c = '\r'

/-- Where a character of a stream stands. -/
inductive StreamPlace where
  | text
  | escape
  /-- In an escape sequence, behind its punctuation. -/
  | sequence
  | control
  | string
deriving DecidableEq

/-- The place behind a character that belongs to a code. Every code ends where the escape character
begins another one, and two controls cancel what has begun. -/
def StreamPlace.next (place : StreamPlace) (c : Char) : StreamPlace :=
  if c = '\x1b' then escape
  else if c = '\x18' || c = '\x1a' then text
  else
    match place with
    | text => text
    | escape =>
      if c = '[' then control
      else if c = ']' || c = 'P' || c = 'X' || c = '^' || c = '_' then string
      else if ' ' ≤ c && c ≤ '/' then sequence
      else if '0' ≤ c && c ≤ '~' then text
      else escape
    | sequence => if '0' ≤ c && c ≤ '~' then text else sequence
    | control => if '@' ≤ c && c ≤ '~' then text else control
    | string => if c = '\x07' || c = '\u009C' then text else string

/-- The text in a stream that begins at a place. A line end or a tab is text even within a code,
which it ends, unless that is a control string. -/
def textFrom : StreamPlace → List Char → List Char
  | _, [] => []
  | place, c :: stream =>
    if (isLayout c && place ≠ .string) || (place = .text && !isControl c) then
      c :: textFrom .text stream
    else textFrom (place.next c) stream

def withoutCodes (stream : String) : String :=
  String.ofList (textFrom .text stream.toList)

end RegexCompiler.Text
