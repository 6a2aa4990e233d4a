/-!
# Colours of terminal output

A palette is keyed by what is printed. The plain palette holds empty codes, so that plain and
coloured output differ in nothing else.
-/

namespace RegexCompiler

/-- The codes that switch a colour on, and the one that ends it. -/
structure Palette where
  /-- Vertex names and the targets of edges. -/
  vertex : String
  symbol : String
  /-- Accepting vertices and the verdict on an accepted input. -/
  accept : String
  /-- Arrows, ε, marks of emptiness and positions. -/
  muted : String
  reset : String

namespace Palette

def plain : Palette where
  vertex := ""
  symbol := ""
  accept := ""
  muted := ""
  reset := ""

def terminal : Palette where
  vertex := "\x1b[34m"
  symbol := "\x1b[32m"
  accept := "\x1b[1;32m"
  muted := "\x1b[2m"
  reset := "\x1b[0m"

def choose (coloured : Bool) : Palette :=
  if coloured then terminal else plain

end Palette

end RegexCompiler
