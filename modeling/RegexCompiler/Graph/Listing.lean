import RegexCompiler.Decimal.Style
import RegexCompiler.Graph.Basic
import RegexCompiler.Palette

/-!
# Listings of graphs

A listing has a line for every vertex, in ascending order, with the edges that leave it, and a last
line with the accepting vertices. Nothing in it depends on the order in which the graph was built.
-/

namespace RegexCompiler.Graph

variable {V κ : Type} [DecidableEq V] [Ord V]

/-- Edges compare by label, then by target. -/
def compareEdges (a b : Label × V) : Ordering :=
  (compare a.1 b.1).then (compare a.2 b.2)

/-- The edges that leave a vertex, by label and target. -/
def sortedEdges (g : Graph V κ) (v : V) : List (Label × V) :=
  (g.outgoing.neighbours v).mergeSort fun a b => (compareEdges a b).isLE

variable [Named V]

/-- A text in one of the colours of a palette. -/
def paint (palette : Palette) (colour text : String) : String :=
  colour ++ text ++ palette.reset

/-- The parts with commas between them, or the mark of emptiness. -/
def listed (palette : Palette) (parts : List String) : String :=
  if parts.isEmpty then paint palette palette.muted "∅" else String.intercalate ", " parts

def listedLabel (palette : Palette) : Label → String
  | .symbol c => paint palette palette.symbol c.toString
  | .epsilon => paint palette palette.muted Label.epsilon.text

def listedEdge (palette : Palette) (edge : Label × V) : String :=
  listedLabel palette edge.1 ++ " " ++ paint palette palette.muted "→" ++ " "
    ++ paint palette palette.vertex (Named.name edge.2)

/-- The coordinates of a vertex that has some. -/
def listedPosition (palette : Palette) : Option (Position Float) → String
  | none => ""
  | some p =>
    "  " ++ paint palette palette.muted
      ("@ (" ++ Decimal.plain.write p.x ++ ", " ++ Decimal.plain.write p.y ++ ")")

def listedVertex (palette : Palette) (showLayout : Bool) (g : Graph V Float) (v : V) : String :=
  paint palette palette.vertex (Named.name v) ++ ": "
    ++ listed palette ((g.sortedEdges v).map (listedEdge palette))
    ++ (if showLayout then listedPosition palette (g.position v) else "") ++ "\n"

/-- The text of a graph, on request with the positions of its vertices. -/
def listing (palette : Palette) (showLayout : Bool) (g : Graph V Float) : String :=
  String.join ((sorted g.vertices).map (listedVertex palette showLayout g))
    ++ "accept: "
    ++ listed palette ((sorted g.finals).map fun v => paint palette palette.accept (Named.name v))
    ++ "\n"

end RegexCompiler.Graph
