import RegexCompiler.Graph.Search

/-!
# Layered layouts

A layout puts one vertex, the anchor, at the origin, and every vertex that leads to it as many
layers higher as its shortest way there has edges. The vertices that are first met from the same
successor share the width around it at equal distances. What does not lead to the anchor stands in
a row below it.
-/

namespace RegexCompiler

/-- Numbers that can measure a drawing. -/
class Coordinate (κ : Type) extends Add κ, Sub κ, Mul κ, Div κ where
  ofNat : Nat → κ

instance : Coordinate Float where
  ofNat := Float.ofNat

instance : Coordinate Rat where
  ofNat n := n

namespace Graph

variable {V κ : Type} [DecidableEq V] [Coordinate κ]

def layerGap : κ :=
  Coordinate.ofNat 150

/-- The width that the predecessors of one vertex share. -/
def spread : κ :=
  Coordinate.ofNat 300

def drawingOrigin : Position κ :=
  ⟨Coordinate.ofNat 0, Coordinate.ofNat 0⟩

/-- The places of the predecessors that were first met from a vertex: one layer up, a single one
right above the vertex, several from one end of the width to the other. -/
def placeLayer (below : Position κ) (layer : List V) : List (V × Position κ) :=
  let count := layer.length
  layer.zipIdx.map fun (v, i) =>
    let x :=
      if count = 1 then below.x
      else
        below.x - spread / Coordinate.ofNat 2
          + spread * Coordinate.ofNat i / Coordinate.ofNat (count - 1)
    (v, ⟨x, below.y - layerGap⟩)

/-- Places the vertices that were first met from a vertex, if that one has a place. -/
def placeNext (placed : List (V × Position κ)) (v : V) (layer : List V) :
    List (V × Position κ) :=
  match placed.lookup v with
  | some below => placed ++ placeLayer below layer
  | none => placed

/-- The places of all vertices that lead to the anchor. -/
def placeLayers (g : Graph V κ) (anchor : V) (origin : Position κ) : List (V × Position κ) :=
  if g.contains anchor then
    (g.incoming.discoveries anchor).foldl (fun placed (v, layer) => placeNext placed v layer)
      [(anchor, origin)]
  else []

/-- The places of the vertices that have none so far, in a row below the origin. -/
def placeStragglers (g : Graph V κ) (placed : List (V × Position κ)) (origin : Position κ) :
    List (V × Position κ) :=
  (g.vertices.filter fun v => (placed.lookup v).isNone).zipIdx.map fun (v, column) =>
    (v, ⟨origin.x + spread * Coordinate.ofNat column, origin.y + layerGap⟩)

/-- The places of all vertices. -/
def places (g : Graph V κ) (anchor : V) (origin : Position κ) : List (V × Position κ) :=
  let placed := g.placeLayers anchor origin
  placed ++ g.placeStragglers placed origin

/-- Gives every vertex a position and forgets all earlier ones. -/
def assignLayout (g : Graph V κ) (anchor : V) (origin : Position κ) : Graph V κ :=
  (g.places anchor origin).foldl (fun g (v, position) => g.setPosition v position) g.clearLayout

end Graph

end RegexCompiler
