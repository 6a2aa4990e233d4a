import RegexCompiler.Graph.Listing
import RegexCompiler.Json

/-!
# Snapshots of graphs

A snapshot is what programs that draw a graph need to know: names of the vertices, edges, accepting
vertices and positions, each in ascending order of the vertices.
-/

namespace RegexCompiler

structure SnapshotEdge where
  source : String
  target : String
  label : Label

structure Snapshot (κ : Type) where
  vertices : List String
  edges : List SnapshotEdge
  finals : List String
  layout : List (String × Position κ)

/-- The exported form of a graph, which does not depend on the order in which it was built. -/
def Graph.snapshot {V κ : Type} [DecidableEq V] [Ord V] [Named V] (g : Graph V κ) : Snapshot κ :=
  let vertices := sorted g.vertices
  { vertices := vertices.map Named.name
    edges := vertices.flatMap fun source =>
      (g.sortedEdges source).map fun (label, target) =>
        ⟨Named.name source, Named.name target, label⟩
    finals := (sorted g.finals).map Named.name
    layout := vertices.filterMap fun v =>
      (g.position v).map fun position => (Named.name v, position) }

namespace Snapshot

def edgeJson (edge : SnapshotEdge) : Json :=
  .record [("source", .text edge.source), ("target", .text edge.target),
    ("label", .text edge.label.text)]

def positionJson (position : Position Float) : Json :=
  .record [("x", .number position.x), ("y", .number position.y)]

/-- The layout is left out if no vertex has a position. -/
def toJson (snapshot : Snapshot Float) : Json :=
  let layout := snapshot.layout.map fun (name, position) => (name, positionJson position)
  .record
    ([("vertices", .list (snapshot.vertices.map .text)),
      ("edges", .list (snapshot.edges.map edgeJson)),
      ("finals", .list (snapshot.finals.map .text))]
      ++ if layout.isEmpty then [] else [("layout", .record layout)])

end Snapshot

end RegexCompiler
