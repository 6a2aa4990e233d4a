import RegexCompiler.Graph.Layout
import RegexCompiler.Graph.Path

/-!
# Layers of a drawing

What a layout has to be, in exact numbers. The vertices that lead to the anchor are visited against
the direction of the edges, nearer ones first. Each stands as many layers above the anchor as its
shortest way there has edges, in a row with those that are first reached from the same vertex. All
other vertices stand in a row below the anchor.
-/

namespace RegexCompiler.Graph

section Order

variable {V κ : Type} [DecidableEq V]

/-- The vertices with an edge to a vertex, each once, in the order of these edges. -/
def predecessors (g : Graph V κ) (v : V) : List V :=
  ((g.incoming.neighbours v).map Prod.snd).eraseDups

/-- The vertices that are first reached from `v` if vertices are visited in the given order: of all
vertices to which they have an edge, `v` is visited first. The anchor is not reached from any. -/
def firstReached (g : Graph V κ) (anchor : V) (order : List V) (v : V) : List V :=
  (g.predecessors v).filter fun u => u ≠ anchor ∧ order.find? (u ∈ g.predecessors ·) = some v

/-- The order in which all vertices that lead to the anchor are reached from there: nearer ones
first, and those that are reached from the same vertex together. -/
structure BreadthFirst (g : Graph V κ) (anchor : V) (order : List V) : Prop where
  nodup : order.Nodup
  mem_iff : ∀ v, v ∈ order ↔ g.Reaches v anchor
  nearer_first : order.Pairwise fun v w =>
    ∀ m n, g.IsDistance v m anchor → g.IsDistance w n anchor → m ≤ n
  in_groups : order = (if g.contains anchor then [anchor] else []) ++
    order.flatMap (g.firstReached anchor order)

end Order

variable {V : Type} [DecidableEq V]

/-- The vertices stand in a row one layer above a place: a single one right above it, several at
equal steps over a width of 300 around its middle. -/
structure InRow (laid : Graph V Rat) (row : List V) (below : Position Rat) : Prop where
  single : ∀ v, row = [v] → laid.position v = some ⟨below.x, below.y - 150⟩
  several : 2 ≤ row.length → ∃ step : Rat, (row.length - 1) * step = 300 ∧
    ∀ (i : Nat) (v : V), row[i]? = some v →
      laid.position v = some ⟨below.x - 150 + step * i, below.y - 150⟩

open Classical in
/-- The second graph is the first one, laid out from the anchor at the origin. Nothing but its
positions is new, and every vertex has exactly one. -/
structure LaidOut (g laid : Graph V Rat) (anchor : V) (origin : Position Rat) : Prop where
  outgoing : laid.outgoing = g.outgoing
  incoming : laid.incoming = g.incoming
  finals : laid.finals = g.finals
  placed_once : (laid.layout.map Prod.fst).Nodup
  placed_iff : ∀ v, v ∈ laid.layout.map Prod.fst ↔ g.contains v
  anchored : g.contains anchor → laid.position anchor = some origin
  above : ∀ v n, g.contains v → g.IsDistance v n anchor →
    ∃ x, laid.position v = some ⟨x, origin.y - 150 * n⟩
  rows : ∃ order, g.BreadthFirst anchor order ∧
    laid.layout.map Prod.fst = order ++ g.vertices.filter (fun v => ¬g.Reaches v anchor) ∧
    ∀ v ∈ order, ∃ place, laid.position v = some place ∧
      laid.InRow (g.firstReached anchor order v) place
  below : ∀ (k : Nat) (v : V), (g.vertices.filter fun v => ¬g.Reaches v anchor)[k]? = some v →
    laid.position v = some ⟨origin.x + 300 * k, origin.y + 150⟩

end RegexCompiler.Graph
