import RegexCompiler.Graph.Operation
import RegexCompiler.Graph.Path

/-!
# Chronicles of graphs

A chronicle tells what operations have made of a graph, without any table: its vertices, its edges,
its accepting vertices and its positions, each list in the order of the latest insertion. A removal
deletes entries and keeps the order of the rest; what is added again goes to the end. Edges are
found by going through all of them, and what can be reached is said by paths, not by a search.
-/

namespace RegexCompiler

structure Chronicle (V κ : Type) where
  vertices : List V
  edges : List (Edge V)
  finals : List V
  layout : List (V × Position κ)

/-- A list with one more entry at its end, if the entry is new. -/
def enter {α : Type} [DecidableEq α] (entries : List α) (a : α) : List α :=
  if a ∈ entries then entries else entries ++ [a]

/-- An ordered map with a value for a key: in place of the old value, or else at the end. -/
def assign {α β : Type} [DecidableEq α] (a : α) (value : β) : List (α × β) → List (α × β)
  | [] => [(a, value)]
  | (b, old) :: entries =>
    if b = a then (a, value) :: entries else (b, old) :: assign a value entries

/-- The edges of a list with the given near end, each as its label and its far end. -/
def edgesAt {V : Type} [DecidableEq V] (near far : Edge V → V) (edges : List (Edge V)) (v : V) :
    List (Label × V) :=
  (edges.filter (near · = v)).map fun edge => (edge.label, far edge)

namespace Chronicle

variable {V κ : Type} [DecidableEq V]

def empty : Chronicle V κ where
  vertices := []
  edges := []
  finals := []
  layout := []

/-- The edges that leave a vertex, in the order of their latest insertion. -/
def outgoing (log : Chronicle V κ) (v : V) : List (Label × V) :=
  edgesAt Edge.source Edge.target log.edges v

/-- The edges that enter a vertex, in the order of their latest insertion. -/
def incoming (log : Chronicle V κ) (v : V) : List (Label × V) :=
  edgesAt Edge.target Edge.source log.edges v

def Arrow (log : Chronicle V κ) : Arrows V := fun v label w =>
  ⟨v, w, label⟩ ∈ log.edges

/-- The vertex `v` leads to `w` by some path; what is no vertex leads nowhere. -/
def Reaches (log : Chronicle V κ) (v w : V) : Prop :=
  v ∈ log.vertices ∧ ∃ word, Walk log.Arrow v word w

/-- The graph that a chronicle tells of. -/
def graph (log : Chronicle V κ) : Graph V κ where
  outgoing := log.vertices.map fun v => (v, log.outgoing v)
  incoming := log.vertices.map fun v => (v, log.incoming v)
  finals := log.finals
  layout := log.layout

def enterVertex (log : Chronicle V κ) (v : V) : Chronicle V κ :=
  { log with vertices := enter log.vertices v }

/-- Keeps some vertices with the edges between them, their marks and their positions. -/
def restrict (keep : V → Prop) [DecidablePred keep] (log : Chronicle V κ) : Chronicle V κ where
  vertices := log.vertices.filter keep
  edges := log.edges.filter fun edge => keep edge.source ∧ keep edge.target
  finals := log.finals.filter keep
  layout := log.layout.filter fun entry => keep entry.1

variable [Coordinate κ]

open Classical in
/-- What an operation makes of a chronicle. A new layout takes the place of the whole old one. -/
noncomputable def record (log : Chronicle V κ) : Operation V κ → Chronicle V κ
  | .addVertex v => log.enterVertex v
  | .removeVertex v => log.restrict (· ≠ v)
  | .addEdge source target label =>
    { (log.enterVertex source).enterVertex target with
      edges := enter log.edges ⟨source, target, label⟩ }
  | .removeEdge source target label =>
    { log with edges := log.edges.filter (· ≠ ⟨source, target, label⟩) }
  | .markFinal v =>
    if v ∈ log.vertices then { log with finals := enter log.finals v } else log
  | .setPosition v position =>
    if v ∈ log.vertices then { log with layout := assign v position log.layout } else log
  | .clearLayout => { log with layout := [] }
  | .assignLayout anchor origin => { log with layout := log.graph.places anchor origin }
  | .prune v => log.restrict (log.Reaches v)

omit [DecidableEq V] [Coordinate κ] in
/-- Whether an operation answers that it has found something to do. -/
def Answers (log : Chronicle V κ) : Operation V κ → Prop
  | .addVertex v => v ∉ log.vertices
  | .removeVertex v => v ∈ log.vertices
  | .addEdge source target label => ⟨source, target, label⟩ ∉ log.edges
  | .removeEdge source target label => ⟨source, target, label⟩ ∈ log.edges
  | .markFinal v => v ∈ log.vertices ∧ v ∉ log.finals
  | .setPosition v _ => v ∈ log.vertices
  | .clearLayout => True
  | .assignLayout _ _ => True
  | .prune v => ∃ u ∈ log.vertices, ¬log.Reaches v u

noncomputable def ofOperations (operations : List (Operation V κ)) : Chronicle V κ :=
  operations.foldl record empty

/-- No list has an entry twice, and edges, marks and positions only mention vertices of the list. -/
structure Orderly (log : Chronicle V κ) : Prop where
  vertices_nodup : log.vertices.Nodup
  edges_nodup : log.edges.Nodup
  finals_nodup : log.finals.Nodup
  places_nodup : (log.layout.map Prod.fst).Nodup
  ends_mem : ∀ edge ∈ log.edges, edge.source ∈ log.vertices ∧ edge.target ∈ log.vertices
  finals_mem : ∀ v ∈ log.finals, v ∈ log.vertices
  places_mem : ∀ v ∈ log.layout.map Prod.fst, v ∈ log.vertices

/-- A graph that is what the chronicle tells, list by list and order included. -/
structure Tells (log : Chronicle V κ) (g : Graph V κ) : Prop where
  outgoing_keys : g.outgoing.keys = log.vertices
  incoming_keys : g.incoming.keys = log.vertices
  outgoing : ∀ v, g.outgoing.neighbours v = log.outgoing v
  incoming : ∀ v, g.incoming.neighbours v = log.incoming v
  finals : g.finals = log.finals
  layout : g.layout = log.layout

end Chronicle

end RegexCompiler
