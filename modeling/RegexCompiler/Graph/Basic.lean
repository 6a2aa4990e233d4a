import RegexCompiler.Graph.Edge

/-!
# Labelled graphs

A graph keeps two tables, the edges by source and the edges by target, the accepting vertices and
a position for some vertices. Everything is kept in the order of its insertion: a removal leaves
the order of the rest, and what is added again goes to the end. An edge is present once.

The positions only matter to drawings. Their coordinates are of any type, so that the arithmetic of
layouts can be studied with exact numbers.
-/

namespace RegexCompiler

/-- A place in a drawing. -/
structure Position (κ : Type) where
  x : κ
  y : κ

/-- For each vertex the labels and far ends of its edges in one direction. -/
abbrev Adjacency (V : Type) := List (V × List (Label × V))

namespace Adjacency

variable {V : Type} [DecidableEq V]

/-- The vertices that have an entry. -/
def keys (table : Adjacency V) : List V :=
  table.map Prod.fst

/-- The edges at a vertex; none if it has no entry. -/
def neighbours (table : Adjacency V) (v : V) : List (Label × V) :=
  (table.lookup v).getD []

def modify (v : V) (change : List (Label × V) → List (Label × V)) : Adjacency V → Adjacency V
  | [] => []
  | (u, edges) :: table =>
    if u = v then (u, change edges) :: table else (u, edges) :: modify v change table

/-- Removes the entry of a vertex; other entries may still mention it. -/
def eraseEntry (v : V) (table : Adjacency V) : Adjacency V :=
  table.filter (·.1 ≠ v)

/-- Removes the mentions of a vertex from the entries of other vertices. Which entries these are is
known from the edges at the vertex in the opposite direction. -/
def unlink (v : V) (edges : List (Label × V)) (table : Adjacency V) : Adjacency V :=
  edges.foldl (fun table (label, far) => table.modify far (·.erase (label, v))) table

end Adjacency

/-- An automaton's graph. -/
structure Graph (V κ : Type) where
  outgoing : Adjacency V
  incoming : Adjacency V
  /-- The accepting vertices. -/
  finals : List V
  layout : List (V × Position κ)

namespace Graph

variable {V κ : Type} [DecidableEq V]

def empty : Graph V κ where
  outgoing := []
  incoming := []
  finals := []
  layout := []

/-- The vertices in the order of their insertion. -/
def vertices (g : Graph V κ) : List V :=
  g.outgoing.keys

def contains (g : Graph V κ) (v : V) : Bool :=
  (g.outgoing.lookup v).isSome

/-- The edges source by source, and for each source in the order of their insertion. -/
def edges (g : Graph V κ) : List (Edge V) :=
  g.outgoing.flatMap fun (source, edges) => edges.map fun (label, target) => ⟨source, target, label⟩

def vertexCount (g : Graph V κ) : Nat :=
  g.outgoing.length

def edgeCount (g : Graph V κ) : Nat :=
  g.edges.length

def hasEdge (g : Graph V κ) (source target : V) (label : Label) : Bool :=
  (label, target) ∈ g.outgoing.neighbours source

def hasIncoming (g : Graph V κ) (v : V) : Bool :=
  !(g.incoming.neighbours v).isEmpty

/-- The far ends of the edges of one label at a vertex. -/
def targets (g : Graph V κ) (v : V) (label : Label) : List V :=
  ((g.outgoing.neighbours v).filter (·.1 = label)).map Prod.snd

def isFinal (g : Graph V κ) (v : V) : Bool :=
  v ∈ g.finals

/-- The position of a vertex, if it has one. -/
def position (g : Graph V κ) (v : V) : Option (Position κ) :=
  g.layout.lookup v

/-- Adds a vertex without edges, if it is new. -/
def addVertex (g : Graph V κ) (v : V) : Graph V κ :=
  if g.contains v then g
  else { g with outgoing := g.outgoing ++ [(v, [])], incoming := g.incoming ++ [(v, [])] }

/-- Adds an edge, if it is new, and the vertices at its ends, the source first. -/
def addEdge (g : Graph V κ) (source target : V) (label : Label) : Graph V κ :=
  let g := (g.addVertex source).addVertex target
  if g.hasEdge source target label then g
  else { g with
    outgoing := g.outgoing.modify source (· ++ [(label, target)])
    incoming := g.incoming.modify target (· ++ [(label, source)]) }

/-- Removes an edge; its ends stay. -/
def removeEdge (g : Graph V κ) (source target : V) (label : Label) : Graph V κ :=
  if g.hasEdge source target label then
    { g with
      outgoing := g.outgoing.modify source (·.erase (label, target))
      incoming := g.incoming.modify target (·.erase (label, source)) }
  else g

/-- Removes a vertex with all its edges, its mark and its position. What the first table says about
the vertex is undone in the second one, and then the other way round. -/
def removeVertex (g : Graph V κ) (v : V) : Graph V κ :=
  if g.contains v then
    let incoming := g.incoming.unlink v (g.outgoing.neighbours v)
    { outgoing := (g.outgoing.eraseEntry v).unlink v (incoming.neighbours v)
      incoming := incoming.eraseEntry v
      finals := g.finals.filter (· ≠ v)
      layout := g.layout.filter (·.1 ≠ v) }
  else g

/-- Makes a vertex accepting; what is no vertex stays unmarked. -/
def markFinal (g : Graph V κ) (v : V) : Graph V κ :=
  if g.contains v && !g.isFinal v then { g with finals := g.finals ++ [v] } else g

/-- Puts an entry at its place in the layout: a new one goes to the end, a present one stays where
it is. -/
def place (layout : List (V × Position κ)) (v : V) (position : Position κ) :
    List (V × Position κ) :=
  if (layout.lookup v).isSome then
    layout.map fun (u, old) => if u = v then (u, position) else (u, old)
  else layout ++ [(v, position)]

/-- Gives a vertex a position; what is no vertex gets none. -/
def setPosition (g : Graph V κ) (v : V) (position : Position κ) : Graph V κ :=
  if g.contains v then { g with layout := place g.layout v position } else g

def clearLayout (g : Graph V κ) : Graph V κ :=
  { g with layout := [] }

end Graph

end RegexCompiler
