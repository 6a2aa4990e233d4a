import RegexCompiler.Graph.Search

/-!
# Automata without ε edges

A vertex accepts without ε edges if it led to an accepting vertex over ε edges alone. It reads a
symbol like every vertex that it led to over ε edges, and can then be at every vertex to which the
target leads over ε edges. With these edges added the ε edges are superfluous; they are dropped,
and so are the vertices that nothing leads to any more.
-/

namespace RegexCompiler

/-- The result of removing the ε edges, and what was done on the way. -/
structure Elimination (κ : Type) where
  graph : Graph State κ
  /-- The vertices that became accepting. -/
  promoted : List State
  /-- The edges that were added. -/
  replicated : List (Edge State)
  /-- The ε edges. -/
  dropped : List (Edge State)
  /-- The vertices that nothing led to. -/
  pruned : List State

namespace Graph

variable {κ : Type}

/-- The vertices with their ε closures. -/
def closures (g : Graph State κ) : List (State × List State) :=
  g.vertices.map fun v => (v, g.epsilonClosure v)

/-- The vertices that lead to an accepting vertex over ε edges and do not accept themselves. -/
def silentlyFinal (g : Graph State κ) (closures : List (State × List State)) : List State :=
  (closures.filter fun (v, closure) => !g.isFinal v && closure.any g.isFinal).map Prod.fst

/-- The edges that replace the ways of one symbol and any number of ε edges, vertex by vertex. -/
def replicas (g : Graph State κ) (closures : List (State × List State)) : List (Edge State) :=
  closures.flatMap fun (v, closure) => closure.flatMap fun u =>
    ((g.outgoing.neighbours u).filter (!·.1.isEpsilon)).flatMap fun (label, w) =>
      ((closures.lookup w).getD []).map fun target => ⟨v, target, label⟩

/-- Adds an edge and notes it if it is new; the last note comes first. -/
def noteEdge (noted : Graph State κ × List (Edge State)) (edge : Edge State) :
    Graph State κ × List (Edge State) :=
  let (g, added) := noted
  if g.hasEdge edge.source edge.target edge.label then (g, added)
  else (g.addEdge edge.source edge.target edge.label, edge :: added)

/-- Adds edges and lists those that were new. -/
def addEdges (g : Graph State κ) (edges : List (Edge State)) : Graph State κ × List (Edge State) :=
  let (g, added) := edges.foldl noteEdge (g, [])
  (g, added.reverse)

/-- Removes the ε edges and keeps the words that lead from the entry to an accepting vertex. -/
def eliminateEpsilons (g : Graph State κ) : Elimination κ :=
  let closures := g.closures
  let promoted := g.silentlyFinal closures
  let (saturated, replicated) := (promoted.foldl markFinal g).addEdges (g.replicas closures)
  let dropped := saturated.edges.filter (·.label.isEpsilon)
  let free := dropped.foldl (fun g edge => g.removeEdge edge.source edge.target edge.label) saturated
  { graph := free.prune .start
    promoted := promoted
    replicated := replicated
    dropped := dropped
    pruned := free.inaccessible .start }

end Graph

end RegexCompiler
