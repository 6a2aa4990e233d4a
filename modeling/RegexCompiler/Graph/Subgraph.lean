import RegexCompiler.Graph.Search

/-!
# Induced subgraphs

What is left of a graph if only some of its vertices are kept: the edges between them, their marks
and their positions, every list in its old order. Pruning is meant to be repeated until a round
removes nothing.
-/

namespace RegexCompiler

variable {V κ : Type}

/-- The entries of the kept vertices, each with its edges to kept vertices. -/
def Adjacency.restrict (keep : V → Prop) [DecidablePred keep] (table : Adjacency V) : Adjacency V :=
  (table.filter fun (v, _) => keep v).map fun (v, edges) =>
    (v, edges.filter fun (_, far) => keep far)

namespace Graph

/-- The subgraph of some vertices. -/
def restrict (keep : V → Prop) [DecidablePred keep] (g : Graph V κ) : Graph V κ where
  outgoing := g.outgoing.restrict keep
  incoming := g.incoming.restrict keep
  finals := g.finals.filter keep
  layout := g.layout.filter fun (v, _) => keep v

variable [DecidableEq V]

/-- Rounds of pruning lead from the first graph to the second one, the last of them the first one
that finds nothing to remove. -/
inductive PruneRounds (v : V) : Graph V κ → Graph V κ → Prop where
  | last {g : Graph V κ} : g.inaccessible v = [] → PruneRounds v g (g.prune v)
  | next {g g' : Graph V κ} :
      g.inaccessible v ≠ [] → PruneRounds v (g.prune v) g' → PruneRounds v g g'

end Graph

end RegexCompiler
