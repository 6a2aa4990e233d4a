import RegexCompiler.Graph.Layout

/-!
# Operations on graphs

The ways in which a graph can come about: every graph is the result of a sequence of these
operations on the empty one. Each operation answers whether it found something to do.
-/

namespace RegexCompiler

/-- One change of a graph. -/
inductive Operation (V κ : Type) where
  | addVertex (v : V)
  | removeVertex (v : V)
  | addEdge (source target : V) (label : Label)
  | removeEdge (source target : V) (label : Label)
  | markFinal (v : V)
  | setPosition (v : V) (position : Position κ)
  | clearLayout
  | assignLayout (anchor : V) (origin : Position κ)
  | prune (v : V)

namespace Operation

variable {V κ : Type} [DecidableEq V]

def apply [Coordinate κ] (g : Graph V κ) : Operation V κ → Graph V κ
  | addVertex v => g.addVertex v
  | removeVertex v => g.removeVertex v
  | addEdge source target label => g.addEdge source target label
  | removeEdge source target label => g.removeEdge source target label
  | markFinal v => g.markFinal v
  | setPosition v position => g.setPosition v position
  | clearLayout => g.clearLayout
  | assignLayout anchor origin => g.assignLayout anchor origin
  | prune v => g.prune v

/-- Whether the operation has something to do: to add what is missing, to remove or to place what
is present. Layouts can always be replaced. -/
def takesEffect (g : Graph V κ) : Operation V κ → Bool
  | addVertex v => !g.contains v
  | removeVertex v => g.contains v
  | addEdge source target label => !g.hasEdge source target label
  | removeEdge source target label => g.hasEdge source target label
  | markFinal v => g.contains v && !g.isFinal v
  | setPosition v _ => g.contains v
  | clearLayout => true
  | assignLayout _ _ => true
  | prune v => !(g.inaccessible v).isEmpty

/-- Operations on positions only; all others add, remove or mark. -/
def isPlacing : Operation V κ → Bool
  | setPosition _ _ => true
  | clearLayout => true
  | assignLayout _ _ => true
  | _ => false

end Operation

/-- The graph that operations build from the empty one, the first operation first. -/
def Graph.ofOperations {V κ : Type} [DecidableEq V] [Coordinate κ]
    (operations : List (Operation V κ)) : Graph V κ :=
  operations.foldl Operation.apply Graph.empty

end RegexCompiler
