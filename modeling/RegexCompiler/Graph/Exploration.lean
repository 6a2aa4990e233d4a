import Mathlib.Logic.Relation
import RegexCompiler.Graph.Path
import RegexCompiler.Graph.Search

/-!
# Searches as loops

The two searches once more, as loops that go from round to round. A round takes one of the vertices
that are pending, and others take its place. The search over ε edges puts a vertex on its stack as
often as it is met before its turn, so the stack can grow in a round, and a round may find nothing.
Nothing in the form of the loops shows that they end.
-/

namespace RegexCompiler

/-- What a search has found, in this order, and the vertices that wait for their turn. -/
structure Exploration (V : Type) where
  pending : List V
  found : List V

/-- A loop goes through so many rounds from one state to another, and there it is over. -/
inductive EndsAfter {σ : Type} (round : σ → Option σ) : Nat → σ → σ → Prop where
  | ended {s : σ} : round s = none → EndsAfter round 0 s s
  | round {k : Nat} {s t u : σ} :
      round s = some t → EndsAfter round k t u → EndsAfter round (k + 1) s u

/-- The list begins with a vertex and holds all that the relation leads to from there over any
number of steps, each once, and nothing else. -/
structure ListsFrom {V : Type} (leads : V → V → Prop) (v : V) (found : List V) : Prop where
  first : found.head? = some v
  nodup : found.Nodup
  mem_iff : ∀ w, w ∈ found ↔ Relation.ReflTransGen leads v w

namespace Graph

variable {V κ : Type} [DecidableEq V]

/-- Puts a vertex on the stack unless it has been found. -/
def push (found stack : List V) (v : V) : List V :=
  if v ∈ found then stack else v :: stack

/-- One round of the search over ε edges. The vertex on top of the stack is passed over if it has
been found before. If not, it is found now, and the ends of its ε edges are put on the stack one
after the other. -/
def silentRound (g : Graph V κ) (e : Exploration V) : Option (Exploration V) :=
  match e.pending with
  | [] => none
  | v :: stack =>
    if v ∈ e.found then some { e with pending := stack }
    else
      let found := e.found ++ [v]
      some { pending := (g.targets v .epsilon).foldl (push found) stack, found := found }

/-- A vertex that is met for the first time is found, and it is put at the end of the queue. -/
def discover (e : Exploration V) (v : V) : Exploration V :=
  if v ∈ e.found then e else { pending := e.pending ++ [v], found := e.found ++ [v] }

/-- One round of the breadth-first search: the first vertex of the queue is taken, and the ends of
its edges are met in order. -/
def breadthRound (g : Graph V κ) (e : Exploration V) : Option (Exploration V) :=
  match e.pending with
  | [] => none
  | v :: queue =>
    some ((g.outgoing.neighbours v).foldl (fun e (_, w) => discover e w)
      { e with pending := queue })

end Graph

end RegexCompiler
