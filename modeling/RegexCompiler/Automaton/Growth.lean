import RegexCompiler.Automaton.EpsilonNfa
import RegexCompiler.Graph.Path
import RegexCompiler.Regex.Language

/-!
# What attaching an expression adds

An automaton is built in small steps, each of which gives away a number or adds an edge. Between
two drafts the vertices with the numbers given away meanwhile are minted and some edges are new.
What attaching an expression may and must add is said in these terms, so that whoever attaches
something in front of its entry need not know how it was built.
-/

namespace RegexCompiler.Draft

variable {κ : Type}

/-- What the steps of a construction lead to. It begins with the accepting sink alone. Every edge
begins at the entry of the automaton or at a vertex that is there, and ends at one that is there. -/
inductive Reached : Draft κ → Prop where
  | initial : Reached initial
  | mint {d : Draft κ} : Reached d → Reached d.mint.1
  | addEdge {d : Draft κ} {source target : State} (label : Label) :
      Reached d → source = .start ∨ d.graph.contains source → d.graph.contains target →
        Reached (d.addEdge source target label)
  | note {d : Draft κ} (joins : List Join) : Reached d → Reached { d with joins := joins }

/-- The vertex got its number on the way from one draft to the other. -/
def Minted (d d' : Draft κ) (v : State) : Prop :=
  ∃ n, v = .fresh n ∧ d.next ≤ n ∧ n < d'.next

/-- The edges that a draft has and an earlier one had not. -/
def newArrows (d d' : Draft κ) : Arrows State := fun u label v =>
  d'.graph.Arrow u label v ∧ ¬d.graph.Arrow u label v

/-- What `d'` is to `d` if an expression has been attached in front of `target` and begins at
`entry`. -/
structure Extension (d d' : Draft κ) (r : Regex) (entry target : State) : Prop where
  keeps_vertices : ∀ v, d.graph.contains v → d'.graph.contains v
  keeps_edges : ∀ u label v, d.graph.Arrow u label v → d'.graph.Arrow u label v
  /-- Apart from the entry of the automaton, the minted vertices are those that were not there. -/
  minted_iff : ∀ v,
    Minted d d' v ↔ v ≠ .start ∧ d'.graph.contains v ∧ ¬d.graph.contains v
  new_source : ∀ u label v, newArrows d d' u label v → Minted d d' u ∨ u = .start
  new_target : ∀ u label v, newArrows d d' u label v → Minted d d' v ∨ v = target
  no_return : ∀ u label, ¬newArrows d d' u label .start
  /-- The entry of the automaton is left to the expression with the marked symbol. -/
  start_source : ∀ label v, newArrows d d' .start label v → r.hasStart
  entry_start : r.hasStart → entry = .start
  entry_minted : ¬r.hasStart → Minted d d' entry
  /-- Neither old edges nor the edges of the automaton's entry lead to the beginning. -/
  entered_within : ∀ u label, d'.graph.Arrow u label entry → Minted d d' u
  /-- The new edges alone lead from the entry to the target over the words of the expression. -/
  words : ∀ word, Walk (newArrows d d') entry word target ↔ r.Matches word

end RegexCompiler.Draft
