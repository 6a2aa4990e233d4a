import RegexCompiler.Automaton.Dfa
import RegexCompiler.Graph.Path

/-!
# Ways of words

What the stages have to make of an automaton, told by the ways through it. Without ε edges there has
to be an edge for every way of one symbol. Then a word leads from the entry to a set of states,
symbol by symbol. The sets that the words over an alphabet lead to, the empty one apart, are what a
deterministic automaton has to be made of.
-/

namespace RegexCompiler.Graph

variable {κ : Type}

/-- The ways of one symbol: over ε edges, over an edge with the symbol and over ε edges again. -/
def Shortcut (g : Graph State κ) : Arrows State := fun v label t =>
  ∃ c u w, label = .symbol c ∧ g.Path v [] u ∧ g.Arrow u (.symbol c) w ∧ g.Path w [] t

/-- The states that a word leads to from the entry. -/
def statesAfter (g : Graph State κ) (word : List Char) : StateSet :=
  word.foldl g.successorSet .entry

/-- The set is not empty, and some word over the alphabet leads to it. The entry alone is such a
set, by the empty word. -/
def Attains (g : Graph State κ) (alphabet : Alphabet) (s : StateSet) : Prop :=
  (∃ v, v ∈ s) ∧ ∃ word, (∀ c ∈ word, c ∈ alphabet) ∧ g.statesAfter word = s

end RegexCompiler.Graph
