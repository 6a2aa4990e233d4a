import RegexCompiler.Alphabet
import RegexCompiler.Graph.Search

/-!
# Deterministic automata

The deterministic automaton runs all ways of a nondeterministic one at once: its vertices are the
sets of states in which the ways can be after the same word. Only the sets that some word leads to
are made, each once, shorter words first. Symbols outside the alphabet are not followed, and the
empty set is no vertex.
-/

namespace RegexCompiler

/-- The deterministic automaton, and what was found on the way. -/
structure Determinization (κ : Type) where
  graph : Graph StateSet κ
  /-- The edges in the order of their discovery. -/
  transitions : List (Edge StateSet)
  /-- The sets that nothing leads to. -/
  pruned : List StateSet

namespace Graph

variable {κ : Type}

/-- The states to which a symbol leads from the members of a set. -/
def successorSet (g : Graph State κ) (s : StateSet) (c : Char) : StateSet :=
  .ofList (s.members.flatMap fun v => g.targets v (.symbol c))

/-- The symbols that lead anywhere from a set, in ascending order, with the sets they lead to. -/
def moves (g : Graph State κ) (alphabet : Alphabet) (s : StateSet) : List (Char × StateSet) :=
  alphabet.symbols.filterMap fun c =>
    let next := g.successorSet s c
    if next.members.isEmpty then none else some (c, next)

/-- The sets that one symbol of the alphabet leads to. -/
def nextSets (g : Graph State κ) (alphabet : Alphabet) (s : StateSet) : List StateSet :=
  (g.moves alphabet s).map Prod.snd

theorem mem_mentioned_of_mem_successorSet {g : Graph State κ} {s : StateSet} {c : Char} {v : State}
    (h : v ∈ g.successorSet s c) : v ∈ g.outgoing.mentioned := by
  obtain ⟨u, _, hv⟩ := List.mem_flatMap.mp (StateSet.mem_ofList.mp h)
  obtain ⟨⟨label, _⟩, hn, rfl⟩ := List.mem_map.mp hv
  exact (Adjacency.mem_mentioned (List.mem_filter.mp hn).1).2

theorem nextSets_bounded (g : Graph State κ) (alphabet : Alphabet) :
    Bounded (g.nextSets alphabet) :=
  ⟨StateSet.subsets g.outgoing.mentioned, fun s t ht => by
    obtain ⟨⟨c, _⟩, hm, rfl⟩ := List.mem_map.mp ht
    obtain ⟨d, _, hd⟩ := List.mem_filterMap.mp hm
    refine StateSet.mem_subsets fun v hv => ?_
    by_cases he : (g.successorSet s d).members.isEmpty
    · simp [he] at hd
    · simp only [he] at hd
      injection hd with hd
      injection hd with _ hd
      exact mem_mentioned_of_mem_successorSet (hd ▸ hv)⟩

/-- The sets that words over the alphabet lead to, in the order in which they are found. -/
def reachableSets (g : Graph State κ) (alphabet : Alphabet) : List StateSet :=
  (breadthFirst (g.nextSets alphabet) (g.nextSets_bounded alphabet) [.entry] [.entry]).map Prod.fst

/-- The edges that leave a set. -/
def transitionsFrom (g : Graph State κ) (alphabet : Alphabet) (s : StateSet) :
    List (Edge StateSet) :=
  (g.moves alphabet s).map fun (c, target) => ⟨s, target, .symbol c⟩

/-- Adds the mark and the edges of a set. -/
def installSet (g : Graph State κ) (alphabet : Alphabet) (dfa : Graph StateSet κ) (s : StateSet) :
    Graph StateSet κ :=
  (g.transitionsFrom alphabet s).foldl
    (fun dfa edge => dfa.addEdge edge.source edge.target edge.label)
    (if s.members.any g.isFinal then dfa.markFinal s else dfa)

/-- Builds the deterministic automaton over an alphabet. Without an entry there is nothing to
build. -/
def determinize (g : Graph State κ) (alphabet : Alphabet) : Determinization κ :=
  if g.contains .start then
    let sets := g.reachableSets alphabet
    let dfa := sets.foldl (g.installSet alphabet) (empty.addVertex .entry)
    { graph := dfa.prune .entry
      transitions := sets.flatMap (g.transitionsFrom alphabet)
      pruned := dfa.inaccessible .entry }
  else { graph := empty, transitions := [], pruned := [] }

end Graph

end RegexCompiler
