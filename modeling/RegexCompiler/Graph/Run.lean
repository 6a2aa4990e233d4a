import RegexCompiler.Graph.Search

/-!
# Running automata

A word is accepted from a vertex if it is spelled by the labels on some way to an accepting vertex,
where ε spells nothing. The simulation keeps the set of all vertices that a run can have reached.
If every vertex has at most one edge for a symbol and none for ε, a single vertex is enough.
-/

namespace RegexCompiler.Graph

variable {V κ : Type} [DecidableEq V]

/-- A list of distinct vertices with the new ones of another list at its end. -/
def merge (members others : List V) : List V :=
  members ++ newcomers members others

/-- The vertices that a run can be at after one more symbol. -/
def step (g : Graph V κ) (c : Char) (current : List V) : List V :=
  (current.flatMap fun v => g.targets v (.symbol c)).foldl
    (fun next target => merge next (g.epsilonClosure target)) []

/-- Whether a run that can be at any of the given vertices can accept the word. A run that can be
nowhere is cut short. -/
def acceptsFrom (g : Graph V κ) (current : List V) : List Char → Bool
  | [] => current.any g.isFinal
  | c :: word =>
    let next := g.step c current
    if next.isEmpty then false else g.acceptsFrom next word

/-- Whether the word leads from the vertex to an accepting one. -/
def accepts (g : Graph V κ) (v : V) (word : List Char) : Bool :=
  g.acceptsFrom (g.epsilonClosure v) word

/-- Whether the walk along the first fitting edges ends at an accepting vertex. -/
def walkAccepts (g : Graph V κ) (v : V) : List Char → Bool
  | [] => g.isFinal v
  | c :: word =>
    match (g.targets v (.symbol c)).head? with
    | some target => g.walkAccepts target word
    | none => false

end RegexCompiler.Graph
