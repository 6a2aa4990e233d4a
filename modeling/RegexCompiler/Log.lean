import RegexCompiler.Automaton.Dfa
import RegexCompiler.Automaton.EpsilonNfa
import RegexCompiler.Automaton.Nfa

/-!
# The log of a compilation

Every stage ends with a summary, and on request its single steps are told as well. The records of a
stage are read off its result.
-/

namespace RegexCompiler

inductive LogLevel where
  | debug
  | trace
deriving DecidableEq

def LogLevel.name : LogLevel → String
  | debug => "DEBUG"
  | trace => "TRACE"

/-- The part of a compilation that a record tells about. -/
inductive LogTarget where
  | compiler
  | construction
  | elimination
  | determinization

def LogTarget.name : LogTarget → String
  | compiler => "regraph_lib::pipeline"
  | construction => "regraph_lib::compile::thompson"
  | elimination => "regraph_lib::compile::epsilon_elim"
  | determinization => "regraph_lib::compile::subset"

structure LogRecord where
  level : LogLevel
  target : LogTarget
  message : String

/-- The level, the part of the compilation and the message. -/
def LogRecord.text (record : LogRecord) : String :=
  record.level.name ++ " " ++ record.target.name ++ " " ++ record.message

/-- A name and its fields in braces, as summaries show statistics. -/
def statistics (name : String) (fields : List (String × Nat)) : String :=
  name ++ " \x7b " ++
    String.intercalate ", " (fields.map fun (field, n) => field ++ ": " ++ toString n) ++ " \x7d"

variable {κ : Type}

def Graph.sizes {V : Type} (g : Graph V κ) : String :=
  toString g.vertexCount ++ " vertices, " ++ toString g.edgeCount ++ " edges"

namespace Draft

/-- The alternatives that were joined, and the size of the automaton. -/
def records (d : Draft κ) : List LogRecord :=
  d.joins.map (fun join => ⟨.trace, .construction,
    "union " ++ join.left.name ++ " | " ++ join.right.name ++ " enters at " ++ join.entry.name⟩)
    ++ [⟨.debug, .construction, "thompson: " ++ d.graph.sizes⟩]

end Draft

namespace Elimination

def counts (e : Elimination κ) : List (String × Nat) :=
  [("finals_propagated", e.promoted.length), ("edges_added", e.replicated.length),
    ("epsilons_removed", e.dropped.length), ("vertices_pruned", e.pruned.length)]

/-- The edges that were added and dropped, and the counts. -/
def records (e : Elimination κ) : List LogRecord :=
  e.replicated.map (fun edge => ⟨.trace, .elimination, "replicate " ++ edge.text⟩)
    ++ e.dropped.map (fun edge => ⟨.trace, .elimination, "drop " ++ edge.text⟩)
    ++ [⟨.debug, .elimination, "epsilon elimination: " ++ e.graph.sizes ++ ", "
      ++ statistics "EliminationStats" e.counts⟩]

end Elimination

namespace Determinization

def counts (d : Determinization κ) : List (String × Nat) :=
  [("states", d.graph.vertexCount), ("transitions", d.graph.edgeCount),
    ("pruned", d.pruned.length)]

/-- The edges that were found, and the counts; only that the entry is missing if it is. -/
def records (d : Determinization κ) : List LogRecord :=
  if d.graph.contains .entry then
    d.transitions.map (fun edge => ⟨.trace, .determinization, edge.text⟩)
      ++ [⟨.debug, .determinization, "subset construction: " ++ statistics "SubsetStats" d.counts⟩]
  else [⟨.debug, .determinization, "subset construction: NFA has no start vertex"⟩]

end Determinization

end RegexCompiler
