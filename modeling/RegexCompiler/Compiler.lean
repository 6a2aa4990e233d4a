import RegexCompiler.Graph.Layout
import RegexCompiler.Graph.Run
import RegexCompiler.Log
import RegexCompiler.Regex.Parser
import RegexCompiler.Text.Quoted

/-!
# Compiling expressions

A compiler is set to an alphabet. It reads a text as an expression and builds three automata for
it: one with ε edges, one without them and a deterministic one. All accept the same words.
-/

namespace RegexCompiler

/-- The automata of an expression before they are laid out, with all that was done to get them. -/
structure Stages (κ : Type) where
  draft : Draft κ
  elimination : Elimination κ
  determinization : Determinization κ

namespace Stages

variable {κ : Type}

/-- Builds the three automata one from the other. -/
def ofRegex (alphabet : Alphabet) (regex : Regex) : Stages κ :=
  let draft := Draft.ofRegex regex
  let elimination := draft.graph.eliminateEpsilons
  { draft := draft
    elimination := elimination
    determinization := elimination.graph.determinize alphabet }

def records (stages : Stages κ) : List LogRecord :=
  stages.draft.records ++ stages.elimination.records ++ stages.determinization.records

end Stages

structure Automata (κ : Type) where
  regex : Regex
  epsilonNfa : Graph State κ
  nfa : Graph State κ
  dfa : Graph StateSet κ

namespace Automata

variable {κ : Type}

def ofStages (regex : Regex) (stages : Stages κ) : Automata κ where
  regex := regex
  epsilonNfa := stages.draft.graph
  nfa := stages.elimination.graph
  dfa := stages.determinization.graph

/-- Gives every vertex a position. An automaton is laid out from its accepting sink; where that is
gone, the nondeterministic one is laid out from its entry, and the deterministic one from the
accepting vertex that was found first. -/
def withLayout [Coordinate κ] (automata : Automata κ) : Automata κ :=
  let nfaAnchor := if automata.nfa.contains .final then .final else .start
  let dfaAnchor := automata.dfa.finals.head?.getD .entry
  { automata with
    epsilonNfa := automata.epsilonNfa.assignLayout .final Graph.drawingOrigin
    nfa := automata.nfa.assignLayout nfaAnchor Graph.drawingOrigin
    dfa := automata.dfa.assignLayout dfaAnchor Graph.drawingOrigin }

/-- Runs a word through a deterministic automaton, from vertex to vertex. -/
def runDfa (dfa : Graph StateSet κ) (word : List Char) : Bool :=
  dfa.contains .entry && dfa.walkAccepts .entry word

/-- Whether the word belongs to the language of the expression. -/
def accepts (automata : Automata κ) (word : List Char) : Bool :=
  runDfa automata.dfa word

end Automata

structure Compiler where
  alphabet : Alphabet := .standard
  /-- Whether the vertices of the automata get positions. -/
  layout : Bool := true
  /-- How deep an expression may nest, if there is a limit. -/
  limit : Option Nat := some Regex.standardLimit

namespace Compiler

def parse (compiler : Compiler) (text : String) : Except Fault Regex :=
  Regex.parse compiler.alphabet compiler.limit text.toList

/-- Reads an expression and builds its automata. -/
def compile (compiler : Compiler) (κ : Type) [Coordinate κ] (text : String) :
    Except Fault (Automata κ) := do
  let regex ← compiler.parse text
  let automata := Automata.ofStages regex (Stages.ofRegex compiler.alphabet regex)
  return if compiler.layout then automata.withLayout else automata

/-- The log of compiling a text, which ends early if the text is no expression. -/
def records (compiler : Compiler) (text : String) : List LogRecord :=
  ⟨.debug, .compiler, "compiling " ++ Text.quoted text ++ " over " ++ compiler.alphabet.text⟩ ::
    match compiler.parse text with
    | .ok regex => (Stages.ofRegex compiler.alphabet regex : Stages Float).records
    | .error _ => []

end Compiler

end RegexCompiler
