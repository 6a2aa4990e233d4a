import RegexCompiler.Command.Invocation
import RegexCompiler.Compiler
import RegexCompiler.Diagnostic
import RegexCompiler.Graph.Snapshot
import RegexCompiler.Regex.Outline
import RegexCompiler.Text.ControlCodes

/-!
# Running requests

A request ends with an exit status and with texts for the two output streams. The status tells
whether an input was rejected (1) or the request itself made no sense (2).
-/

namespace RegexCompiler.Command

/-- What a run leaves behind. -/
structure Outcome where
  status : Nat
  output : String
  errors : String

/-- The end of a run that could not begin. -/
def refused (log reason : String) : Outcome where
  status := 2
  output := ""
  errors := log ++ reason ++ "\n"

/-- The records that a user who asked for more detail so often wants to see. -/
def wanted (verbosity : Nat) (record : LogRecord) : Bool :=
  match record.level with
  | .debug => 1 ≤ verbosity
  | .trace => 2 ≤ verbosity

/-- A record as a line of the error stream. A symbol in it must not act on the terminal, so all
control codes are taken out. -/
def logLine (record : LogRecord) : String :=
  Text.withoutCodes
    ("[" ++ record.level.name ++ " " ++ record.target.name ++ "] " ++ record.message ++ "\n")

/-- The log of compiling a text, in the detail asked for. -/
def compilationLog (compiler : Compiler) (verbosity : Nat) (text : String) : String :=
  if verbosity = 0 then ""
  else String.join (((compiler.records text).filter (wanted verbosity)).map logLine)

/-- The automata as text: the chosen one alone, or all of them under headings. -/
def automataText (automata : Automata Float) (stage : StageChoice) (palette : Palette) : String :=
  let epsilonNfa := automata.epsilonNfa.listing palette false
  let nfa := automata.nfa.listing palette false
  let dfa := automata.dfa.listing palette false
  match stage with
  | .epsilonNfa => epsilonNfa
  | .nfa => nfa
  | .dfa => dfa
  | .all =>
    "# ε-NFA\n" ++ epsilonNfa ++ "\n" ++ "# NFA\n" ++ nfa ++ "\n" ++ "# DFA\n" ++ dfa

/-- The automata as JSON: the chosen one alone, or all of them by name. -/
def automataJson (automata : Automata Float) (stage : StageChoice) : Json :=
  let epsilonNfa := automata.epsilonNfa.snapshot.toJson
  let nfa := automata.nfa.snapshot.toJson
  let dfa := automata.dfa.snapshot.toJson
  match stage with
  | .epsilonNfa => epsilonNfa
  | .nfa => nfa
  | .dfa => dfa
  | .all => .record [("epsilon_nfa", epsilonNfa), ("nfa", nfa), ("dfa", dfa)]

/-- The line with the verdict on one input. -/
def verdictLine (automata : Automata Float) (palette : Palette) (input : String) : String :=
  let verdict :=
    if automata.accepts input.toList then palette.accept ++ "accept" else palette.muted ++ "reject"
  verdict ++ palette.reset ++ "  " ++ Text.quoted input ++ "\n"

/-- The verdicts on all inputs; the status tells whether all are accepted. -/
def verdicts (automata : Automata Float) (palette : Palette) (inputs : List String) :
    Nat × String :=
  (if inputs.all fun input => automata.accepts input.toList then 0 else 1,
    String.join (inputs.map (verdictLine automata palette)))

/-- Carries out a request with an alphabet that makes sense. -/
def runOver (invocation : Invocation) (coloured : Bool) (alphabet : Alphabet) : Outcome :=
  let palette := Palette.choose coloured
  let compiler : Compiler := { alphabet := alphabet }
  match invocation.task with
  | .ast =>
    match compiler.parse invocation.regex with
    | .error fault => refused "" (fault.render invocation.regex coloured)
    | .ok regex => ⟨0, regex.outline palette, ""⟩
  | .dump stage format layout =>
    let compiler := { compiler with layout := layout }
    let log := compilationLog compiler invocation.verbosity invocation.regex
    match compiler.compile Float invocation.regex with
    | .error fault => refused log (fault.render invocation.regex coloured)
    | .ok automata =>
      match format with
      | .text => ⟨0, automataText automata stage palette, log⟩
      | .json => ⟨0, (automataJson automata stage).pretty ++ "\n", log⟩
  | .check inputs =>
    let log := compilationLog compiler invocation.verbosity invocation.regex
    match compiler.compile Float invocation.regex with
    | .error fault => refused log (fault.render invocation.regex coloured)
    | .ok automata =>
      let (status, report) := verdicts automata palette inputs
      ⟨status, report, log⟩

/-- Carries out a request, given whether the output goes to a terminal. -/
def run (invocation : Invocation) (terminal : Bool) : Outcome :=
  match Alphabet.ofText invocation.alphabet with
  | .error refusal => refused "" ("error: " ++ refusal.message)
  | .ok alphabet => runOver invocation (invocation.colour.colours terminal) alphabet

end RegexCompiler.Command
