/-!
# Invocations of the program

What a user can ask the program for: the outline of an expression, its automata as text or as JSON,
or the verdicts on a list of inputs.
-/

namespace RegexCompiler.Command

inductive ColourChoice where
  /-- Only on a terminal. -/
  | auto
  | always
  | never
deriving DecidableEq

namespace ColourChoice

def ofName? : String → Option ColourChoice
  | "auto" => some auto
  | "always" => some always
  | "never" => some never
  | _ => none

/-- What is said about a name that is no choice. -/
def refusal (name : String) : String :=
  "unknown color mode '" ++ name ++ "'"

/-- Whether output is coloured, given whether it goes to a terminal. -/
def colours (choice : ColourChoice) (terminal : Bool) : Bool :=
  match choice with
  | auto => terminal
  | always => true
  | never => false

end ColourChoice

inductive StageChoice where
  | epsilonNfa
  | nfa
  | dfa
  | all
deriving DecidableEq

def StageChoice.ofName? : String → Option StageChoice
  | "enfa" => some epsilonNfa
  | "nfa" => some nfa
  | "dfa" => some dfa
  | "all" => some all
  | _ => none

inductive OutputFormat where
  | text
  | json
deriving DecidableEq

def OutputFormat.ofName? : String → Option OutputFormat
  | "text" => some text
  | "json" => some json
  | _ => none

inductive Task where
  | ast
  | dump (stage : StageChoice) (format : OutputFormat) (layout : Bool)
  /-- Tell which inputs belong to its language. -/
  | check (inputs : List String)

structure Invocation where
  task : Task
  regex : String
  /-- The symbols of the alphabet in one text. -/
  alphabet : String
  colour : ColourChoice
  /-- How many times more detail in the log was asked for. -/
  verbosity : Nat

end RegexCompiler.Command
