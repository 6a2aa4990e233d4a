import RegexCompiler.Command.Arguments
import RegexCompiler.Command.Run

/-!
# The program

Reads the arguments, carries out the request and leaves with its status.
-/

namespace RegexCompiler

def usage : String :=
  "Usage:\n"
    ++ "  ast <REGEX> [-a <SYMBOLS>]\n"
    ++ "  dump <REGEX> [-a <SYMBOLS>] [--stage <STAGE>] [--format <FORMAT>] [--no-layout]\n"
    ++ "  check <REGEX> <INPUT>... [-a <SYMBOLS>]\n"
    ++ "Options: [--color <WHEN>] [-v]... [-h]\n"

end RegexCompiler

open RegexCompiler

/-- The whole program; a request for help is no failure. -/
def main (arguments : List String) : IO UInt32 := do
  match Command.read arguments with
  | .error .helpAsked =>
    IO.print usage
    return 0
  | .error _ =>
    IO.eprint usage
    return 2
  | .ok invocation =>
    let terminal := (← (← IO.getStdout).isTty) && (← (← IO.getStderr).isTty)
    let outcome := Command.run invocation terminal
    IO.eprint outcome.errors
    IO.print outcome.output
    return outcome.status.toUInt32
