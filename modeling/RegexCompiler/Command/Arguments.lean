import RegexCompiler.Command.Invocation

/-!
# Reading the arguments

Arguments are read from left to right and the first fault decides. An option takes its value from
the same argument or from the next one; the value is judged when the next argument shows that it is
complete. After `--` every argument stands for itself.
-/

namespace RegexCompiler.Command

/-- Why the arguments make no request. A wish for help is one of the reasons. -/
inductive UsageError where
  | nothingAsked
  | helpAsked
  | noSubcommand
  | unknownSubcommand
  | missingArgument
  | unknownArgument
  | badValue
  | repeated
  | needlessValue
deriving DecidableEq

inductive ArgumentShape where
  /-- Two hyphens alone. -/
  | divider
  /-- An option written out, with the value after `=` if there is one. -/
  | long (name : String) (value : Option String)
  | short (letters : List Char)
  /-- All else, a single hyphen included. -/
  | plain

/-- The shape of an argument, as its hyphens show. -/
def ArgumentShape.of (argument : String) : ArgumentShape :=
  match argument.toList with
  | ['-', '-'] => divider
  | '-' :: '-' :: text =>
    let name := String.ofList (text.takeWhile (· ≠ '='))
    match text.dropWhile (· ≠ '=') with
    | [] => long name none
    | _ :: value => long name (some (String.ofList value))
  | '-' :: letter :: letters => short (letter :: letters)
  | _ => plain

inductive Subcommand where
  | ast
  | dump
  | check
deriving DecidableEq

inductive Setting where
  | alphabet
  | colour
  | stage
  | format
deriving DecidableEq

/-- The option of a subcommand with the given name. -/
def Setting.ofName? (subcommand : Subcommand) : String → Option Setting
  | "alphabet" => some alphabet
  | "color" => some colour
  | "stage" => if subcommand = .dump then some stage else none
  | "format" => if subcommand = .dump then some format else none
  | _ => none

/-- What has been read of the arguments of a subcommand. -/
structure Reading where
  regex : Option String := none
  inputs : List String := []
  alphabet : Option String := none
  colour : Option ColourChoice := none
  stage : Option StageChoice := none
  format : Option OutputFormat := none
  noLayout : Bool := false
  /-- How often `-v` was given, if at all. -/
  verbosity : Option Nat := none
  /-- The option that was read last, with its value once that has been read. -/
  pending : Option (Setting × Option String) := none

/-- Counts one more `-v`; the count stays at 255. -/
def countVerbose (count : Option Nat) : Option Nat :=
  some (min 255 (count.getD 0 + 1))

namespace Reading

def isSet (r : Reading) : Setting → Bool
  | .alphabet => r.alphabet.isSome
  | .colour => r.colour.isSome
  | .stage => r.stage.isSome
  | .format => r.format.isSome

/-- Takes over the value of an option, which can be given once. -/
def assign (r : Reading) (setting : Setting) (value : String) : Except UsageError Reading :=
  if r.isSet setting then .error .repeated
  else
    match setting with
    | .alphabet => .ok { r with alphabet := some value }
    | .colour =>
      match ColourChoice.ofName? value with
      | some choice => .ok { r with colour := some choice }
      | none => .error .badValue
    | .stage =>
      match StageChoice.ofName? value with
      | some choice => .ok { r with stage := some choice }
      | none => .error .badValue
    | .format =>
      match OutputFormat.ofName? value with
      | some choice => .ok { r with format := some choice }
      | none => .error .badValue

/-- Judges the option that was read last. -/
def settle (r : Reading) : Except UsageError Reading :=
  match r.pending with
  | none => .ok r
  | some (_, none) => .error .badValue
  | some (setting, some value) => { r with pending := none }.assign setting value

/-- Reads an option whose value is still to come. -/
def expect (r : Reading) (setting : Setting) : Except UsageError Reading := do
  let r ← r.settle
  return { r with pending := some (setting, none) }

def attach (r : Reading) (setting : Setting) (value : String) : Except UsageError Reading := do
  let r ← r.settle
  r.assign setting value

def addPositional (subcommand : Subcommand) (r : Reading) (argument : String) :
    Except UsageError Reading :=
  match r.regex, subcommand with
  | none, _ => do
    let r ← r.settle
    return { r with regex := some argument }
  | some _, .check => do
    let r ← r.settle
    return { r with inputs := r.inputs ++ [argument] }
  | some _, _ => .error .unknownArgument

def addLong (subcommand : Subcommand) (r : Reading) (name : String) (value : Option String) :
    Except UsageError Reading :=
  match Setting.ofName? subcommand name, value with
  | some setting, none => r.expect setting
  | some setting, some value => r.attach setting value
  | none, value =>
    if name = "help" ∨ (name = "no-layout" ∧ subcommand = .dump) then
      match value with
      | some _ => .error .needlessValue
      | none => do
        let r ← r.settle
        if name = "help" then .error .helpAsked
        else if r.noLayout then .error .repeated
        else return { r with noLayout := true }
    else .error .unknownArgument

/-- Reads one-letter options. The letter of the alphabet takes the other letters as its value. -/
def addShort (r : Reading) : List Char → Except UsageError Reading
  | [] => .ok r
  | 'v' :: letters => do
    let r ← r.settle
    { r with verbosity := countVerbose r.verbosity }.addShort letters
  | 'h' :: _ => do
    let _ ← r.settle
    .error .helpAsked
  | 'a' :: [] => r.expect .alphabet
  | 'a' :: '=' :: value => r.attach .alphabet (String.ofList value)
  | 'a' :: value => r.attach .alphabet (String.ofList value)
  | _ :: _ => .error .unknownArgument

def ofArguments (subcommand : Subcommand) (r : Reading) : List String → Except UsageError Reading
  | [] => r.settle
  | argument :: arguments =>
    match ArgumentShape.of argument with
    | .divider => do
      let r ← arguments.foldlM (addPositional subcommand) r
      r.settle
    | .long name value => do
      (← r.addLong subcommand name value).ofArguments subcommand arguments
    | .short letters => do
      (← r.addShort letters).ofArguments subcommand arguments
    | .plain =>
      match r.pending with
      | some (setting, none) =>
        { r with pending := some (setting, some argument) }.ofArguments subcommand arguments
      | _ => do
        (← r.addPositional subcommand argument).ofArguments subcommand arguments

/-- The request, if nothing is missing. A count of `-v` after the subcommand replaces one before
it. -/
def invocation (subcommand : Subcommand) (verbosity : Nat) (r : Reading) :
    Except UsageError Invocation := do
  let some regex := r.regex | .error .missingArgument
  let task ←
    match subcommand with
    | .ast => .ok Task.ast
    | .dump => .ok (Task.dump (r.stage.getD .all) (r.format.getD .text) (!r.noLayout))
    | .check => if r.inputs.isEmpty then .error .missingArgument else .ok (Task.check r.inputs)
  return {
    task := task
    regex := regex
    alphabet := r.alphabet.getD "ab"
    colour := r.colour.getD .auto
    verbosity := r.verbosity.getD verbosity }

end Reading

def Subcommand.ofName? : String → Option Subcommand
  | "ast" => some ast
  | "dump" => some dump
  | "check" => some check
  | _ => none

/-- The answer to `help` and the names of subcommands after it: `help` is one of them, and none of
them has subcommands of its own. -/
def helpOn : List String → UsageError
  | [] => .helpAsked
  | [name] =>
    if name = "help" ∨ (Subcommand.ofName? name).isSome then .helpAsked else .unknownSubcommand
  | _ => .unknownSubcommand

/-- Counts the one-letter options in front of the subcommand. -/
def countShort (count : Option Nat) : List Char → Except UsageError (Option Nat)
  | [] => .ok count
  | 'v' :: letters => countShort (countVerbose count) letters
  | 'h' :: _ => .error .helpAsked
  | _ :: _ => .error .unknownArgument

/-- What is wrong with arguments that name no subcommand. -/
def withoutSubcommand (verbosity : Option Nat) : UsageError :=
  if verbosity.isNone then .nothingAsked else .noSubcommand

/-- Reads the options in front of the subcommand and then those of the subcommand. -/
def readFrom (verbosity : Option Nat) : List String → Except UsageError Invocation
  | [] => .error (withoutSubcommand verbosity)
  | argument :: arguments =>
    match ArgumentShape.of argument with
    | .divider =>
      match arguments with
      | [] => .error (withoutSubcommand verbosity)
      | name :: _ =>
        if name = "help" ∨ (Subcommand.ofName? name).isSome then .error .unknownArgument
        else .error .unknownSubcommand
    | .long name value =>
      if name = "help" then .error (if value.isSome then .needlessValue else .helpAsked)
      else .error .unknownArgument
    | .short letters => do
      readFrom (← countShort verbosity letters) arguments
    | .plain =>
      if argument = "help" then .error (helpOn arguments)
      else
        match Subcommand.ofName? argument with
        | none => .error .unknownSubcommand
        | some subcommand => do
          let r ← ({} : Reading).ofArguments subcommand arguments
          r.invocation subcommand (verbosity.getD 0)

def read (arguments : List String) : Except UsageError Invocation :=
  readFrom none arguments

end RegexCompiler.Command
