import RegexCompiler.Alphabet
import RegexCompiler.Regex.Basic
import RegexCompiler.Regex.Fault

/-!
# Reading expressions

A text is read in two passes. The first goes from left to right and checks that every character is
a symbol or an operator and that parentheses match. The second goes from right to left and builds
the tree. Seen from the right, `*` announces that the next expression is repeated, `+` joins the
expression that was read last with the next one, and `)` opens a group that ends at its `(`.

Open groups and the operators that wait for an operand form a stack, and their number is the
nesting depth, which a limit may bound. The whole text counts as the outermost group.
-/

namespace RegexCompiler.Regex

/-- Characters with their positions in the text. -/
abbrev Located := List (Char × Nat)

/-- Refuses the leftmost foreign character or unopened `)`, and of several unclosed `(` the last
one. The positions of the `(` that are open are given innermost first. -/
def checkBalance (alphabet : Alphabet) : Located → List Nat → Except Fault Unit
  | [], [] => .ok ()
  | [], position :: _ => .error (.unclosed position)
  | ('(', i) :: rest, opened => checkBalance alphabet rest (i :: opened)
  | (')', i) :: rest, opened =>
    match opened with
    | [] => .error (.unopened i)
    | _ :: outer => checkBalance alphabet rest outer
  | (c, i) :: rest, opened =>
    if c = '*' ∨ c = '+' ∨ c ∈ alphabet then checkBalance alphabet rest opened
    else .error (.foreign c i)

/-- An operator that waits for the expression to its left. -/
inductive Pending where
  | star
  | union (position : Nat) (right : Regex)

/-- A group whose `(` has not been read. -/
structure Group where
  /-- The position of its `)`. -/
  close : Nat
  /-- What has been read of the group, from left to right. -/
  children : List Regex
  /-- The operators that wait for the next expression, the one read last first. -/
  pending : List Pending

/-- The state of the pass from right to left. -/
structure Scan where
  /-- The innermost open group. -/
  group : Group
  /-- The groups around it, from the inside out. -/
  outer : List Group
  /-- The number of open groups and waiting operators. -/
  depth : Nat

/-- Enters a group or an operator, if the limit allows for one more. -/
def enter (limit : Option Nat) (depth : Nat) (c : Char) (position : Nat) : Except Fault Nat :=
  match limit with
  | none => .ok (depth + 1)
  | some limit => if limit ≤ depth then .error (.tooDeep c position) else .ok (depth + 1)

/-- Refuses an alternative that nests too deep. A chain of `+` nests through the right operands,
which are complete before the operator is read, so their depth is added to the depth of the scan. -/
def checkUnion (limit : Option Nat) (depth : Nat) (union : Regex) (position : Nat) :
    Except Fault Unit :=
  match limit with
  | none => .ok ()
  | some limit => if limit < depth + union.depth then .error (.tooDeep '+' position) else .ok ()

/-- Applies the waiting operators to an expression and leaves the depth that they took. -/
def applyPending (limit : Option Nat) : List Pending → Nat → Regex → Except Fault (Regex × Nat)
  | [], depth, operand => .ok (operand, depth)
  | .star :: pending, depth, operand => applyPending limit pending (depth - 1) (.star operand)
  | .union position right :: pending, depth, operand => do
    checkUnion limit (depth - 1) (.union operand right) position
    applyPending limit pending (depth - 1) (.union operand right)

/-- Adds a complete expression to the innermost group. -/
def Scan.add (limit : Option Nat) (s : Scan) (operand : Regex) : Except Fault Scan := do
  let (child, depth) ← applyPending limit s.group.pending s.depth operand
  return { s with
    group := { s.group with children := child :: s.group.children, pending := [] }
    depth := depth }

/-- Lets an operator wait for the next expression. -/
def Scan.await (s : Scan) (operator : Pending) (children : List Regex) (depth : Nat) : Scan :=
  { s with
    group := { s.group with children := children, pending := operator :: s.group.pending }
    depth := depth }

/-- Whether no expression ends right before this place. -/
def lacksOperand : Located → Bool
  | [] => true
  | (c, _) :: _ => c = '(' || c = '+'

/-- Whether a symbol after these characters is the one where the expression is entered. -/
def isEntry (before : Located) : Bool :=
  before.all fun (c, _) => c = '('

/-- Reads one character; what stands before it decides about operands and the marked symbol. -/
def Scan.step (alphabet : Alphabet) (limit : Option Nat) (before : Located) (c : Char) (i : Nat)
    (s : Scan) : Except Fault Scan :=
  match c with
  | '*' => do
    let depth ← enter limit s.depth '*' i
    if lacksOperand before then .error (.dangling '*' i)
    else return s.await .star s.group.children depth
  | '+' =>
    match s.group.children with
    | [] => .error (.dangling '+' i)
    | right :: children => do
      let depth ← enter limit s.depth '+' i
      if lacksOperand before then .error (.dangling '+' i)
      else return s.await (.union i right) children depth
  | ')' => do
    let depth ← enter limit s.depth ')' i
    return { group := ⟨i, [], []⟩, outer := s.group :: s.outer, depth := depth }
  | '(' =>
    match s.outer with
    | [] => .error (.unclosed i)
    | group :: outer =>
      Scan.add limit { group := group, outer := outer, depth := s.depth - 1 }
        (.word s.group.children)
  | c =>
    if c ∈ alphabet then s.add limit (if isEntry before then .start c else .letter c)
    else .error (.foreign c i)

/-- Reads characters, the last one of the text first. -/
def scan (alphabet : Alphabet) (limit : Option Nat) : Located → Scan → Except Fault Scan
  | [], s => .ok s
  | (c, i) :: before, s => do scan alphabet limit before (← s.step alphabet limit before c i)

/-- The expression that has been read once only the outermost group is open. -/
def Scan.result (s : Scan) : Except Fault Regex :=
  match s.outer with
  | [] => .ok (.word s.group.children)
  | _ :: _ => .error (.unopened s.group.close)

/-- Reads a text as an expression over an alphabet, with at most `limit` nested groups and
operators if a limit is given. -/
def parse (alphabet : Alphabet) (limit : Option Nat) (text : List Char) : Except Fault Regex := do
  let located := text.zipIdx
  checkBalance alphabet located []
  let depth ← enter limit 0 ')' text.length
  let s ← scan alphabet limit located.reverse ⟨⟨text.length, [], []⟩, [], depth⟩
  s.result

/-- The limit that applies if no other one is chosen. -/
def standardLimit : Nat :=
  512

end RegexCompiler.Regex
