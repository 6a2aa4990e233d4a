import RegexCompiler.Graph.Basic
import RegexCompiler.Regex.Basic

/-!
# The automaton of an expression

An expression becomes a graph with ε edges that grows backward from the accepting sink: every
subtree is built in front of the vertex where its words end, and the vertex where they begin is
handed on to what stands before it. The marked symbol begins at the entry of the whole automaton,
and no edge ever leads to the entry.
-/

namespace RegexCompiler

variable {κ : Type}

/-- How two alternatives got a common beginning. -/
structure Join where
  left : State
  right : State
  entry : State

/-- An automaton under construction. -/
structure Draft (κ : Type) where
  graph : Graph State κ
  /-- The number of the next vertex; fewer than `2 ^ 32` vertices are assumed. -/
  next : Nat
  /-- The joined alternatives so far, in order. -/
  joins : List Join

namespace Draft

/-- The accepting sink alone. -/
def initial : Draft κ where
  graph := (Graph.empty.addVertex .final).markFinal .final
  next := 0
  joins := []

def addEdge (d : Draft κ) (source target : State) (label : Label) : Draft κ :=
  { d with graph := d.graph.addEdge source target label }

/-- Adds a vertex with the next number. -/
def mint (d : Draft κ) : Draft κ × State :=
  let v := .fresh d.next
  ({ d with graph := d.graph.addVertex v, next := d.next + 1 }, v)

/-- Adds the edges that give two alternatives a common beginning, and finds it. An alternative that
no edge leads back to can serve as the beginning of both; if both begin with a loop, a new vertex
leads to them. -/
def joinEntries (d : Draft κ) (left right : State) : Draft κ × State :=
  if left = .start then (d.addEdge .start right .epsilon, .start)
  else if right = .start then (d.addEdge .start left .epsilon, .start)
  else if !d.graph.hasIncoming left then (d.addEdge left right .epsilon, left)
  else if !d.graph.hasIncoming right then (d.addEdge right left .epsilon, right)
  else
    let (d, hub) := d.mint
    ((d.addEdge hub left .epsilon).addEdge hub right .epsilon, hub)

/-- Gives two alternatives a common beginning. -/
def join (d : Draft κ) (left right : State) : Draft κ × State :=
  let (d, entry) := d.joinEntries left right
  ({ d with joins := d.joins ++ [⟨left, right, entry⟩] }, entry)

/-- Closes the loop of a repetition whose body begins at `entry` and ends at `again`. A body that
begins at the entry of the automaton is entered a second time through copies of its first edges, so
that no edge has to lead back. -/
def closeLoop (d : Draft κ) (again entry target : State) : Draft κ × State :=
  if entry = .start then
    let first := d.graph.outgoing.neighbours .start
    let d := first.foldl (fun d (label, v) => d.addEdge again v label) d
    ((d.addEdge again target .epsilon).addEdge .start target .epsilon, .start)
  else ((d.addEdge again entry .epsilon).addEdge again target .epsilon, again)

mutual

/-- Builds an expression whose words end at `target`, and finds where they begin. -/
def attach (d : Draft κ) (target : State) : Regex → Draft κ × State
  | .start c => (d.addEdge .start target (.symbol c), .start)
  | .letter c =>
    let (d, entry) := d.mint
    (d.addEdge entry target (.symbol c), entry)
  | .word [] =>
    let (d, entry) := d.mint
    (d.addEdge entry target .epsilon, entry)
  | .word (child :: children) => attachAll d target (child :: children)
  | .union left right =>
    let (d, left) := attach d target left
    let (d, right) := attach d target right
    d.join left right
  | .star child =>
    let (d, again) := d.mint
    let (d, entry) := attach d again child
    d.closeLoop again entry target

/-- Builds expressions that follow each other, the last one first. -/
def attachAll (d : Draft κ) (target : State) : List Regex → Draft κ × State
  | [] => (d, target)
  | child :: children =>
    let (d, next) := attachAll d target children
    attach d next child

end

/-- Builds a whole expression. If it does not begin at the entry, an ε edge leads there. -/
def ofRegex (regex : Regex) : Draft κ :=
  let (d, entry) := (initial : Draft κ).attach .final regex
  if entry = .start then d else d.addEdge .start entry .epsilon

end Draft

end RegexCompiler
