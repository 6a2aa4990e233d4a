import RegexCompiler.Automaton.Dfa

/-!
# The work list of sets

The deterministic automaton once more, as a loop builds it. A round takes a set from the queue,
marks it and follows the symbols of the alphabet one after the other. Each of them adds an edge, and
the set where it leads is put into the queue unless it has been met before. The queue grows while it
is used up, so nothing in the form of the loop shows that it ends.

The work list keeps account of the sets that were put into the queue and of those that were taken
from it.
-/

namespace RegexCompiler

/-- A deterministic automaton under construction, with the work that is left. -/
structure Worklist (κ : Type) where
  dfa : Graph StateSet κ
  /-- The sets that have been met. -/
  seen : List StateSet
  /-- The sets that wait for their turn. -/
  queue : List StateSet
  /-- The sets that were ever put into the queue, in this order. -/
  queued : List StateSet
  /-- The sets that were taken from it, in this order. -/
  taken : List StateSet

namespace Worklist

variable {κ : Type}

/-- What the loop begins with: the set of the entry, or nothing at all if there is no entry. -/
def initial (g : Graph State κ) : Worklist κ :=
  if g.contains .start then
    { dfa := Graph.empty.addVertex .entry
      seen := [.entry]
      queue := [.entry]
      queued := [.entry]
      taken := [] }
  else { dfa := Graph.empty, seen := [], queue := [], queued := [], taken := [] }

/-- Adds the edge from a set to where a symbol leads, which is put into the queue if it is new. -/
def meet (s : StateSet) (w : Worklist κ) (c : Char) (next : StateSet) : Worklist κ :=
  let w := { w with dfa := w.dfa.addEdge s next (.symbol c) }
  if next ∈ w.seen then w
  else { w with
    seen := w.seen ++ [next]
    queue := w.queue ++ [next]
    queued := w.queued ++ [next] }

/-- Follows a symbol from the states of a set; a symbol that leads nowhere is passed over. -/
def follow (g : Graph State κ) (s : StateSet) (w : Worklist κ) (c : Char) : Worklist κ :=
  let next := g.successorSet s c
  if next.members.isEmpty then w else w.meet s c next

/-- One round of the loop, which is over when nothing waits. -/
def round (g : Graph State κ) (alphabet : Alphabet) (w : Worklist κ) : Option (Worklist κ) :=
  match w.queue with
  | [] => none
  | s :: queue =>
    let dfa := if s.members.any g.isFinal then w.dfa.markFinal s else w.dfa
    some (alphabet.symbols.foldl (follow g s)
      { w with dfa := dfa, queue := queue, taken := w.taken ++ [s] })

/-- The work list after so many rounds, unless the loop is over earlier. -/
def after (g : Graph State κ) (alphabet : Alphabet) : Nat → Option (Worklist κ)
  | 0 => some (initial g)
  | k + 1 => (after g alphabet k).bind (round g alphabet)

end Worklist

end RegexCompiler
