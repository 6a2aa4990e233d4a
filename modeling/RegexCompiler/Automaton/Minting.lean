import RegexCompiler.Automaton.EpsilonNfa

/-!
# Minted vertices

Which vertices an automaton has can be read off its expression. Every letter, every empty
concatenation and every repetition has a vertex of its own. Two alternatives get one if both of them
begin with a loop, and only then, because otherwise one of them serves as the beginning of both. If
the marked symbol is in one of them, they begin at the entry of the automaton.
-/

namespace RegexCompiler

namespace Regex

mutual

/-- Whether the tree is a repetition or a concatenation that begins with a loop. -/
def beginsWithLoop : Regex → Bool
  | letter _ => false
  | start _ => false
  | word children => firstBeginsWithLoop children
  | union _ _ => false
  | star _ => true

def firstBeginsWithLoop : List Regex → Bool
  | [] => false
  | child :: _ => child.beginsWithLoop

end

mutual

/-- The tree and all trees inside it, in the order of the construction: of expressions that follow
each other the last one is the first, a repetition comes before its body, and alternatives come
before what joins them. -/
def nodes : Regex → List Regex
  | letter c => [letter c]
  | start c => [start c]
  | word children => nodesOf children ++ [word children]
  | union left right => left.nodes ++ right.nodes ++ [union left right]
  | star child => star child :: child.nodes

def nodesOf : List Regex → List Regex
  | [] => []
  | child :: children => nodesOf children ++ child.nodes

end

def isLetter : Regex → Bool
  | letter _ => true
  | _ => false

def isEmptyWord : Regex → Bool
  | word [] => true
  | _ => false

def isStar : Regex → Bool
  | star _ => true
  | _ => false

def isUnion : Regex → Bool
  | union _ _ => true
  | _ => false

/-- Alternatives without the marked symbol that both begin with a loop. -/
def joinsLoops : Regex → Bool
  | union left right =>
    !(union left right).hasStart && left.beginsWithLoop && right.beginsWithLoop
  | _ => false

/-- The number of vertices that belong to some nodes of a tree. -/
def vertexNeed (nodes : List Regex) : Nat :=
  nodes.countP isLetter + nodes.countP isEmptyWord + nodes.countP isStar + nodes.countP joinsLoops

end Regex

/-- Neither of two alternatives serves as the beginning of both. -/
def Join.hasHub (j : Join) : Bool :=
  j.entry ≠ j.left && j.entry ≠ j.right

namespace Draft

variable {κ : Type}

/-- The steps of a construction and the vertices that are minted in them, in this order. A minted
vertex is new to the draft. Edges do not bring in vertices other than the entry of the automaton. -/
inductive Mints : List State → Draft κ → Prop where
  | initial : Mints [] initial
  | mint {minted : List State} {d : Draft κ} :
      Mints minted d → ¬d.graph.contains d.mint.2 → Mints (minted ++ [d.mint.2]) d.mint.1
  | addEdge {minted : List State} {d : Draft κ} {source target : State} (label : Label) :
      Mints minted d → source = .start ∨ d.graph.contains source → d.graph.contains target →
        Mints minted (d.addEdge source target label)
  | note {minted : List State} {d : Draft κ} (joins : List Join) :
      Mints minted d → Mints minted { d with joins := joins }

end Draft

end RegexCompiler
