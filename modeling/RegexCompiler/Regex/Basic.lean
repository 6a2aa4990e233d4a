/-!
# Regular expressions

An expression is a tree of symbols, concatenations, alternatives and repetitions. The tree fixes
the number of operands, so no later stage checks its shape. The symbol at which a run over the
whole expression can begin is marked, because the automaton built from the tree is entered there.
-/

namespace RegexCompiler

/-- The syntax tree of a regular expression. -/
inductive Regex where
  /-- One input symbol. -/
  | letter (c : Char)
  /-- The leftmost symbol of the whole expression. -/
  | start (c : Char)
  /-- The children one after the other. -/
  | word (children : List Regex)
  /-- One of two alternatives. -/
  | union (left right : Regex)
  /-- Any number of repetitions, none included. -/
  | star (child : Regex)

namespace Regex

mutual

/-- Whether the marked symbol occurs in the tree. -/
def hasStart : Regex → Bool
  | letter _ => false
  | start _ => true
  | word children => anyHasStart children
  | union left right => left.hasStart || right.hasStart
  | star child => child.hasStart

def anyHasStart : List Regex → Bool
  | [] => false
  | child :: children => child.hasStart || anyHasStart children

end

mutual

/-- The number of trees on the longest way from the root to a leaf. -/
def depth : Regex → Nat
  | letter _ => 1
  | start _ => 1
  | word children => 1 + greatestDepth children
  | union left right => 1 + max left.depth right.depth
  | star child => 1 + child.depth

def greatestDepth : List Regex → Nat
  | [] => 0
  | child :: children => max child.depth (greatestDepth children)

end

mutual

/-- The least nesting limit under which a tree can be read. The depth of alternatives counts in
full, because their right operands are complete before the operator is read. -/
def need : Regex → Nat
  | letter _ => 0
  | start _ => 0
  | word children => 1 + greatestNeed children
  | union left right => 1 + max left.depth right.depth
  | star child => 1 + child.need

def greatestNeed : List Regex → Nat
  | [] => 0
  | child :: children => max child.need (greatestNeed children)

end

end Regex

end RegexCompiler
