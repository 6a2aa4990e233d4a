import RegexCompiler.Alphabet
import RegexCompiler.Regex.Basic

/-!
# Spelling expressions

The written form of a tree: a symbol stands for itself, a concatenation is put into parentheses,
`+` stands between two alternatives and `*` behind what it repeats. The outermost concatenation has
no parentheses. A tree is well formed if it is one that a reader of its spelling has in mind: no
alternative stands where an operand binds tighter, and the mark is on the symbol that is spelled
first, unless a closing parenthesis comes before every symbol.
-/

namespace RegexCompiler.Regex

mutual

/-- The written form of a tree inside another one. -/
def spell : Regex → List Char
  | letter c => [c]
  | start c => [c]
  | word children => '(' :: spellAll children ++ [')']
  | union left right => left.spell ++ '+' :: right.spell
  | star child => child.spell ++ ['*']

/-- The written form of trees that follow each other. -/
def spellAll : List Regex → List Char
  | [] => []
  | child :: children => child.spell ++ spellAll children

end

/-- The written form of a whole expression. -/
def spellRoot : Regex → List Char
  | word children => spellAll children
  | regex => regex.spell

/-- Whether a tree binds tight enough to stand before `+` or `*`. -/
def IsOperand : Regex → Prop
  | union _ _ => False
  | _ => True

mutual

/-- No alternative stands before `+` or `*`. -/
def Binds : Regex → Prop
  | letter _ => True
  | start _ => True
  | word children => BindAll children
  | union left right => left.IsOperand ∧ left.Binds ∧ right.Binds
  | star child => child.IsOperand ∧ child.Binds

def BindAll : List Regex → Prop
  | [] => True
  | child :: children => child.Binds ∧ BindAll children

end

mutual

/-- The symbols of a tree from left to right. -/
def leaves : Regex → List Char
  | letter c => [c]
  | start c => [c]
  | word children => leavesOf children
  | union left right => left.leaves ++ right.leaves
  | star child => child.leaves

def leavesOf : List Regex → List Char
  | [] => []
  | child :: children => child.leaves ++ leavesOf children

end

/-- Whether nothing but opening parentheses has been written. -/
def OnlyOpened (before : List Char) : Prop :=
  ∀ c ∈ before, c = '('

mutual

/-- A symbol of the tree is marked exactly if nothing but opening parentheses is written before
it, where `before` is written before the whole tree. -/
def Marked (before : List Char) : Regex → Prop
  | letter _ => ¬OnlyOpened before
  | start _ => OnlyOpened before
  | word children => MarkedAll (before ++ ['(']) children
  | union left right => left.Marked before ∧ right.Marked (before ++ left.spell ++ ['+'])
  | star child => child.Marked before

def MarkedAll (before : List Char) : List Regex → Prop
  | [] => True
  | child :: children => child.Marked before ∧ MarkedAll (before ++ child.spell) children

end

/-- The trees that texts over an alphabet stand for. -/
def WellFormed (alphabet : Alphabet) : Regex → Prop
  | word children =>
    BindAll children ∧ MarkedAll [] children ∧ ∀ c ∈ leavesOf children, c ∈ alphabet
  | _ => False

end RegexCompiler.Regex
