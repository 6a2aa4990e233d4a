/-!
# Faults of expressions

Why a text is no regular expression, and the character and position that are to blame. Positions
count characters from zero.
-/

namespace RegexCompiler

/-- A reason to refuse a text, with the position of the offending character. -/
inductive Fault where
  /-- A character that is neither a symbol of the alphabet nor an operator. -/
  | foreign (c : Char) (position : Nat)
  /-- A closing parenthesis without an opening one. -/
  | unopened (position : Nat)
  /-- An opening parenthesis without a closing one. -/
  | unclosed (position : Nat)
  /-- An operator without something to operate on. -/
  | dangling (operator : Char) (position : Nat)
  /-- The nesting limit does not allow for this group or operator. -/
  | tooDeep (c : Char) (position : Nat)
deriving DecidableEq

namespace Fault

def character : Fault → Char
  | foreign c _ => c
  | unopened _ => ')'
  | unclosed _ => '('
  | dangling operator _ => operator
  | tooDeep c _ => c

def position : Fault → Nat
  | foreign _ position => position
  | unopened position => position
  | unclosed position => position
  | dangling _ position => position
  | tooDeep _ position => position

def message : Fault → String
  | foreign c position =>
    "unexpected symbol '" ++ c.toString ++ "' at position " ++ toString position
  | unopened position => "unmatched ')' at position " ++ toString position
  | unclosed position => "unclosed '(' at position " ++ toString position
  | dangling operator position =>
    "operator '" ++ operator.toString ++ "' at position " ++ toString position
      ++ " is missing an operand"
  | tooDeep c position =>
    "nesting too deep at '" ++ c.toString ++ "' (position " ++ toString position ++ ")"

/-- The note below the marked character. -/
def label : Fault → String
  | foreign _ _ => "not an alphabet symbol or operator"
  | unopened _ => "no matching '('"
  | unclosed _ => "never closed"
  | dangling _ _ => "operand expected here"
  | tooDeep _ _ => "nesting limit reached"

end Fault

end RegexCompiler
