import RegexCompiler.Alphabet

/-!
# Grounds for refusal

What is wrong with a text can be told from the text alone. A character is out of place if it belongs
neither to the alphabet nor to the notation, or if it closes what nothing opens. A group may not be
closed, and an operator may lack an operand, which the characters next to it show.
-/

namespace RegexCompiler.Regex

/-- A text in which every parenthesis has its counterpart. -/
inductive Balanced : List Char → Prop where
  | empty : Balanced []
  | plain {c : Char} {text : List Char} :
      c ≠ '(' → c ≠ ')' → Balanced text → Balanced (c :: text)
  | group {inner text : List Char} :
      Balanced inner → Balanced text → Balanced ('(' :: inner ++ ')' :: text)

/-- The characters from position `i` up to position `j`. -/
def between (text : List Char) (i j : Nat) : List Char :=
  (text.take j).drop i

/-- The parenthesis at `j` closes the one at `i`. -/
def Closes (text : List Char) (i j : Nat) : Prop :=
  i < j ∧ text[i]? = some '(' ∧ text[j]? = some ')' ∧ Balanced (between text (i + 1) j)

def Misplaced (alphabet : Alphabet) (text : List Char) (i : Nat) : Prop :=
  (∃ c, text[i]? = some c ∧ c ∉ alphabet ∧ c ∉ ['(', ')', '*', '+']) ∨
    text[i]? = some ')' ∧ ∀ j, ¬Closes text j i

def Unclosed (text : List Char) (i : Nat) : Prop :=
  text[i]? = some '(' ∧ ∀ j, ¬Closes text i j

/-- No expression can end right before this position. -/
def LacksLeft (text : List Char) (i : Nat) : Prop :=
  i = 0 ∨ text[i - 1]? = some '(' ∨ text[i - 1]? = some '+'

/-- No expression can begin right behind this position. -/
def LacksRight (text : List Char) (i : Nat) : Prop :=
  i + 1 = text.length ∨ text[i + 1]? = some ')'

/-- An operator without an operand. -/
def Dangles (text : List Char) (i : Nat) : Prop :=
  (text[i]? = some '*' ∨ text[i]? = some '+') ∧ LacksLeft text i ∨
    text[i]? = some '+' ∧ LacksRight text i

instance (text : List Char) (i : Nat) : Decidable (LacksLeft text i) :=
  inferInstanceAs (Decidable (_ ∨ _ ∨ _))

instance (text : List Char) (i : Nat) : Decidable (LacksRight text i) :=
  inferInstanceAs (Decidable (_ ∨ _))

instance (text : List Char) (i : Nat) : Decidable (Dangles text i) :=
  inferInstanceAs (Decidable (_ ∧ _ ∨ _ ∧ _))

end RegexCompiler.Regex
