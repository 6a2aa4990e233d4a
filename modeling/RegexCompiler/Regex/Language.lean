import RegexCompiler.Alphabet
import RegexCompiler.Regex.Basic

/-!
# The languages of expressions

What an expression means is the set of the words that it matches. The meaning is given twice: for
trees, part by part, and for texts, by the grammar in which expressions are written. In a text `+`
takes one atom on its left and one item on its right, so it binds tighter than concatenation.
-/

namespace RegexCompiler

/-- The words that consist of any number of words of a language. -/
inductive Repeated (L : List Char → Prop) : List Char → Prop where
  | none : Repeated L []
  | more {first rest : List Char} : L first → Repeated L rest → Repeated L (first ++ rest)

/-- The words that consist of a word of each of two languages. -/
def Concatenated (L M : List Char → Prop) (w : List Char) : Prop :=
  ∃ first rest, L first ∧ M rest ∧ w = first ++ rest

namespace Regex

mutual

/-- The words that a tree matches. -/
def Matches : Regex → List Char → Prop
  | letter c => fun w => w = [c]
  | start c => fun w => w = [c]
  | word children => MatchesInOrder children
  | union left right => fun w => left.Matches w ∨ right.Matches w
  | star child => Repeated child.Matches

/-- The words that trees match one after the other. -/
def MatchesInOrder : List Regex → List Char → Prop
  | [] => fun w => w = []
  | child :: children => Concatenated child.Matches (MatchesInOrder children)

end

end Regex

mutual

/-- A text that is an atom, with the language that it stands for. -/
inductive AtomText : List Char → (List Char → Prop) → Prop where
  | symbol (c : Char) : c ∉ reservedCharacters → AtomText [c] (· = [c])
  | group {text : List Char} {L : List Char → Prop} :
      WordText text L → AtomText ('(' :: text ++ [')']) L
  | repetition {text : List Char} {L : List Char → Prop} :
      AtomText text L → AtomText (text ++ ['*']) (Repeated L)

/-- A text that is an item, an atom or an atom joined with another item. -/
inductive ItemText : List Char → (List Char → Prop) → Prop where
  | atom {text : List Char} {L : List Char → Prop} : AtomText text L → ItemText text L
  | choice {left right : List Char} {L M : List Char → Prop} :
      AtomText left L → ItemText right M →
        ItemText (left ++ '+' :: right) fun w => L w ∨ M w

/-- A text that is a sequence of items. -/
inductive WordText : List Char → (List Char → Prop) → Prop where
  | empty : WordText [] (· = [])
  | cons {first rest : List Char} {L M : List Char → Prop} :
      ItemText first L → WordText rest M → WordText (first ++ rest) (Concatenated L M)

end

/-- Whether a word belongs to the language of the expression that a text is. -/
def InLanguage (text word : List Char) : Prop :=
  ∃ L, WordText text L ∧ L word

end RegexCompiler
