import RegexCompiler.Ascending
import RegexCompiler.Text.Blank

/-!
# Input alphabets

An alphabet is a finite, non-empty set of input symbols. A symbol is any character that has no
meaning in the notation for expressions and is not white space. The symbols are always read in
ascending order of their code points.
-/

namespace RegexCompiler

/-- Why a text is no alphabet. -/
inductive AlphabetError where
  | empty
  | reserved (c : Char)
  | blank
deriving DecidableEq

def AlphabetError.message : AlphabetError → String
  | empty => "alphabet must contain at least one symbol"
  | reserved c =>
    "'" ++ c.toString ++ "' is reserved by the regex grammar and cannot be an input symbol"
  | blank => "whitespace cannot be an input symbol"

/-- The characters with a meaning of their own in an expression, and the mark for its beginning. -/
def reservedCharacters : List Char :=
  ['(', ')', '*', '+', '$']

/-- Why a character cannot be an input symbol, if it cannot. -/
def symbolRefusal (c : Char) : Option AlphabetError :=
  if c ∈ reservedCharacters then some (.reserved c)
  else if Text.isBlank c then some .blank
  else none

/-- A finite, non-empty set of input symbols. -/
structure Alphabet where
  symbols : List Char
  ascending : Ascending symbols
  admissible : ∀ c ∈ symbols, symbolRefusal c = none
  nonempty : symbols ≠ []

namespace Alphabet

instance : Membership Char Alphabet where
  mem alphabet c := c ∈ alphabet.symbols

instance (c : Char) (alphabet : Alphabet) : Decidable (c ∈ alphabet) :=
  inferInstanceAs (Decidable (c ∈ alphabet.symbols))

/-- The alphabet of the characters of a text. The leftmost character that is no symbol decides
what is wrong with it. -/
def ofText (text : String) : Except AlphabetError Alphabet :=
  match h : text.toList.findSome? symbolRefusal with
  | some refusal => .error refusal
  | none =>
    if hne : text.toList = [] then .error .empty
    else .ok {
      symbols := Ascending.ofList text.toList
      ascending := Ascending.ofList_ascending _
      admissible := fun c hc =>
        List.findSome?_eq_none_iff.mp h c (Ascending.mem_ofList.mp hc)
      nonempty := by
        obtain ⟨c, hc⟩ := List.exists_mem_of_ne_nil _ hne
        exact List.ne_nil_of_mem (Ascending.mem_ofList.mpr hc) }

theorem standard_admissible : ∀ c ∈ ['a', 'b'], symbolRefusal c = none := by
  simp [symbolRefusal, reservedCharacters, Text.isBlank, Text.CodeRanges.contains,
    Text.blankRanges]

/-- The two symbols `a` and `b`. -/
def standard : Alphabet where
  symbols := ['a', 'b']
  ascending := by decide
  admissible := standard_admissible
  nonempty := by decide

def text (alphabet : Alphabet) : String :=
  "\x7b" ++ String.intercalate ", " (alphabet.symbols.map Char.toString) ++ "\x7d"

end Alphabet

end RegexCompiler
