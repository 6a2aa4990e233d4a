import RegexCompiler.Graph.State

/-!
# Labelled edges

An edge carries an input symbol or ε. The symbols come before ε in the order of labels, and ε is a
label of its own even where an alphabet holds the character that is written the same way.
-/

namespace RegexCompiler

/-- What an edge reads: one symbol or nothing. -/
inductive Label where
  | symbol (c : Char)
  | epsilon
deriving DecidableEq

namespace Label

/-- Symbols by code point, ε last. -/
protected def compare : Label → Label → Ordering
  | symbol c, symbol d => Ord.compare c d
  | symbol _, epsilon => .lt
  | epsilon, symbol _ => .gt
  | epsilon, epsilon => .eq

instance : Ord Label := ⟨Label.compare⟩

theorem compare_eq (a b : Label) : Ord.compare a b = Label.compare a b := rfl

instance : Std.TransOrd Label where
  eq_swap := by
    intro a b
    cases a with
    | symbol c =>
      cases b with
      | symbol d => exact @Std.OrientedOrd.eq_swap Char _ _ c d
      | epsilon => rfl
    | epsilon => cases b <;> rfl
  isLE_trans := by
    intro a b c
    cases a <;> cases b <;> cases c <;> simp [compare_eq, Label.compare]
    exact Std.TransCmp.isLE_trans

instance : Std.LawfulEqOrd Label where
  compare_self := by
    intro a
    cases a with
    | symbol c => exact @Std.compare_self Char _ _ _
    | epsilon => rfl
  eq_of_compare := by
    intro a b
    cases a <;> cases b <;> simp [compare_eq, Label.compare]

def isEpsilon : Label → Bool
  | symbol _ => false
  | epsilon => true

/-- The symbol that is read, if one is. -/
def symbol? : Label → Option Char
  | symbol c => some c
  | epsilon => none

/-- The label as it is written on an edge. -/
def text : Label → String
  | symbol c => c.toString
  | epsilon => "ε"

end Label

structure Edge (V : Type) where
  source : V
  target : V
  label : Label
deriving DecidableEq

def Edge.text {V : Type} [Named V] (edge : Edge V) : String :=
  Named.name edge.source ++ " -" ++ edge.label.text ++ "-> " ++ Named.name edge.target

end RegexCompiler
