import RegexCompiler.Graph.Basic

/-!
# Paths in graphs

A path from one vertex to another spells the symbols of its edges in order, where ε spells nothing.
It may take any number of ε edges. Paths say what the simulations compute, without saying how. They
are walks along the edges of a whole graph; walks also make sense along some of its edges alone. A
route is a path with the list of its edges.
-/

namespace RegexCompiler

/-- What an edge adds to the word that a path spells. -/
def Label.word : Label → List Char
  | symbol c => [c]
  | epsilon => []

/-- Labelled arrows between vertices: the edges of a graph, or some of them. -/
abbrev Arrows (V : Type) := V → Label → V → Prop

/-- The arrows lead from `v` to `w` by a way that spells the word. -/
inductive Walk {V : Type} (arrows : Arrows V) : V → List Char → V → Prop where
  | refl (v : V) : Walk arrows v [] v
  | cons {u v w : V} {label : Label} {word : List Char} :
      arrows u label v → Walk arrows v word w → Walk arrows u (label.word ++ word) w

theorem Walk.trans {V : Type} {arrows : Arrows V} {u v w : V} {first rest : List Char}
    (h : Walk arrows u first v) (h' : Walk arrows v rest w) : Walk arrows u (first ++ rest) w := by
  induction h with
  | refl => exact h'
  | cons ha _ ih =>
    rw [List.append_assoc]
    exact .cons ha (ih h')

namespace Graph

variable {V κ : Type} [DecidableEq V]

/-- One edge of the graph. -/
def Arrow (g : Graph V κ) : Arrows V := fun v label w =>
  (label, w) ∈ g.outgoing.neighbours v

/-- There is a path from `v` to `w` that spells the word. -/
abbrev Path (g : Graph V κ) (v : V) (word : List Char) (w : V) : Prop :=
  Walk g.Arrow v word w

/-- The edges of the graph lead head to tail from `v` to `w`. -/
def Route (g : Graph V κ) : V → List (Edge V) → V → Prop
  | v, [], w => v = w
  | v, edge :: route, w => edge ∈ g.edges ∧ edge.source = v ∧ Route g edge.target route w

/-- The symbols on the edges of a route in order; ε edges are passed over. -/
def spelled (route : List (Edge V)) : List Char :=
  route.filterMap (·.label.symbol?)

/-- The vertex `v` leads to `w` by some path; what is no vertex leads nowhere. -/
def Reaches (g : Graph V κ) (v w : V) : Prop :=
  g.contains v ∧ ∃ word, g.Path v word w

/-- There is a path of so many edges of any label. -/
inductive Steps (g : Graph V κ) : V → Nat → V → Prop where
  | refl (v : V) : Steps g v 0 v
  | cons {u v w : V} {label : Label} {n : Nat} :
      g.Arrow u label v → Steps g v n w → Steps g u (n + 1) w

/-- The shortest paths from `v` to `w` have so many edges. -/
def IsDistance (g : Graph V κ) (v : V) (n : Nat) (w : V) : Prop :=
  g.Steps v n w ∧ ∀ m, g.Steps v m w → n ≤ m

/-- Some way leads from `v` to an accepting vertex and spells the word. -/
def Leads (g : Graph V κ) (v : V) (word : List Char) : Prop :=
  g.contains v ∧ ∃ w, g.Path v word w ∧ g.isFinal w

end Graph

end RegexCompiler
