import RegexCompiler.Proofs.Automaton.Replacement

/-!
# Removing ε edges twice

An automaton is reduced if it has no ε edge and the entry leads to all its vertices. Removing the ε
edges makes an automaton reduced, and in a reduced one it finds nothing to do: every closure is the
vertex alone, every replacing edge is there already, and there is nothing to drop or to prune.
-/

namespace RegexCompiler.Graph

variable {κ : Type} {g : Graph State κ}

/-- No edge is an ε edge, and the entry leads to every vertex. -/
structure Reduced (g : Graph State κ) : Prop where
  no_epsilon : ∀ v w, ¬g.Arrow v .epsilon w
  reached : ∀ v, g.contains v → g.Reaches .start v

lemma reduced_eliminateEpsilons (h : g.Coherent) : g.eliminateEpsilons.graph.Reduced :=
  ⟨no_epsilon_eliminateEpsilons h, fun _ => reaches_of_contains_eliminateEpsilons⟩

lemma addEdges_of_arrows {edges : List (Edge State)}
    (hedges : ∀ edge ∈ edges, g.Arrow edge.source edge.label edge.target) :
    g.addEdges edges = (g, []) := by
  have hnoted : edges.foldl noteEdge (g, []) = (g, []) := by
    induction edges with
    | nil => rfl
    | cons edge edges ih =>
      rw [List.forall_mem_cons] at hedges
      rw [List.foldl_cons, noteEdge, if_pos (hasEdge_iff.mpr hedges.1)]
      exact ih hedges.2
  rw [addEdges, hnoted]
  rfl

namespace Reduced

variable (hr : g.Reduced)
include hr

lemma silentlyFinal_eq_nil : g.silentlyFinal g.closures = [] := by
  rw [List.eq_nil_iff_forall_not_mem]
  intro v hv
  obtain ⟨-, hnot, w, hw, hfinal⟩ := mem_silentlyFinal.mp hv
  rw [eq_of_path_nil hr.no_epsilon hw] at hfinal
  exact hnot hfinal

lemma addEdges_replicas (h : g.Coherent) : g.addEdges (g.replicas g.closures) = (g, []) := by
  apply addEdges_of_arrows
  intro edge hedge
  obtain ⟨c, hlabel, hpath⟩ := (mem_replicas h).mp hedge
  obtain ⟨u, ha, hrest⟩ := (path_cons_iff hr.no_epsilon).mp hpath
  rw [hlabel, eq_of_path_nil hr.no_epsilon hrest]
  exact ha

lemma silentEdges_eq_nil (h : g.Coherent) : g.edges.filter (·.label.isEpsilon) = [] := by
  rw [List.filter_eq_nil_iff]
  intro edge hedge hsilent
  have ha := h.mem_edges.mp hedge
  cases hlabel : edge.label with
  | symbol c => simp [hlabel, Label.isEpsilon] at hsilent
  | epsilon =>
    rw [hlabel] at ha
    exact hr.no_epsilon _ _ ha

lemma eliminateEpsilons_eq (h : g.Coherent) :
    g.eliminateEpsilons =
      { graph := g, promoted := [], replicated := [], dropped := [], pruned := [] } := by
  have hnone : g.inaccessible .start = [] := inaccessible_eq_nil hr.reached
  unfold eliminateEpsilons
  simp only [hr.silentlyFinal_eq_nil, List.foldl_nil, hr.addEdges_replicas h,
    hr.silentEdges_eq_nil h, hnone, prune_of_inaccessible_eq_nil hnone]

end Reduced

/-- Whatever graph operations have built, removing the ε edges a second time gives back the same
graph, with all its lists in their order and with its positions, and counts nothing. -/
theorem eliminateEpsilons_idempotent [Coordinate κ] (operations : List (Operation State κ)) :
    let n := (ofOperations operations).eliminateEpsilons.graph
    n.eliminateEpsilons.graph = n ∧
      n.eliminateEpsilons.counts = [("finals_propagated", 0), ("edges_added", 0),
        ("epsilons_removed", 0), ("vertices_pruned", 0)] := by
  intro n
  have h : (ofOperations operations).Coherent := coherent_ofOperations operations
  have hsecond := (reduced_eliminateEpsilons h).eliminateEpsilons_eq (coherent_eliminateEpsilons h)
  change n.eliminateEpsilons = _ at hsecond
  rw [hsecond]
  exact ⟨rfl, rfl⟩

end RegexCompiler.Graph
