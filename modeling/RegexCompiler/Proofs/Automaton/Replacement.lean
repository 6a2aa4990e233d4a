import RegexCompiler.Automaton.Ways
import RegexCompiler.Log
import RegexCompiler.Proofs.Automaton.Elimination
import RegexCompiler.Proofs.Graph.Counts
import RegexCompiler.Proofs.Graph.Orders
import RegexCompiler.Proofs.Graph.Refinement

/-!
# What replaces the ε edges

Without ε edges the automaton consists of the ways of one symbol, as far as they lead from the
entry. Every new edge, every new mark and every removal is counted once, however often the loops
come across it.
-/

namespace RegexCompiler.Graph

variable {κ : Type} {g : Graph State κ}

lemma shortcut_iff {v t : State} {label : Label} :
    g.Shortcut v label t ↔ ∃ c, label = .symbol c ∧ g.Path v [c] t := by
  unfold Shortcut
  constructor
  · rintro ⟨c, u, w, hlabel, hu, huw, hw⟩
    exact ⟨c, hlabel, Walk.symbol_iff.mpr ⟨u, w, hu, huw, hw⟩⟩
  · rintro ⟨c, hlabel, hpath⟩
    obtain ⟨u, w, hu, huw, hw⟩ := Walk.symbol_iff.mp hpath
    exact ⟨c, u, w, hlabel, hu, huw, hw⟩

lemma arrow_epsilonFree_eq (h : g.Coherent) : g.epsilonFree.Arrow = g.Shortcut := by
  funext v label t
  rw [eq_iff_iff, arrow_epsilonFree h, shortcut_iff]

lemma reaches_epsilonFree (h : g.Coherent) {v : State} :
    g.epsilonFree.Reaches .start v ↔
      g.contains .start ∧ ∃ word, Walk g.Shortcut .start word v := by
  unfold Reaches Path
  rw [contains_epsilonFree h, arrow_epsilonFree_eq h]

lemma arrow_addEdge_edge {first edge : Edge State} :
    (g.addEdge first.source first.target first.label).Arrow edge.source edge.label edge.target ↔
      g.Arrow edge.source edge.label edge.target ∨ edge = first :=
  arrow_addEdge.trans (or_congr_right edge_eq_iff.symm)

lemma mem_foldl_noteEdge (edges added : List (Edge State)) (edge : Edge State) :
    edge ∈ (edges.foldl noteEdge (g, added)).2 ↔
      edge ∈ added ∨ edge ∈ edges ∧ ¬g.Arrow edge.source edge.label edge.target := by
  induction edges generalizing g added with
  | nil => simp
  | cons first edges ih =>
    rw [List.foldl_cons]
    dsimp only [noteEdge]
    split
    · rename_i hedge
      rw [hasEdge_iff] at hedge
      rw [ih, List.mem_cons]
      grind
    · rename_i hedge
      rw [hasEdge_iff] at hedge
      rw [ih, arrow_addEdge_edge, List.mem_cons, List.mem_cons]
      grind

lemma nodup_foldl_noteEdge {edges added : List (Edge State)} (hadded : added.Nodup)
    (hpresent : ∀ edge ∈ added, g.Arrow edge.source edge.label edge.target) :
    (edges.foldl noteEdge (g, added)).2.Nodup := by
  induction edges generalizing g added with
  | nil => exact hadded
  | cons first edges ih =>
    rw [List.foldl_cons]
    dsimp only [noteEdge]
    split
    · exact ih hadded hpresent
    · rename_i hedge
      rw [hasEdge_iff] at hedge
      apply ih
      · exact List.nodup_cons.mpr ⟨mt (hpresent first) hedge, hadded⟩
      · intro edge hmem
        rw [arrow_addEdge_edge]
        exact (List.mem_cons.mp hmem).symm.imp_left (hpresent edge)

lemma mem_promoted {v : State} :
    v ∈ g.eliminateEpsilons.promoted ↔
      g.contains v ∧ ¬g.isFinal v ∧ ∃ w, g.Path v [] w ∧ g.isFinal w := by
  rw [eliminateEpsilons]
  exact mem_silentlyFinal

lemma nodup_promoted (h : g.Coherent) : g.eliminateEpsilons.promoted.Nodup := by
  have hkeys : g.closures.map Prod.fst = g.vertices := by
    unfold closures
    rw [List.map_map]
    exact List.map_id g.vertices
  have hsublist : (g.silentlyFinal g.closures).Sublist g.vertices := by
    rw [← hkeys]
    exact List.filter_sublist.map _
  rw [eliminateEpsilons]
  exact h.outgoing_tidy.keys_nodup.sublist hsublist

lemma mem_replicated (h : g.Coherent) {edge : Edge State} :
    edge ∈ g.eliminateEpsilons.replicated ↔
      g.Shortcut edge.source edge.label edge.target ∧
        ¬g.Arrow edge.source edge.label edge.target := by
  rw [eliminateEpsilons]
  dsimp only [addEdges]
  rw [List.mem_reverse, mem_foldl_noteEdge, mem_replicas h, arrow_foldl_markFinal, shortcut_iff]
  simp

lemma nodup_replicated : g.eliminateEpsilons.replicated.Nodup := by
  rw [eliminateEpsilons]
  exact List.nodup_reverse.mpr (nodup_foldl_noteEdge List.nodup_nil (by simp))

/-- What is dropped are the old ε edges: no shortcut is one. -/
lemma mem_dropped (h : g.Coherent) {edge : Edge State} :
    edge ∈ g.eliminateEpsilons.dropped ↔
      g.Arrow edge.source edge.label edge.target ∧ edge.label = .epsilon := by
  rw [dropped_eliminateEpsilons h, List.mem_filter, (coherent_saturated h).mem_edges,
    arrow_saturated h]
  cases edge.label with
  | symbol c => simp [Label.isEpsilon]
  | epsilon => simp [Label.isEpsilon]

lemma nodup_dropped (h : g.Coherent) : g.eliminateEpsilons.dropped.Nodup := by
  rw [dropped_eliminateEpsilons h]
  exact (coherent_saturated h).edges_nodup.filter _

section

variable (h : g.Coherent)
include h

lemma contains_eliminateEpsilons {v : State} :
    g.eliminateEpsilons.graph.contains v ↔
      g.contains .start ∧ ∃ word, Walk g.Shortcut .start word v := by
  rw [eliminateEpsilons_graph, contains_prune, reaches_epsilonFree h]
  refine and_iff_right_of_imp fun hreach => ?_
  exact (coherent_epsilonFree h).contains_of_reaches ((reaches_epsilonFree h).mpr hreach)

lemma arrow_eliminateEpsilons {v t : State} {label : Label} :
    g.eliminateEpsilons.graph.Arrow v label t ↔
      g.eliminateEpsilons.graph.contains v ∧ g.Shortcut v label t := by
  rw [contains_eliminateEpsilons h, eliminateEpsilons_graph, arrow_prune, reaches_epsilonFree h,
    arrow_epsilonFree_eq h, and_comm]

lemma isFinal_eliminateEpsilons {v : State} (hv : g.eliminateEpsilons.graph.contains v) :
    g.eliminateEpsilons.graph.isFinal v ↔ ∃ w, g.Path v [] w ∧ g.isFinal w := by
  have hg := contains_of_contains_eliminateEpsilons h hv
  rw [eliminateEpsilons_graph] at hv ⊢
  rw [isFinal_prune (contains_prune.mp hv).2, isFinal_epsilonFree h hg]

lemma vertexCount_epsilonFree : g.epsilonFree.vertexCount = g.vertexCount := by
  rw [(coherent_epsilonFree h).vertexCount_eq, h.vertexCount_eq]
  simp only [contains_epsilonFree h]

lemma vertexCount_eliminateEpsilons :
    g.vertexCount = g.eliminateEpsilons.pruned.length + g.eliminateEpsilons.graph.vertexCount := by
  have hpruned : g.eliminateEpsilons.pruned = g.epsilonFree.inaccessible .start := by
    rw [eliminateEpsilons, epsilonFree]
  rw [hpruned, eliminateEpsilons_graph, ← vertexCount_prune, vertexCount_epsilonFree h]

lemma becomes_eliminateEpsilons [Coordinate κ] : g.Becomes g.eliminateEpsilons.graph := by
  have hmarks : g.Becomes ((g.silentlyFinal g.closures).foldl markFinal g) :=
    becomes_foldl (fun g v => becomes_apply g (.markFinal v)) _ g
  have hsaturated : g.Becomes g.saturated := hmarks.trans (becomes_foldl_addEdge _ _)
  rw [eliminateEpsilons_graph, epsilonFree_eq h]
  exact (hsaturated.trans (becomes_foldl_removeEdge _ _)).trans (becomes_prune _ _)

end

variable [Coordinate κ]

lemma contains_of_isFinal_ofOperations {V : Type} [DecidableEq V]
    (operations : List (Operation V κ)) {v : V} (hv : (ofOperations operations).isFinal v) :
    (ofOperations operations).contains v := by
  obtain ⟨h, ht⟩ := Chronicle.tells_foldl Chronicle.orderly_empty Chronicle.tells_empty operations
  rw [isFinal_iff, ofOperations, ht.finals] at hv
  exact ht.contains_iff.mpr (h.finals_mem v hv)

lemma contains_of_isFinal_eliminateEpsilons (operations : List (Operation State κ)) {v : State}
    (hv : (ofOperations operations).eliminateEpsilons.graph.isFinal v) :
    (ofOperations operations).eliminateEpsilons.graph.contains v := by
  have hbecomes := becomes_eliminateEpsilons (coherent_ofOperations operations)
  obtain ⟨whole, hwhole⟩ := hbecomes.ofOperations
  rw [hwhole] at hv ⊢
  exact contains_of_isFinal_ofOperations whole hv

/-- Whatever graph operations have built, removing the ε edges leaves the vertices to which the
entry leads over shortcuts, with all their shortcuts as edges and no others. Those accept that led
to an accepting vertex silently. What is counted are the vertices that lead to one and do not accept
themselves, the shortcuts that were no edges, the ε edges and the vertices that are gone. -/
theorem eliminateEpsilons_exact (operations : List (Operation State κ)) :
    let g := ofOperations operations
    let e := g.eliminateEpsilons
    (∀ v, e.graph.contains v ↔ g.contains .start ∧ ∃ word, Walk g.Shortcut .start word v) ∧
      (∀ v label t, e.graph.Arrow v label t ↔ e.graph.contains v ∧ g.Shortcut v label t) ∧
      (∀ v t, ¬e.graph.Arrow v .epsilon t) ∧
      (∀ v, e.graph.isFinal v ↔ e.graph.contains v ∧ ∃ w, g.Path v [] w ∧ g.isFinal w) ∧
      e.graph.vertexCount ≤ g.vertexCount ∧
      e.counts = [
        ("finals_propagated",
          {v | g.contains v ∧ ¬g.isFinal v ∧ ∃ w, g.Path v [] w ∧ g.isFinal w}.ncard),
        ("edges_added",
          {edge : Edge State | g.Shortcut edge.source edge.label edge.target ∧
            ¬g.Arrow edge.source edge.label edge.target}.ncard),
        ("epsilons_removed",
          {edge : Edge State | g.Arrow edge.source edge.label edge.target ∧
            edge.label = .epsilon}.ncard),
        ("vertices_pruned", g.vertexCount - e.graph.vertexCount)] := by
  intro g e
  have h : g.Coherent := coherent_ofOperations operations
  have hcount : g.vertexCount = e.pruned.length + e.graph.vertexCount :=
    vertexCount_eliminateEpsilons h
  refine ⟨fun v => contains_eliminateEpsilons h, fun v label t => arrow_eliminateEpsilons h,
    no_epsilon_eliminateEpsilons h, ?_, ?_, ?_⟩
  · intro v
    constructor
    · intro hfinal
      have hv := contains_of_isFinal_eliminateEpsilons operations hfinal
      exact ⟨hv, (isFinal_eliminateEpsilons h hv).mp hfinal⟩
    · rintro ⟨hv, hsilent⟩
      exact (isFinal_eliminateEpsilons h hv).mpr hsilent
  · rw [hcount]
    exact Nat.le_add_left _ _
  · have hpromoted : e.promoted.length = _ :=
      (ncard_setOf (nodup_promoted h) fun _ => mem_promoted).symm
    have hreplicated : e.replicated.length = _ :=
      (ncard_setOf nodup_replicated fun _ => mem_replicated h).symm
    have hdropped : e.dropped.length = _ :=
      (ncard_setOf (nodup_dropped h) fun _ => mem_dropped h).symm
    have hpruned : e.pruned.length = g.vertexCount - e.graph.vertexCount :=
      Nat.eq_sub_of_add_eq hcount.symm
    rw [Elimination.counts, hpromoted, hreplicated, hdropped, hpruned]

/-- The two ways of reading `a` from the entry are one new edge. -/
example :
    (ofOperations (κ := Rat) [.addEdge .start (.fresh 0) .epsilon,
      .addEdge .start (.fresh 1) .epsilon, .addEdge (.fresh 0) .final (.symbol 'a'),
      .addEdge (.fresh 1) .final (.symbol 'a'), .markFinal .final]).eliminateEpsilons.counts =
      [("finals_propagated", 0), ("edges_added", 1), ("epsilons_removed", 2),
        ("vertices_pruned", 2)] := by
  cbv

end RegexCompiler.Graph
