import RegexCompiler.Graph.Subgraph
import RegexCompiler.Proofs.Graph.Counts
import RegexCompiler.Proofs.Graph.Refinement
import RegexCompiler.Proofs.Graph.Runs

/-!
# Pruning takes an induced subgraph

The chronicle of a graph shows that removing vertices one after the other filters every list of the
graph once. So a round of pruning leaves the subgraph of what the given vertex leads to. In there
the vertex still leads to everything, and the next round finds nothing to remove.
-/

namespace RegexCompiler

variable {V κ : Type} [DecidableEq V]

namespace Chronicle

variable {log : Chronicle V κ} {keep : V → Prop} [DecidablePred keep]

lemma outgoing_restrict {v : V} (hv : keep v) :
    (log.restrict keep).outgoing v = (log.outgoing v).filter (keep ·.2) := by
  unfold Chronicle.outgoing restrict
  rw [edgesAt_filter_ends keep, if_pos hv]

lemma incoming_restrict {v : V} (hv : keep v) :
    (log.restrict keep).incoming v = (log.incoming v).filter (keep ·.2) := by
  unfold Chronicle.incoming restrict
  simp only [and_comm (a := keep (Edge.source _))]
  rw [edgesAt_filter_ends keep, if_pos hv]

omit [DecidableEq V] in
lemma restrict_map (vertices : List V) {row row' : V → List (Label × V)}
    (hrow : ∀ v, keep v → row' v = (row v).filter (keep ·.2)) :
    (vertices.filter keep).map (fun v => (v, row' v)) =
      Adjacency.restrict keep (vertices.map fun v => (v, row v)) := by
  unfold Adjacency.restrict
  rw [List.filter_map, List.map_map]
  apply List.map_congr_left
  intro v hv
  rw [hrow v (of_decide_eq_true (List.mem_filter.mp hv).2)]
  rfl

lemma graph_restrict : (log.restrict keep).graph = log.graph.restrict keep := by
  unfold Chronicle.graph Graph.restrict
  congr 1
  · exact restrict_map log.vertices fun v => outgoing_restrict
  · exact restrict_map log.vertices fun v => incoming_restrict

open Classical in
lemma Tells.prune_eq_restrict [Coordinate κ] {g : Graph V κ} (ht : log.Tells g) (h : log.Orderly)
    (v : V) : g.prune v = g.restrict (g.Reaches v) := by
  have hreaches : log.Reaches v = g.Reaches v := by
    funext w
    exact propext ht.reaches_iff.symm
  have hprune := (ht.prune h v).eq_graph (h.restrict (log.Reaches v))
  rw [hprune, record, graph_restrict, ← ht.eq_graph h, hreaches]

end Chronicle

namespace Graph

variable {g : Graph V κ} {u v : V}

lemma neighbours_restrict (table : Adjacency V) (keep : V → Prop) [DecidablePred keep] (v : V) :
    (table.restrict keep).neighbours v =
      if keep v then (table.neighbours v).filter (keep ·.2) else [] := by
  induction table with
  | nil => simp [Adjacency.restrict]
  | cons entry table ih =>
    unfold Adjacency.restrict at ih ⊢
    rw [List.filter_cons, Adjacency.neighbours_cons]
    by_cases hentry : keep entry.1
    · rw [if_pos (decide_eq_true hentry), List.map_cons, Adjacency.neighbours_cons, ih]
      grind
    · rw [if_neg (by simpa using hentry), ih]
      grind

namespace Coherent

lemma length_inaccessible (h : g.Coherent) :
    (g.inaccessible v).length = {u | g.contains u ∧ ¬(g.prune v).contains u}.ncard := by
  symm
  apply ncard_setOf (h.outgoing_tidy.keys_nodup.filter _)
  intro u
  change u ∈ g.inaccessible v ↔ _
  rw [mem_inaccessible, contains_prune]
  tauto

end Coherent

lemma pruneRounds_iff {g' : Graph V κ} : PruneRounds v g g' ↔ g' = g.prune v := by
  constructor
  · intro h
    induction h with
    | last => rfl
    | next _ _ ih => exact ih.trans (prune_of_inaccessible_eq_nil inaccessible_prune)
  · rintro rfl
    by_cases hnone : g.inaccessible v = []
    · exact .last hnone
    · have hlast : PruneRounds v (g.prune v) ((g.prune v).prune v) := .last inaccessible_prune
      rw [prune_of_inaccessible_eq_nil inaccessible_prune] at hlast
      exact .next hnone hlast

open Classical in
/-- Whatever graph operations have built, pruning leaves the subgraph of the vertices to which the
given one leads over edges of any label: every list of the graph, without the entries that mention
others. The vertices that are gone are counted. No vertex that stays loses an edge that leaves it or
a word that it accepts. The next round changes nothing, so one round does what all rounds would do.
-/
theorem prune_takes_subgraph [Coordinate κ] (operations : List (Operation V κ)) (v : V) :
    let g := ofOperations operations
    let p := g.prune v
    p = g.restrict (g.Reaches v) ∧
      (g.inaccessible v).length = {u | g.contains u ∧ ¬p.contains u}.ncard ∧
      (∀ u, p.contains u → p.outgoing.neighbours u = g.outgoing.neighbours u) ∧
      (∀ u word, p.contains u → p.accepts u word = g.accepts u word) ∧
      (p.inaccessible v = [] ∧ p.prune v = p) ∧
      ∀ g', PruneRounds v g g' ↔ g' = p := by
  intro g p
  obtain ⟨horderly, htells⟩ :=
    Chronicle.tells_foldl Chronicle.orderly_empty Chronicle.tells_empty operations
  have h : g.Coherent := coherent_ofOperations operations
  have hinduced : p = g.restrict (g.Reaches v) := htells.prune_eq_restrict horderly v
  refine ⟨hinduced, h.length_inaccessible, ?_, ?_, ?_, fun g' => pruneRounds_iff⟩
  · intro u hu
    have hreach := (contains_prune.mp hu).2
    rw [hinduced]
    change (g.outgoing.restrict _).neighbours u = _
    rw [neighbours_restrict, if_pos hreach, List.filter_eq_self]
    rintro ⟨label, w⟩ hw
    exact decide_eq_true (hreach.extend (Walk.single hw))
  · intro u word hu
    rw [Bool.eq_iff_iff, accepts_iff_leads (h.prune v), accepts_iff_leads h]
    exact leads_prune (contains_prune.mp hu).2
  · exact ⟨inaccessible_prune, prune_of_inaccessible_eq_nil inaccessible_prune⟩

/-- An island with a cycle goes, and so does its edge into the part that stays. -/
theorem prune_takes_subgraph_island :
    let operations : List (Operation Nat Rat) := [
      .addEdge 0 1 (.symbol 'a'), .addEdge 1 1 .epsilon, .addEdge 2 3 .epsilon,
      .addEdge 3 2 (.symbol 'b'), .addEdge 3 1 .epsilon, .markFinal 1, .markFinal 3]
    let g := ofOperations operations
    let p := g.prune 0
    p.contains 1 ∧ p.outgoing.neighbours 1 = g.outgoing.neighbours 1 ∧
      p.accepts 1 ['b'] = g.accepts 1 ['b'] := by
  intro operations g p
  have hedge : g.Arrow 0 (.symbol 'a') 1 := hasEdge_iff.mp rfl
  have hstays : p.contains 1 := contains_prune.mpr ⟨rfl, Reaches.single hedge⟩
  obtain ⟨-, -, hedges, hwords, -⟩ := prune_takes_subgraph operations 0
  exact ⟨hstays, hedges 1 hstays, hwords 1 ['b'] hstays⟩

end Graph

end RegexCompiler
