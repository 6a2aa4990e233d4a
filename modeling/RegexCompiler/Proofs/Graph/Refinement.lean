import RegexCompiler.Proofs.Graph.Chronicle
import RegexCompiler.Proofs.Graph.Layouts
import RegexCompiler.Proofs.Graph.Pruning
import RegexCompiler.Proofs.Graph.Series

/-!
# Graphs refine chronicles

The two tables of a graph, its marks and its positions are at every point of its history what the
chronicle of the same operations tells: each entry of a table is the sublist of the logged edges at
its vertex, in the order of the log. One lemma for each operation carries this from a chronicle to
the next one.
-/

namespace RegexCompiler.Chronicle

open Adjacency RegexCompiler.Graph

variable {V κ : Type} [DecidableEq V] {log : Chronicle V κ} {g : Graph V κ}

namespace Tells

lemma addVertex (ht : log.Tells g) (v : V) : (log.enterVertex v).Tells (g.addVertex v) := by
  by_cases hv : v ∈ log.vertices
  · rw [addVertex_of_contains (ht.contains_iff.mpr hv)]
    rwa [enterVertex_of_mem hv]
  · have hnew : ¬g.contains v := mt ht.contains_iff.mp hv
    unfold enterVertex enter Graph.addVertex
    rw [if_neg hv, if_neg hnew]
    refine ⟨?_, ?_, fun u => ?_, fun u => ?_, ht.finals, ht.layout⟩
    · simpa [keys] using ht.outgoing_keys
    · simpa [keys] using ht.incoming_keys
    · exact (neighbours_append_isolated _ v u).trans (ht.outgoing u)
    · exact (neighbours_append_isolated _ v u).trans (ht.incoming u)

lemma removeVertex (ht : log.Tells g) (h : log.Orderly) (v : V) :
    (log.restrict (· ≠ v)).Tells (g.removeVertex v) := by
  have hg := ht.coherent h
  by_cases hv : g.contains v
  · refine ⟨?_, ?_, fun u => ?_, fun u => ?_, ?_, ?_⟩
    · rw [keys_outgoing_removeVertex, ht.outgoing_keys]
      rfl
    · rw [hg.keys_incoming_removeVertex, ht.incoming_keys]
      rfl
    · rw [hg.outgoing_removeVertex, ht.outgoing]
      unfold Chronicle.outgoing Chronicle.restrict
      rw [edgesAt_filter_ends (· ≠ v), ite_not]
    · rw [hg.incoming_removeVertex, ht.incoming]
      unfold Chronicle.incoming Chronicle.restrict
      -- here the near end is the target, which the log looks at last
      simp only [and_comm (a := Edge.source _ ≠ v)]
      rw [edgesAt_filter_ends (· ≠ v), ite_not]
    · simp only [Graph.removeVertex, hv, if_true, ht.finals, Chronicle.restrict]
    · simp only [Graph.removeVertex, hv, if_true, ht.layout, Chronicle.restrict]
  · have hother : ∀ u ∈ log.vertices, u ≠ v := by
      rintro u hu rfl
      exact hv (ht.contains_iff.mpr hu)
    rw [removeVertex_of_not_contains hv, h.restrict_eq_self hother]
    exact ht

lemma foldl_removeVertex (ht : log.Tells g) (h : log.Orderly) (doomed : List V) :
    (log.restrict (· ∉ doomed)).Tells (doomed.foldl Graph.removeVertex g) := by
  induction doomed generalizing log g with
  | nil =>
    rw [h.restrict_eq_self fun v _ => List.not_mem_nil]
    exact ht
  | cons v doomed ih =>
    have hkeep : ∀ u ∈ log.vertices, u ∉ v :: doomed ↔ u ≠ v ∧ u ∉ doomed := by
      intro u _
      rw [List.mem_cons, not_or]
    rw [h.restrict_congr hkeep, ← restrict_restrict]
    exact ih (ht.removeVertex h v) (h.restrict (· ≠ v))

variable [Coordinate κ]

lemma addEdge (ht : log.Tells g) (source target : V) (label : Label) :
    (log.record (.addEdge source target label)).Tells (g.addEdge source target label) := by
  have hends := (ht.addVertex source).addVertex target
  have hsource : source ∈ ((g.addVertex source).addVertex target).outgoing.keys := by
    rw [← Graph.contains_iff]
    simp
  have htarget : target ∈ ((g.addVertex source).addVertex target).incoming.keys := by
    rw [hends.incoming_keys, ← hends.contains_iff]
    simp
  dsimp only [Graph.addEdge, record]
  by_cases hedge : (⟨source, target, label⟩ : Edge V) ∈ log.edges
  · rw [enter_of_mem hedge, if_pos (hends.hasEdge_iff.mpr hedge)]
    exact hends
  · have hnew : ¬((g.addVertex source).addVertex target).hasEdge source target label :=
      mt hends.hasEdge_iff.mp hedge
    rw [enter, if_neg hedge, if_neg hnew]
    refine ⟨?_, ?_, fun v => ?_, fun v => ?_, hends.finals, hends.layout⟩
    · rw [keys_modify]
      exact hends.outgoing_keys
    · rw [keys_modify]
      exact hends.incoming_keys
    · unfold Chronicle.outgoing
      rw [neighbours_modify_append hsource, hends.outgoing, edgesAt_append_singleton]
      rfl
    · unfold Chronicle.incoming
      rw [neighbours_modify_append htarget, hends.incoming, edgesAt_append_singleton]
      rfl

lemma removeEdge (ht : log.Tells g) (h : log.Orderly) (source target : V) (label : Label) :
    (log.record (.removeEdge source target label)).Tells (g.removeEdge source target label) := by
  have hg := ht.coherent h
  dsimp only [Graph.removeEdge, record]
  by_cases hedge : g.Arrow source label target
  · have hsource := mem_keys_of_mem_neighbours hedge
    have htarget := mem_keys_of_mem_neighbours ((hg.mirrored source label target).mp hedge)
    rw [if_pos (Graph.hasEdge_iff.mpr hedge)]
    refine ⟨?_, ?_, fun v => ?_, fun v => ?_, ht.finals, ht.layout⟩
    · rw [keys_modify]
      exact ht.outgoing_keys
    · rw [keys_modify]
      exact ht.incoming_keys
    · unfold Chronicle.outgoing
      rw [hg.outgoing_tidy.neighbours_modify_erase hsource, ht.outgoing,
        edgesAt_filter_ne fun _ => eq_of_ends]
      rfl
    · unfold Chronicle.incoming
      rw [hg.incoming_tidy.neighbours_modify_erase htarget, ht.incoming,
        edgesAt_filter_ne fun _ htarget hsource => eq_of_ends hsource htarget]
      rfl
  · have hedges : log.edges.filter (· ≠ ⟨source, target, label⟩) = log.edges :=
      filter_ne_of_not_mem (mt ht.arrow_iff.mpr hedge)
    rw [if_neg (mt Graph.hasEdge_iff.mp hedge), hedges]
    exact ht

lemma prune (ht : log.Tells g) (h : log.Orderly) (v : V) :
    (log.record (.prune v)).Tells (g.prune v) := by
  classical
  have hkeep : ∀ u ∈ log.vertices, log.Reaches v u ↔ u ∉ g.inaccessible v := by
    intro u hu
    rw [mem_inaccessible, ht.reaches_iff, ht.contains_iff]
    tauto
  dsimp only [record]
  rw [h.restrict_congr hkeep]
  exact ht.foldl_removeVertex h _

lemma markFinal (ht : log.Tells g) (v : V) :
    (log.record (.markFinal v)).Tells (g.markFinal v) := by
  dsimp only [Graph.markFinal, record]
  by_cases hv : v ∈ log.vertices
  · have hcontains := ht.contains_iff.mpr hv
    rw [if_pos hv]
    by_cases hfinal : v ∈ log.finals
    · rw [enter_of_mem hfinal]
      simpa [hcontains, isFinal, ht.finals, hfinal] using ht
    · rw [enter, if_neg hfinal]
      simp only [hcontains, isFinal, ht.finals, hfinal, decide_false, Bool.not_false, Bool.and_self,
        if_true]
      exact { ht with finals := rfl }
  · have hcontains : g.contains v = false := by simpa using mt ht.contains_iff.mp hv
    simpa [hv, hcontains] using ht

lemma setPosition (ht : log.Tells g) (h : log.Orderly) (v : V) (position : Position κ) :
    (log.record (.setPosition v position)).Tells (g.setPosition v position) := by
  dsimp only [Graph.setPosition, record]
  by_cases hv : v ∈ log.vertices
  · rw [if_pos hv, if_pos (ht.contains_iff.mpr hv), ht.layout, place_eq_assign h.places_nodup]
    exact { ht with layout := rfl }
  · rw [if_neg hv, if_neg (mt ht.contains_iff.mp hv)]
    exact ht

lemma assignLayout (ht : log.Tells g) (h : log.Orderly) (anchor : V) (origin : Position κ) :
    (log.record (.assignLayout anchor origin)).Tells (g.assignLayout anchor origin) := by
  have hg := ht.coherent h
  have hlayout := hg.layout_assignLayout anchor origin
  have hafter := ht.relayout (sameShape_assignLayout anchor origin)
  rw [hlayout, ht.eq_graph h] at hafter
  rw [ht.eq_graph h]
  exact hafter

theorem apply (ht : log.Tells g) (h : log.Orderly) (operation : Operation V κ) :
    (log.record operation).Tells (operation.apply g) := by
  cases operation with
  | addVertex v => exact ht.addVertex v
  | removeVertex v => exact ht.removeVertex h v
  | addEdge source target label => exact ht.addEdge source target label
  | removeEdge source target label => exact ht.removeEdge h source target label
  | markFinal v => exact ht.markFinal v
  | setPosition v position => exact ht.setPosition h v position
  | clearLayout => exact { ht with layout := rfl }
  | assignLayout anchor origin => exact ht.assignLayout h anchor origin
  | prune v => exact ht.prune h v

end Tells

namespace Orderly

lemma enterEdge (h : log.Orderly) {edge : Edge V} (hsource : edge.source ∈ log.vertices)
    (htarget : edge.target ∈ log.vertices) :
    { log with edges := enter log.edges edge : Chronicle V κ }.Orderly :=
  { h with
    edges_nodup := nodup_enter h.edges_nodup edge
    ends_mem := by
      intro other hother
      rcases mem_enter.mp hother with hother | rfl
      · exact h.ends_mem other hother
      · exact ⟨hsource, htarget⟩ }

omit [DecidableEq V] in
lemma withLayout (h : log.Orderly) {layout : List (V × Position κ)}
    (hnodup : (layout.map Prod.fst).Nodup) (hmem : ∀ v ∈ layout.map Prod.fst, v ∈ log.vertices) :
    { log with layout := layout : Chronicle V κ }.Orderly :=
  { h with
    places_nodup := hnodup
    places_mem := hmem }

theorem record [Coordinate κ] (h : log.Orderly) (operation : Operation V κ) :
    (log.record operation).Orderly := by
  classical
  cases operation with
  | addVertex v => exact h.enterVertex v
  | removeVertex v => exact h.restrict _
  | addEdge source target label =>
    apply ((h.enterVertex source).enterVertex target).enterEdge
    · exact mem_enter.mpr (Or.inl (mem_enter.mpr (Or.inr rfl)))
    · exact mem_enter.mpr (Or.inr rfl)
  | removeEdge source target label =>
    exact { h with
      edges_nodup := h.edges_nodup.filter _
      ends_mem := fun edge hedge => h.ends_mem edge (List.mem_of_mem_filter hedge) }
  | markFinal v =>
    dsimp only [Chronicle.record]
    split
    · rename_i hv
      exact { h with
        finals_nodup := nodup_enter h.finals_nodup v
        finals_mem := fun u hu => (mem_enter.mp hu).elim (h.finals_mem u) fun heq => heq ▸ hv }
    · exact h
  | setPosition v position =>
    dsimp only [Chronicle.record]
    split
    · rename_i hv
      apply h.withLayout
      · rw [keys_assign]
        exact nodup_enter h.places_nodup v
      · intro u hu
        rw [keys_assign, mem_enter] at hu
        exact hu.elim (h.places_mem u) fun heq => heq ▸ hv
    · exact h
  | clearLayout => exact h.withLayout List.nodup_nil fun v hv => absurd hv List.not_mem_nil
  | assignLayout anchor origin =>
    have hg := h.tells_graph.coherent h
    apply h.withLayout
    · exact hg.places_nodup anchor origin
    · intro v hv
      exact h.tells_graph.contains_iff.mp (hg.mem_places.mp hv)
  | prune v => exact h.restrict _

end Orderly

/-! ### Answers -/

lemma Tells.takesEffect_iff (ht : log.Tells g) (operation : Operation V κ) :
    operation.takesEffect g ↔ log.Answers operation := by
  cases operation with
  | addVertex v => simp [Operation.takesEffect, Answers, ← ht.contains_iff]
  | removeVertex v => exact ht.contains_iff
  | addEdge source target label => simp [Operation.takesEffect, Answers, ← ht.hasEdge_iff]
  | removeEdge source target label => exact ht.hasEdge_iff
  | markFinal v =>
    simp [Operation.takesEffect, Answers, ← ht.contains_iff, ← ht.finals, isFinal]
  | setPosition v position => exact ht.contains_iff
  | clearLayout => simp [Operation.takesEffect, Answers]
  | assignLayout anchor origin => simp [Operation.takesEffect, Answers]
  | prune v =>
    simp only [Operation.takesEffect, Answers, Bool.not_eq_true', ← ht.reaches_iff,
      ← ht.contains_iff, ← mem_inaccessible]
    exact List.isEmpty_eq_false_iff_exists_mem

variable [Coordinate κ]

lemma apply_eq_self (hg : g.Coherent) {operation : Operation V κ}
    (h : operation.takesEffect g = false) : operation.apply g = g := by
  cases operation with
  | addVertex v => exact addVertex_of_contains (by simpa [Operation.takesEffect] using h)
  | removeVertex v => exact removeVertex_of_not_contains (by simpa [Operation.takesEffect] using h)
  | addEdge source target label =>
    have hedge : g.hasEdge source target label := by simpa [Operation.takesEffect] using h
    exact hg.addEdge_of_arrow (hasEdge_iff.mp hedge)
  | removeEdge source target label => exact if_neg (by simpa [Operation.takesEffect] using h)
  | markFinal v => exact if_neg (by rw [← Bool.not_eq_true] at h; exact h)
  | setPosition v position => exact if_neg (by simpa [Operation.takesEffect] using h)
  | clearLayout => exact absurd h Bool.false_ne_true.symm
  | assignLayout anchor origin => exact absurd h Bool.false_ne_true.symm
  | prune v =>
    exact prune_of_inaccessible_eq_nil (by simpa [Operation.takesEffect] using h)

lemma takesEffect_apply (hg : g.Coherent) {operation : Operation V κ}
    (hcontent : operation.isPlacing = false) :
    operation.takesEffect (operation.apply g) = false := by
  cases operation with
  | addVertex v => simp [Operation.takesEffect, Operation.apply]
  | removeVertex v =>
    rw [Operation.takesEffect, Operation.apply, Bool.eq_false_iff, Ne, contains_removeVertex]
    exact fun h => h.2 rfl
  | addEdge source target label =>
    simp [Operation.takesEffect, Operation.apply, hasEdge_iff]
  | removeEdge source target label =>
    rw [Operation.takesEffect, Operation.apply, Bool.eq_false_iff, Ne, hasEdge_iff,
      arrow_removeEdge hg]
    exact fun h => h.2 ⟨rfl, rfl, rfl⟩
  | markFinal v =>
    rw [Operation.takesEffect, Operation.apply, Bool.eq_false_iff, Ne, Bool.and_eq_true,
      contains_markFinal, Bool.not_eq_true', ← Bool.not_eq_true, isFinal_markFinal]
    exact fun h => h.2 (Or.inr ⟨rfl, h.1⟩)
  | prune v => simp [Operation.takesEffect, Operation.apply, inaccessible_prune]
  | setPosition v position => cases hcontent
  | clearLayout => cases hcontent
  | assignLayout anchor origin => cases hcontent

/-- Operations that add, remove or mark answer whether they have changed the graph, since right
after such an operation it finds nothing to do. A position can be replaced by itself. -/
theorem takesEffect_iff_apply_ne (hg : g.Coherent) {operation : Operation V κ}
    (hcontent : operation.isPlacing = false) :
    operation.takesEffect g ↔ operation.apply g ≠ g := by
  constructor
  · intro heffect hself
    have hagain := takesEffect_apply hg hcontent
    rw [hself, heffect] at hagain
    cases hagain
  · intro hne
    by_contra hno
    exact hne (apply_eq_self hg (Bool.eq_false_iff.mpr hno))

lemma Orderly.record_eq_self (h : log.Orderly) {operation : Operation V κ}
    (hno : ¬log.Answers operation) : log.record operation = log := by
  classical
  cases operation with
  | addVertex v =>
    have hv : v ∈ log.vertices := not_not.mp hno
    exact enterVertex_of_mem hv
  | removeVertex v =>
    apply h.restrict_eq_self
    rintro u hu rfl
    exact hno hu
  | addEdge source target label =>
    have hedge : (⟨source, target, label⟩ : Edge V) ∈ log.edges := not_not.mp hno
    obtain ⟨hsource, htarget⟩ := h.ends_mem _ hedge
    simp only [Chronicle.record, enterVertex_of_mem hsource, enterVertex_of_mem htarget,
      enter_of_mem hedge]
  | removeEdge source target label =>
    have hedges : log.edges.filter (· ≠ ⟨source, target, label⟩) = log.edges :=
      filter_ne_of_not_mem hno
    simp only [Chronicle.record, hedges]
  | markFinal v =>
    dsimp only [Chronicle.record]
    split
    · rename_i hv
      have hfinal : v ∈ log.finals := by
        by_contra hfinal
        exact hno ⟨hv, hfinal⟩
      rw [enter_of_mem hfinal]
    · rfl
  | setPosition v position => exact if_neg hno
  | clearLayout => exact absurd trivial hno
  | assignLayout anchor origin => exact absurd trivial hno
  | prune v =>
    apply h.restrict_eq_self
    intro u hu
    by_contra hreach
    exact hno ⟨u, hu, hreach⟩

/-! ### Whole histories -/

/-- The log and what it tells are kept through every sequence of operations. -/
theorem tells_foldl (h : log.Orderly) (ht : log.Tells g) (operations : List (Operation V κ)) :
    (operations.foldl record log).Orderly ∧
      (operations.foldl record log).Tells (operations.foldl Operation.apply g) := by
  induction operations generalizing log g with
  | nil => exact ⟨h, ht⟩
  | cons operation operations ih => exact ih (h.record operation) (ht.apply h operation)

/-- Graphs refine chronicles. After any operations the graph shows exactly what the orderly log of
these operations tells, both tables mirror each other, marks and positions belong to vertices, and
the next operation, whichever it is, gives the answer that the log gives; if it finds nothing to do,
nothing changes. -/
theorem ofOperations_refines_chronicle (operations : List (Operation V κ)) :
    let log := Chronicle.ofOperations operations
    let g := Graph.ofOperations operations
    log.Orderly ∧ log.Tells g ∧
      (∀ v label w,
        (label, w) ∈ g.outgoing.neighbours v ↔ (label, v) ∈ g.incoming.neighbours w) ∧
      (∀ v ∈ g.finals, g.contains v) ∧ (∀ v ∈ g.layout.map Prod.fst, g.contains v) ∧
      g.edgeCount = log.edges.length ∧
      ∀ operation : Operation V κ,
        (operation.takesEffect g ↔ log.Answers operation) ∧
          (operation.takesEffect g = false →
            operation.apply g = g ∧ log.record operation = log) := by
  intro log g
  obtain ⟨h, ht⟩ : log.Orderly ∧ log.Tells g := tells_foldl orderly_empty tells_empty operations
  have hg := ht.coherent h
  refine ⟨h, ht, hg.mirrored, ?_, ?_, ?_, fun operation => ⟨?_, fun hno => ⟨?_, ?_⟩⟩⟩
  · intro v hv
    rw [ht.finals] at hv
    exact ht.contains_iff.mpr (h.finals_mem v hv)
  · intro v hv
    rw [ht.layout] at hv
    exact ht.contains_iff.mpr (h.places_mem v hv)
  · exact (ht.edges_perm h).length_eq
  · exact ht.takesEffect_iff operation
  · exact apply_eq_self hg hno
  · apply h.record_eq_self
    rw [← ht.takesEffect_iff, hno]
    exact Bool.false_ne_true

end RegexCompiler.Chronicle
