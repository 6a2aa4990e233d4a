import Mathlib.Data.List.Basic
import RegexCompiler.Automaton.Ways
import RegexCompiler.Log
import RegexCompiler.Proofs.Automaton.Determinization
import RegexCompiler.Proofs.Graph.Counts
import RegexCompiler.Proofs.Graph.Layouts
import RegexCompiler.Proofs.Graph.Orders

/-!
# The sets of the deterministic automaton

The search finds exactly the sets that words over the alphabet lead to, and each of them enters the
graph when it is found. Nothing is left for pruning to remove, since a word that leads to a set
spells a path to it.
-/

namespace RegexCompiler.Graph

variable {κ : Type} {g : Graph State κ} {alphabet : Alphabet}

lemma statesAfter_concat (word : List Char) (c : Char) :
    g.statesAfter (word ++ [c]) = g.successorSet (g.statesAfter word) c := by
  unfold statesAfter
  rw [List.foldl_append, List.foldl_cons, List.foldl_nil]

lemma exists_mem_of_successorSet {s : StateSet} {c : Char} (h : ∃ v, v ∈ g.successorSet s c) :
    ∃ v, v ∈ s := by
  obtain ⟨v, hv⟩ := h
  obtain ⟨u, hu, -⟩ := mem_successorSet.mp hv
  exact ⟨u, hu⟩

lemma exists_mem_of_foldl {s : StateSet} {word : List Char}
    (h : ∃ v, v ∈ word.foldl g.successorSet s) : ∃ v, v ∈ s := by
  induction word generalizing s with
  | nil => exact h
  | cons c word ih => exact exists_mem_of_successorSet (ih h)

lemma attains_entry : g.Attains alphabet .entry :=
  ⟨⟨.start, mem_entry.mpr rfl⟩, [], by simp, rfl⟩

lemma Attains.next {s t : StateSet} (hs : g.Attains alphabet s)
    (ht : t ∈ g.nextSets alphabet s) : g.Attains alphabet t := by
  obtain ⟨-, word, hword, rfl⟩ := hs
  obtain ⟨c, hc, rfl, hmember⟩ := mem_nextSets.mp ht
  refine ⟨hmember, word ++ [c], ?_, statesAfter_concat word c⟩
  rw [List.forall_mem_append, List.forall_mem_singleton]
  exact ⟨hword, hc⟩

theorem mem_reachableSets {s : StateSet} :
    s ∈ g.reachableSets alphabet ↔ g.Attains alphabet s := by
  constructor
  · intro hs
    have hreach := mem_visited_iff.mp hs
    clear hs
    induction hreach with
    | refl => exact attains_entry
    | tail _ ht ih => exact ih.next ht
  · rintro ⟨hmember, word, hword, rfl⟩
    induction word using List.reverseRecOn with
    | nil => exact entry_mem_reachableSets
    | append_singleton word c ih =>
      rw [List.forall_mem_append, List.forall_mem_singleton] at hword
      rw [statesAfter_concat] at hmember ⊢
      have hbefore := ih hword.1 (exists_mem_of_successorSet hmember)
      exact mem_reachableSets_of_next hbefore (mem_nextSets.mpr ⟨c, hword.2, rfl, hmember⟩)

lemma reachableSets_nodup : (g.reachableSets alphabet).Nodup :=
  visited_nodup _

section InStep

variable {dfa : Graph StateSet κ}

lemma map_target_transitionsFrom (s : StateSet) :
    (g.transitionsFrom alphabet s).map Edge.target = g.nextSets alphabet s := by
  unfold transitionsFrom nextSets
  rw [List.map_map]
  rfl

lemma source_of_mem_transitionsFrom {s : StateSet} :
    ∀ edge ∈ g.transitionsFrom alphabet s, edge.source = s :=
  fun _ hedge => (mem_transitionsFrom.mp hedge).1

lemma vertices_installSet {s : StateSet} (hs : s ∈ dfa.vertices) :
    (g.installSet alphabet dfa s).vertices =
      dfa.vertices ++ newcomers dfa.vertices (g.nextSets alphabet s) := by
  unfold installSet
  rw [← map_target_transitionsFrom]
  split
  · have hmarked : (dfa.markFinal s).vertices = dfa.vertices := by
      rw [vertices, outgoing_markFinal, vertices]
    rw [vertices_foldl_addEdge (hmarked ▸ hs) source_of_mem_transitionsFrom, hmarked]
  · exact vertices_foldl_addEdge hs source_of_mem_transitionsFrom

lemma finals_installSet {s : StateSet} (hs : dfa.contains s) (hnew : s ∉ dfa.finals) :
    (g.installSet alphabet dfa s).finals =
      dfa.finals ++ [s].filter fun s => s.members.any g.isFinal := by
  unfold installSet
  rw [finals_foldl_addEdge, List.filter_cons, List.filter_nil]
  split
  · exact finals_markFinal hs hnew
  · exact (List.append_nil _).symm

/-- The search and the graph are in step: what has been seen are the vertices, in one order, and all
that waits in the queue has been seen. -/
structure InStep (dfa : Graph StateSet κ) (queue seen : List StateSet) : Prop where
  vertices_eq : dfa.vertices = seen
  queued : ∀ s ∈ queue, s ∈ seen

namespace InStep

variable {queue seen : List StateSet}

lemma contains {s : StateSet} (h : InStep dfa queue seen) (hs : s ∈ queue) : dfa.contains s := by
  rw [contains_iff, ← vertices, h.vertices_eq]
  exact h.queued s hs

lemma installSet {s : StateSet} (h : InStep dfa (s :: queue) seen) :
    InStep (g.installSet alphabet dfa s) (queue ++ newcomers seen (g.nextSets alphabet s))
      (seen ++ newcomers seen (g.nextSets alphabet s)) where
  vertices_eq := by
    rw [vertices_installSet (contains_iff.mp (h.contains List.mem_cons_self)), h.vertices_eq]
  queued t ht := by
    rw [List.mem_append] at ht ⊢
    exact ht.imp_left fun hmem => h.queued t (List.mem_cons_of_mem _ hmem)

lemma vertices_foldl {bounded : Bounded (g.nextSets alphabet)} (h : InStep dfa queue seen) :
    (((breadthFirst (g.nextSets alphabet) bounded queue seen).map Prod.fst).foldl
        (g.installSet alphabet) dfa).vertices =
      seen ++ (breadthFirst (g.nextSets alphabet) bounded queue seen).flatMap Prod.snd := by
  fun_induction breadthFirst (g.nextSets alphabet) bounded queue seen generalizing dfa with
  | case1 => simpa using h.vertices_eq
  | case2 seen s queue found =>
    rename_i ih
    rw [List.map_cons, List.foldl_cons, ih h.installSet, List.flatMap_cons, List.append_assoc]

lemma finals_foldl {bounded : Bounded (g.nextSets alphabet)} (h : InStep dfa queue seen)
    (hnodup : ((breadthFirst (g.nextSets alphabet) bounded queue seen).map Prod.fst).Nodup)
    (hnew : ∀ s ∈ (breadthFirst (g.nextSets alphabet) bounded queue seen).map Prod.fst,
      s ∉ dfa.finals) :
    (((breadthFirst (g.nextSets alphabet) bounded queue seen).map Prod.fst).foldl
        (g.installSet alphabet) dfa).finals =
      dfa.finals ++ ((breadthFirst (g.nextSets alphabet) bounded queue seen).map Prod.fst).filter
        fun s => s.members.any g.isFinal := by
  fun_induction breadthFirst (g.nextSets alphabet) bounded queue seen generalizing dfa with
  | case1 => simp
  | case2 seen s queue found =>
    rename_i ih
    rw [List.map_cons, List.nodup_cons] at hnodup
    rw [List.map_cons, List.forall_mem_cons] at hnew
    have hstep : (g.installSet alphabet dfa s).finals = _ :=
      finals_installSet (h.contains List.mem_cons_self) hnew.1
    have hrest : ∀ t ∈ (breadthFirst (g.nextSets alphabet) bounded (queue ++ found)
        (seen ++ found)).map Prod.fst, t ∉ (g.installSet alphabet dfa s).finals := by
      intro t ht
      rw [hstep, List.mem_append, List.mem_filter, List.mem_singleton]
      rintro (hold | ⟨rfl, -⟩)
      · exact hnew.2 t ht hold
      · exact hnodup.1 ht
    rw [List.map_cons, List.foldl_cons, ih h.installSet hnodup.2 hrest, hstep, List.append_assoc,
      ← List.filter_append, List.singleton_append]

end InStep

end InStep

lemma inStep_initial :
    InStep ((empty : Graph StateSet κ).addVertex .entry) [.entry] [.entry] :=
  ⟨rfl, fun _ hs => hs⟩

theorem vertices_subsetGraph :
    (g.subsetGraph alphabet).vertices = g.reachableSets alphabet := by
  unfold subsetGraph reachableSets
  rw [inStep_initial.vertices_foldl, breadthFirst_visited]

theorem finals_subsetGraph : (g.subsetGraph alphabet).finals =
    (g.reachableSets alphabet).filter fun s => s.members.any g.isFinal :=
  inStep_initial.finals_foldl reachableSets_nodup fun _ _ => List.not_mem_nil

lemma contains_subsetGraph {s : StateSet} :
    (g.subsetGraph alphabet).contains s ↔ g.Attains alphabet s := by
  rw [← mem_reachableSets, ← vertices_subsetGraph]
  exact contains_iff

lemma path_subsetGraph_iff {s t : StateSet} (hs : s ∈ g.reachableSets alphabet)
    {word : List Char} :
    (g.subsetGraph alphabet).Path s word t ↔
      (∀ c ∈ word, c ∈ alphabet) ∧ word.foldl g.successorSet s = t ∧ ∃ v, v ∈ t := by
  have hsilent : ∀ s t, ¬(g.subsetGraph alphabet).Arrow s .epsilon t :=
    deterministic_subsetGraph.no_epsilon
  induction word generalizing s with
  | nil =>
    constructor
    · intro hpath
      obtain rfl := eq_of_path_nil hsilent hpath
      exact ⟨by simp, rfl, (mem_reachableSets.mp hs).1⟩
    · rintro ⟨-, rfl, -⟩
      exact .refl s
  | cons c word ih =>
    rw [path_cons_iff hsilent, List.forall_mem_cons, List.foldl_cons]
    constructor
    · rintro ⟨u, hu, hpath⟩
      obtain ⟨-, d, hd, hlabel, rfl, hmember⟩ := arrow_subsetGraph.mp hu
      cases hlabel
      have hnext := mem_nextSets.mpr ⟨c, hd, rfl, hmember⟩
      obtain ⟨hword, hlast⟩ := (ih (mem_reachableSets_of_next hs hnext)).mp hpath
      exact ⟨⟨hd, hword⟩, hlast⟩
    · rintro ⟨⟨hc, hword⟩, rfl, hmember⟩
      have hnonempty := exists_mem_of_foldl hmember
      have hnext := mem_reachableSets_of_next hs (mem_nextSets.mpr ⟨c, hc, rfl, hnonempty⟩)
      have hedge : (g.subsetGraph alphabet).Arrow s (.symbol c) (g.successorSet s c) :=
        arrow_subsetGraph.mpr ⟨hs, c, hc, rfl, rfl, hnonempty⟩
      exact ⟨_, hedge, (ih hnext).mpr ⟨hword, rfl, hmember⟩⟩

lemma path_entry_subsetGraph {word : List Char} {t : StateSet} :
    (g.subsetGraph alphabet).Path .entry word t ↔
      (∀ c ∈ word, c ∈ alphabet) ∧ g.statesAfter word = t ∧ ∃ v, v ∈ t :=
  path_subsetGraph_iff entry_mem_reachableSets

lemma inaccessible_subsetGraph : (g.subsetGraph alphabet).inaccessible .entry = [] := by
  rw [List.eq_nil_iff_forall_not_mem]
  intro s hs
  obtain ⟨hcontains, hnot⟩ := mem_inaccessible.mp hs
  obtain ⟨hmember, word, hword, hlast⟩ := contains_subsetGraph.mp hcontains
  exact hnot ⟨contains_entry_subsetGraph, word, path_entry_subsetGraph.mpr ⟨hword, hlast, hmember⟩⟩

theorem determinize_graph_eq (hstart : g.contains .start) :
    (g.determinize alphabet).graph = g.subsetGraph alphabet := by
  rw [determinize_graph hstart, prune, inaccessible_subsetGraph, List.foldl_nil]

lemma pruned_determinize : (g.determinize alphabet).pruned = [] := by
  unfold determinize
  split
  · exact inaccessible_subsetGraph
  · rfl

/-- The deterministic automaton of an automaton with an entry consists exactly of the sets that
words over the alphabet lead to, each left over one edge for every symbol that leads from it to any
state, and accepting if one of its states is. Its statistics count these sets and these edges, and
say that nothing was pruned. -/
theorem determinize_attained_sets (g : Graph State κ) (alphabet : Alphabet)
    (hstart : g.contains .start) :
    let d := g.determinize alphabet
    (∀ s c v, v ∈ g.successorSet s c ↔ ∃ u ∈ s, g.Arrow u (.symbol c) v) ∧
      (∀ s, d.graph.contains s ↔ s = .entry ∨
        (∃ v, v ∈ s) ∧ ∃ word, (∀ c ∈ word, c ∈ alphabet) ∧ g.statesAfter word = s) ∧
      (∀ s label t, d.graph.Arrow s label t ↔ d.graph.contains s ∧
        ∃ c ∈ alphabet, label = .symbol c ∧ t = g.successorSet s c ∧ ∃ v, v ∈ t) ∧
      (∀ s, d.graph.isFinal s ↔ d.graph.contains s ∧ ∃ v ∈ s, g.isFinal v) ∧
      d.counts = [("states", {s | d.graph.contains s}.ncard),
        ("transitions", {edge : Edge StateSet |
          d.graph.Arrow edge.source edge.label edge.target}.ncard),
        ("pruned", 0)] := by
  intro d
  have hgraph : d.graph = g.subsetGraph alphabet := determinize_graph_eq hstart
  have hcoherent : d.graph.Coherent := coherent_determinize
  refine ⟨fun _ _ _ => mem_successorSet, ?_, ?_, ?_, ?_⟩
  · intro s
    rw [hgraph, contains_subsetGraph]
    constructor
    · exact Or.inr
    · rintro (rfl | hs)
      · exact attains_entry
      · exact hs
  · intro s label t
    rw [hgraph, arrow_subsetGraph, contains_subsetGraph, mem_reachableSets]
  · intro s
    rw [hgraph, isFinal_subsetGraph, contains_subsetGraph, mem_reachableSets]
  · unfold Determinization.counts
    have hpruned : d.pruned = [] := pruned_determinize
    rw [hcoherent.vertexCount_eq, hcoherent.edgeCount_eq, hpruned, List.length_nil]

/-- An automaton with an ε edge, which is not followed, and a symbol outside the alphabet. -/
theorem determinize_attained_sets_loop :
    let operations : List (Operation State Rat) := [
      .addEdge .start .final .epsilon, .addEdge .start .start (.symbol 'a'),
      .addEdge .start (.fresh 0) (.symbol 'a'), .addEdge (.fresh 0) .final (.symbol 'c'),
      .markFinal (.fresh 0)]
    let g := ofOperations operations
    let d := g.determinize .standard
    g.contains .start ∧ d.graph.contains (.ofList [.start, .fresh 0]) ∧
      d.graph.isFinal (.ofList [.start, .fresh 0]) := by
  intro operations g d
  have hstart : g.contains .start := by decide
  obtain ⟨-, hcontains, -, hfinal, -⟩ := determinize_attained_sets g .standard hstart
  have hafter : g.statesAfter ['a'] = .ofList [.start, .fresh 0] := by decide
  have hword : ∀ c ∈ ['a'], c ∈ Alphabet.standard := List.forall_mem_singleton.mpr (by decide)
  have hset : d.graph.contains (.ofList [.start, .fresh 0]) :=
    (hcontains _).mpr (Or.inr ⟨⟨.start, by decide⟩, ['a'], hword, hafter⟩)
  exact ⟨hstart, hset, (hfinal _).mpr ⟨hset, .fresh 0, by decide, by decide⟩⟩

end RegexCompiler.Graph
