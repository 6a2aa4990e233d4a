import RegexCompiler.Automaton.Dfa
import RegexCompiler.Proofs.Graph.Pruning
import RegexCompiler.Proofs.Graph.Runs
import RegexCompiler.Proofs.Graph.Series

/-!
# The language of the deterministic automaton

Every set that the search finds gets all its edges and its mark. A set therefore leads to acceptance
over the words over the alphabet over which one of its states does, and the set of the entry alone
over those of the entry.
-/

namespace RegexCompiler.Graph

variable {κ : Type} {g : Graph State κ} {alphabet : Alphabet}

lemma mem_successorSet {s : StateSet} {c : Char} {v : State} :
    v ∈ g.successorSet s c ↔ ∃ u ∈ s, g.Arrow u (.symbol c) v := by
  unfold successorSet
  rw [StateSet.mem_ofList, List.mem_flatMap]
  constructor
  · rintro ⟨u, hu, hv⟩
    exact ⟨u, hu, mem_targets.mp hv⟩
  · rintro ⟨u, hu, hv⟩
    exact ⟨u, hu, mem_targets.mpr hv⟩

lemma mem_moves {s t : StateSet} {c : Char} :
    (c, t) ∈ g.moves alphabet s ↔ c ∈ alphabet ∧ t = g.successorSet s c ∧ ∃ v, v ∈ t := by
  unfold moves
  rw [List.mem_filterMap]
  constructor
  · rintro ⟨d, hd, h⟩
    dsimp only at h
    split at h
    · cases h
    · rename_i hmembers
      rw [Bool.not_eq_true, List.isEmpty_eq_false_iff_exists_mem] at hmembers
      cases h
      exact ⟨hd, rfl, hmembers⟩
  · rintro ⟨hc, rfl, hmembers⟩
    refine ⟨c, hc, ?_⟩
    have hnonempty : (g.successorSet s c).members.isEmpty = false :=
      List.isEmpty_eq_false_iff_exists_mem.mpr hmembers
    simp [hnonempty]

lemma mem_nextSets {s t : StateSet} :
    t ∈ g.nextSets alphabet s ↔
      ∃ c ∈ alphabet, t = g.successorSet s c ∧ ∃ v, v ∈ t := by
  unfold nextSets
  rw [List.mem_map]
  constructor
  · rintro ⟨⟨c, _⟩, hmove, rfl⟩
    obtain ⟨hc, hrest⟩ := mem_moves.mp hmove
    exact ⟨c, hc, hrest⟩
  · rintro ⟨c, hc, hrest⟩
    exact ⟨(c, t), mem_moves.mpr ⟨hc, hrest⟩, rfl⟩

lemma mem_transitionsFrom {s : StateSet} {edge : Edge StateSet} :
    edge ∈ g.transitionsFrom alphabet s ↔ edge.source = s ∧
      ∃ c ∈ alphabet, edge.label = .symbol c ∧ edge.target = g.successorSet s c ∧
        ∃ v, v ∈ edge.target := by
  unfold transitionsFrom
  rw [List.mem_map]
  constructor
  · rintro ⟨⟨c, t⟩, hmove, rfl⟩
    obtain ⟨hc, hrest⟩ := mem_moves.mp hmove
    exact ⟨rfl, c, hc, rfl, hrest⟩
  · obtain ⟨source, target, label⟩ := edge
    rintro ⟨rfl, c, hc, rfl, hrest⟩
    exact ⟨(c, target), mem_moves.mpr ⟨hc, hrest⟩, rfl⟩

variable {dfa : Graph StateSet κ}

lemma arrow_installSet {s t u : StateSet} {label : Label} :
    (g.installSet alphabet dfa s).Arrow t label u ↔
      dfa.Arrow t label u ∨ ⟨t, u, label⟩ ∈ g.transitionsFrom alphabet s := by
  unfold installSet
  rw [arrow_foldl_addEdge]
  split
  · rw [arrow_markFinal]
  · rfl

lemma contains_installSet {s t : StateSet} :
    (g.installSet alphabet dfa s).contains t ↔ dfa.contains t ∨
      ∃ edge ∈ g.transitionsFrom alphabet s, t = edge.source ∨ t = edge.target := by
  unfold installSet
  rw [contains_foldl_addEdge]
  split
  · rw [contains_markFinal]
  · rfl

lemma isFinal_installSet {s t : StateSet} (hs : dfa.contains s) :
    (g.installSet alphabet dfa s).isFinal t ↔
      dfa.isFinal t ∨ t = s ∧ ∃ v ∈ t, g.isFinal v := by
  unfold installSet
  rw [isFinal_iff, finals_foldl_addEdge, ← isFinal_iff]
  have hmark : s.members.any g.isFinal ↔ ∃ v ∈ s, g.isFinal v := List.any_eq_true
  split
  · rename_i hfinal
    rw [isFinal_markFinal]
    have hstates := hmark.mp hfinal
    constructor
    · rintro (h | ⟨rfl, -⟩)
      · exact Or.inl h
      · exact Or.inr ⟨rfl, hstates⟩
    · rintro (h | ⟨rfl, -⟩)
      · exact Or.inl h
      · exact Or.inr ⟨rfl, hs⟩
  · rename_i hfinal
    constructor
    · exact Or.inl
    · rintro (h | ⟨rfl, hstates⟩)
      · exact h
      · exact absurd (hmark.mpr hstates) hfinal

lemma Coherent.installSet (h : dfa.Coherent) (s : StateSet) :
    (g.installSet alphabet dfa s).Coherent := by
  unfold Graph.installSet
  split
  · exact (h.markFinal s).foldl_addEdge _
  · exact h.foldl_addEdge _

lemma becomes_installSet [Coordinate κ] (dfa : Graph StateSet κ) (s : StateSet) :
    dfa.Becomes (g.installSet alphabet dfa s) := by
  have hmark : dfa.Becomes (if s.members.any g.isFinal then dfa.markFinal s else dfa) := by
    split
    · exact becomes_apply dfa (.markFinal s)
    · exact .refl dfa
  exact hmark.trans (becomes_foldl_addEdge _ _)

lemma arrow_foldl_installSet {sets : List StateSet} {t u : StateSet} {label : Label} :
    (sets.foldl (g.installSet alphabet) dfa).Arrow t label u ↔
      dfa.Arrow t label u ∨ t ∈ sets ∧ ⟨t, u, label⟩ ∈ g.transitionsFrom alphabet t := by
  induction sets generalizing dfa with
  | nil => simp
  | cons s sets ih =>
    rw [List.foldl_cons, ih, arrow_installSet, or_assoc, List.mem_cons, or_and_right]
    have hsource : ⟨t, u, label⟩ ∈ g.transitionsFrom alphabet s ↔
        t = s ∧ ⟨t, u, label⟩ ∈ g.transitionsFrom alphabet t := by
      constructor
      · intro hedge
        obtain rfl := (mem_transitionsFrom.mp hedge).1
        exact ⟨rfl, hedge⟩
      · rintro ⟨rfl, hedge⟩
        exact hedge
    rw [hsource]

lemma contains_foldl_installSet {sets : List StateSet} {t : StateSet} (ht : dfa.contains t) :
    (sets.foldl (g.installSet alphabet) dfa).contains t := by
  induction sets generalizing dfa with
  | nil => exact ht
  | cons s sets ih => exact ih (contains_installSet.mpr (Or.inl ht))

/-- A set is marked when its turn comes: by then it is a vertex, since it was in the queue at the
beginning or was met as the target of an edge. -/
lemma isFinal_foldl_installSet {bounded : Bounded (g.nextSets alphabet)}
    {queue seen : List StateSet} (hqueue : ∀ s ∈ queue, dfa.contains s) {t : StateSet} :
    (((breadthFirst (g.nextSets alphabet) bounded queue seen).map Prod.fst).foldl
        (g.installSet alphabet) dfa).isFinal t ↔
      dfa.isFinal t ∨ t ∈ (breadthFirst (g.nextSets alphabet) bounded queue seen).map Prod.fst ∧
        ∃ v ∈ t, g.isFinal v := by
  fun_induction breadthFirst (g.nextSets alphabet) bounded queue seen generalizing dfa with
  | case1 => simp
  | case2 seen s queue found =>
    rename_i ih
    have hrest : ∀ t ∈ queue ++ found, (g.installSet alphabet dfa s).contains t := by
      intro t ht
      rw [contains_installSet]
      rcases List.mem_append.mp ht with ht | ht
      · exact Or.inl (hqueue t (List.mem_cons_of_mem _ ht))
      · right
        obtain ⟨c, hc, hnext⟩ := mem_nextSets.mp (mem_of_mem_newcomers ht).1
        exact ⟨⟨s, t, .symbol c⟩, mem_transitionsFrom.mpr ⟨rfl, c, hc, rfl, hnext⟩, Or.inr rfl⟩
    rw [List.map_cons, List.foldl_cons, ih hrest,
      isFinal_installSet (hqueue s List.mem_cons_self), List.mem_cons, or_assoc, or_and_right]

/-! ### Before pruning -/

/-- The sets that the search finds, with their edges and marks. -/
def subsetGraph (g : Graph State κ) (alphabet : Alphabet) : Graph StateSet κ :=
  (g.reachableSets alphabet).foldl (g.installSet alphabet) (empty.addVertex .entry)

lemma determinize_graph (h : g.contains .start) :
    (g.determinize alphabet).graph = (g.subsetGraph alphabet).prune .entry := by
  unfold determinize
  rw [if_pos h]
  rfl

/-- The search reads an automaton by its moves. Besides these only its entry and marks matter. -/
lemma determinize_eq_of_moves {g' : Graph State κ} {alphabet' : Alphabet}
    (hmoves : g'.moves alphabet' = g.moves alphabet)
    (hstart : g'.contains .start = g.contains .start) (hmarks : g'.isFinal = g.isFinal) :
    g'.determinize alphabet' = g.determinize alphabet := by
  have hnext : g'.nextSets alphabet' = g.nextSets alphabet := by
    funext s
    rw [nextSets, nextSets, hmoves]
  have htransitions : g'.transitionsFrom alphabet' = g.transitionsFrom alphabet := by
    funext s
    rw [transitionsFrom, transitionsFrom, hmoves]
  have hinstall : g'.installSet alphabet' = g.installSet (κ := κ) alphabet := by
    funext dfa s
    rw [installSet, installSet, htransitions, hmarks]
  have hsets : g'.reachableSets alphabet' = g.reachableSets alphabet := by
    simp only [reachableSets, hnext]
  unfold determinize
  rw [hsets, hinstall, htransitions, hstart]

lemma coherent_subsetGraph : (g.subsetGraph alphabet).Coherent :=
  coherent_foldl (fun _ s h => h.installSet s) _ (coherent_empty.addVertex _)

lemma contains_entry_subsetGraph : (g.subsetGraph alphabet).contains .entry :=
  contains_foldl_installSet (contains_addVertex.mpr (Or.inr rfl))

lemma entry_mem_reachableSets : StateSet.entry ∈ g.reachableSets alphabet :=
  mem_visited_of_mem_queue List.mem_cons_self

lemma mem_reachableSets_of_next {s t : StateSet} (hs : s ∈ g.reachableSets alphabet)
    (ht : t ∈ g.nextSets alphabet s) : t ∈ g.reachableSets alphabet :=
  mem_visited_iff.mpr ((mem_visited_iff.mp hs).tail ht)

lemma arrow_subsetGraph {s t : StateSet} {label : Label} :
    (g.subsetGraph alphabet).Arrow s label t ↔ s ∈ g.reachableSets alphabet ∧
      ∃ c ∈ alphabet, label = .symbol c ∧ t = g.successorSet s c ∧ ∃ v, v ∈ t := by
  have hnone : ¬((empty : Graph StateSet κ).addVertex .entry).Arrow s label t := by
    rw [arrow_addVertex]
    exact List.not_mem_nil
  unfold subsetGraph
  rw [arrow_foldl_installSet, or_iff_right hnone, mem_transitionsFrom]
  simp

lemma mem_reachableSets_of_path {s t : StateSet} {word : List Char}
    (hs : s ∈ g.reachableSets alphabet) (hw : (g.subsetGraph alphabet).Path s word t) :
    t ∈ g.reachableSets alphabet := by
  induction hw with
  | refl => exact hs
  | cons ha _ ih =>
    obtain ⟨-, c, hc, -, hnext⟩ := arrow_subsetGraph.mp ha
    exact ih (mem_reachableSets_of_next hs (mem_nextSets.mpr ⟨c, hc, hnext⟩))

lemma isFinal_subsetGraph {s : StateSet} :
    (g.subsetGraph alphabet).isFinal s ↔
      s ∈ g.reachableSets alphabet ∧ ∃ v ∈ s, g.isFinal v := by
  have hqueue : ∀ t ∈ [StateSet.entry],
      ((empty : Graph StateSet κ).addVertex .entry).contains t := by
    intro t ht
    exact contains_addVertex.mpr (Or.inr (List.mem_singleton.mp ht))
  have hnone : ¬((empty : Graph StateSet κ).addVertex .entry).isFinal s := by
    rw [isFinal_iff, finals_addVertex]
    exact List.not_mem_nil
  unfold subsetGraph reachableSets
  rw [isFinal_foldl_installSet hqueue, or_iff_right hnone]

lemma deterministic_subsetGraph : (g.subsetGraph alphabet).Deterministic where
  no_epsilon s t ha := by
    obtain ⟨-, c, -, hlabel, -⟩ := arrow_subsetGraph.mp ha
    cases hlabel
  unique s c t u ht hu := by
    obtain ⟨-, d, -, hd, rfl, -⟩ := arrow_subsetGraph.mp ht
    obtain ⟨-, e, -, he, rfl, -⟩ := arrow_subsetGraph.mp hu
    cases hd
    cases he
    rfl

theorem path_subsetGraph (h : ∀ v w, ¬g.Arrow v .epsilon w) {s : StateSet}
    (hs : s ∈ g.reachableSets alphabet) {word : List Char} :
    (∃ t, (g.subsetGraph alphabet).Path s word t ∧ (g.subsetGraph alphabet).isFinal t) ↔
      (∀ c ∈ word, c ∈ alphabet) ∧ ∃ v ∈ s, ∃ w, g.Path v word w ∧ g.isFinal w := by
  have hsubset : ∀ s t, ¬(g.subsetGraph alphabet).Arrow s .epsilon t :=
    deterministic_subsetGraph.no_epsilon
  induction word generalizing s with
  | nil =>
    constructor
    · rintro ⟨t, ht, hfinal⟩
      rw [eq_of_path_nil hsubset ht] at hfinal
      obtain ⟨v, hv, hfinal⟩ := (isFinal_subsetGraph.mp hfinal).2
      exact ⟨by simp, v, hv, v, .refl v, hfinal⟩
    · rintro ⟨-, v, hv, w, hw, hfinal⟩
      rw [eq_of_path_nil h hw] at hfinal
      exact ⟨s, .refl s, isFinal_subsetGraph.mpr ⟨hs, v, hv, hfinal⟩⟩
  | cons c word ih =>
    constructor
    · rintro ⟨t, ht, hfinal⟩
      obtain ⟨u, hu, ht⟩ := (path_cons_iff hsubset).mp ht
      obtain ⟨-, d, hd, hlabel, hnext⟩ := arrow_subsetGraph.mp hu
      cases hlabel
      have hu := mem_reachableSets_of_next hs (mem_nextSets.mpr ⟨c, hd, hnext⟩)
      obtain ⟨hword, v, hv, w, hw, hfinal⟩ := (ih hu).mp ⟨t, ht, hfinal⟩
      rw [hnext.1, mem_successorSet] at hv
      obtain ⟨x, hx, hxv⟩ := hv
      refine ⟨List.forall_mem_cons.mpr ⟨hd, hword⟩, x, hx, w, ?_, hfinal⟩
      exact (path_cons_iff h).mpr ⟨v, hxv, hw⟩
    · rintro ⟨hword, v, hv, w, hw, hfinal⟩
      obtain ⟨hc, hword⟩ := List.forall_mem_cons.mp hword
      obtain ⟨u, hu, hw⟩ := (path_cons_iff h).mp hw
      have hmem : u ∈ g.successorSet s c := mem_successorSet.mpr ⟨v, hv, hu⟩
      have hnext := mem_reachableSets_of_next hs (mem_nextSets.mpr ⟨c, hc, rfl, u, hmem⟩)
      obtain ⟨t, ht, hfinal⟩ := (ih hnext).mpr ⟨hword, u, hmem, w, hw, hfinal⟩
      have hedge : (g.subsetGraph alphabet).Arrow s (.symbol c) (g.successorSet s c) :=
        arrow_subsetGraph.mpr ⟨hs, c, hc, rfl, rfl, u, hmem⟩
      exact ⟨t, (path_cons_iff hsubset).mpr ⟨_, hedge, ht⟩, hfinal⟩

/-! ### After pruning -/

lemma coherent_determinize : (g.determinize alphabet).graph.Coherent := by
  by_cases h : g.contains .start
  · rw [determinize_graph h]
    exact coherent_subsetGraph.prune .entry
  · unfold determinize
    rw [if_neg h]
    exact coherent_empty

lemma becomes_determinize [Coordinate κ] :
    (empty : Graph StateSet κ).Becomes (g.determinize alphabet).graph := by
  by_cases h : g.contains .start
  · rw [determinize_graph h]
    have hentry : (empty : Graph StateSet κ).Becomes (empty.addVertex .entry) :=
      becomes_apply empty (.addVertex StateSet.entry)
    have hsets : (empty : Graph StateSet κ).Becomes (g.subsetGraph alphabet) :=
      hentry.trans (becomes_foldl becomes_installSet _ _)
    exact hsets.trans (becomes_prune _ _)
  · unfold determinize
    rw [if_neg h]
    exact .refl empty

lemma deterministic_determinize : (g.determinize alphabet).graph.Deterministic := by
  by_cases h : g.contains .start
  · rw [determinize_graph h]
    have hsubset : (g.subsetGraph alphabet).Deterministic := deterministic_subsetGraph
    refine ⟨fun s t ha => ?_, fun s c t u ht hu => ?_⟩
    · exact hsubset.no_epsilon s t (arrow_prune.mp ha).1
    · exact hsubset.unique s c t u (arrow_prune.mp ht).1 (arrow_prune.mp hu).1
  · unfold determinize
    rw [if_neg h]
    exact ⟨fun s t => List.not_mem_nil, fun s c t u ht => absurd ht List.not_mem_nil⟩

lemma mem_entry {v : State} : v ∈ StateSet.entry ↔ v = .start := by
  rw [StateSet.entry, StateSet.mem_ofList, List.mem_singleton]

lemma contains_entry_determinize (h : g.contains .start) :
    (g.determinize alphabet).graph.contains .entry := by
  rw [determinize_graph h]
  exact contains_prune.mpr ⟨contains_entry_subsetGraph, Reaches.refl contains_entry_subsetGraph⟩

lemma contains_start_of_determinize {s : StateSet}
    (hs : (g.determinize alphabet).graph.contains s) : g.contains .start := by
  by_contra h
  unfold determinize at hs
  rw [if_neg h] at hs
  exact Bool.false_ne_true hs

lemma arrow_determinize {s t : StateSet} {label : Label}
    (ha : (g.determinize alphabet).graph.Arrow s label t) :
    ∃ c, t = g.successorSet s c ∧ ∃ v, v ∈ t := by
  rw [determinize_graph (contains_start_of_determinize ha.contains_source), arrow_prune] at ha
  obtain ⟨-, c, -, -, hnext⟩ := arrow_subsetGraph.mp ha.1
  exact ⟨c, hnext⟩

lemma reaches_entry_determinize {s : StateSet}
    (hs : (g.determinize alphabet).graph.contains s) :
    (g.determinize alphabet).graph.Reaches .entry s := by
  have hstart := contains_start_of_determinize hs
  rw [determinize_graph hstart] at hs ⊢
  exact reaches_of_contains_prune hs

lemma eq_entry_or_successorSet {s : StateSet}
    (hs : (g.determinize alphabet).graph.contains s) :
    s = .entry ∨ ∃ t c, s = g.successorSet t c ∧ ∃ v, v ∈ s := by
  obtain ⟨-, word, hw⟩ := reaches_entry_determinize hs
  rcases hw.eq_or_exists_last with ⟨-, heq⟩ | ⟨t, label, ha⟩
  · exact Or.inl heq.symm
  · obtain ⟨c, hc, hmember⟩ := arrow_determinize ha
    exact Or.inr ⟨t, c, hc, hmember⟩

/-- The deterministic automaton leads to acceptance over the words over its alphabet over which the
entry of the other one does. -/
theorem leads_determinize (h : ∀ v w, ¬g.Arrow v .epsilon w) {word : List Char} :
    (g.determinize alphabet).graph.Leads .entry word ↔
      (∀ c ∈ word, c ∈ alphabet) ∧ g.Leads .start word := by
  by_cases hstart : g.contains .start
  · have hself : (g.subsetGraph alphabet).Reaches .entry .entry :=
      ⟨contains_entry_subsetGraph, [], .refl _⟩
    rw [determinize_graph hstart, leads_prune hself]
    unfold Leads
    rw [path_subsetGraph h entry_mem_reachableSets]
    simp [contains_entry_subsetGraph, hstart, mem_entry]
  · have hmissing : ¬((g.determinize alphabet).graph.contains .entry) :=
      fun hc => hstart (contains_start_of_determinize hc)
    unfold Leads
    simp [hstart, hmissing]

theorem leads_determinize_of_mem (h : ∀ v w, ¬g.Arrow v .epsilon w) {s : StateSet} {v : State}
    {word : List Char} (hs : (g.determinize alphabet).graph.contains s) (hv : v ∈ s)
    (hword : ∀ c ∈ word, c ∈ alphabet) (hleads : g.Leads v word) :
    (g.determinize alphabet).graph.Leads s word := by
  have hstart := contains_start_of_determinize hs
  rw [determinize_graph hstart] at hs ⊢
  obtain ⟨hcontains, hentry, first, hfirst⟩ := contains_prune.mp hs
  have hset := mem_reachableSets_of_path entry_mem_reachableSets hfirst
  obtain ⟨-, w, hw, hfinal⟩ := hleads
  rw [leads_prune ⟨hentry, first, hfirst⟩]
  exact ⟨hcontains, (path_subsetGraph h hset).mpr ⟨hword, v, hv, w, hw, hfinal⟩⟩

/-- Whatever graph operations have built without ε edges, the deterministic automaton accepts the
words over its alphabet that the other one accepts, and no word with any other symbol. -/
theorem determinize_language [Coordinate κ] (operations : List (Operation State κ))
    (alphabet : Alphabet) (word : List Char)
    (hsilent : ∀ edge ∈ (ofOperations operations).edges, edge.label ≠ .epsilon) :
    ((ofOperations operations).determinize alphabet).graph.accepts .entry word ↔
      (∀ c ∈ word, c ∈ alphabet) ∧ (ofOperations operations).accepts .start word := by
  have h := coherent_ofOperations operations
  have hno : ∀ v w, ¬(ofOperations operations).Arrow v .epsilon w := by
    intro v w ha
    exact hsilent ⟨v, w, .epsilon⟩ (h.mem_edges.mpr ha) rfl
  rw [accepts_iff_leads coherent_determinize, accepts_iff_leads h]
  exact leads_determinize hno

/-- An entry with a loop, two ways to read a symbol, and a symbol outside the alphabet. -/
theorem determinize_language_loop :
    let operations : List (Operation State Rat) := [
      .addEdge .start .start (.symbol 'a'), .addEdge .start (.fresh 0) (.symbol 'a'),
      .addEdge (.fresh 0) .final (.symbol 'c'), .addEdge (.fresh 0) .final (.symbol 'b'),
      .markFinal .final]
    (∀ edge ∈ (ofOperations operations).edges, edge.label ≠ .epsilon) ∧
      (((ofOperations operations).determinize .standard).graph.accepts .entry ['a', 'c'] ↔
        (∀ c ∈ ['a', 'c'], c ∈ Alphabet.standard) ∧
          (ofOperations operations).accepts .start ['a', 'c']) := by
  intro operations
  have hsilent : ∀ edge ∈ (ofOperations operations).edges, edge.label ≠ .epsilon := by decide
  exact ⟨hsilent, determinize_language operations .standard ['a', 'c'] hsilent⟩

end RegexCompiler.Graph
