import RegexCompiler.Automaton.Nfa
import RegexCompiler.Proofs.Graph.Pruning
import RegexCompiler.Proofs.Graph.Runs
import RegexCompiler.Proofs.Graph.Series

/-!
# The language without ε edges

Before it is pruned, the automaton without ε edges has an edge for every path that spells a single
symbol, and accepts wherever a path without symbols led to acceptance. Paths of any word can then be
followed symbol by symbol, and pruning does not change what a kept vertex leads to.
-/

namespace RegexCompiler.Graph

variable {κ : Type} {g : Graph State κ}

lemma lookup_map_self {α β : Type} [DecidableEq α] {f : α → β} {keys : List α} {a : α} :
    (keys.map fun b => (b, f b)).lookup a = if a ∈ keys then some (f a) else none := by
  induction keys with
  | nil => rfl
  | cons b keys ih =>
    rw [List.map_cons, List.lookup_cons]
    by_cases hab : a = b
    · simp [hab]
    · rw [beq_false_of_ne hab]
      simp [ih, hab]

lemma lookup_closures {v : State} (hv : g.contains v) :
    g.closures.lookup v = some (g.epsilonClosure v) := by
  unfold closures
  rw [lookup_map_self, if_pos (show v ∈ g.vertices from contains_iff.mp hv)]

lemma mem_silentlyFinal {v : State} :
    v ∈ g.silentlyFinal g.closures ↔
      g.contains v ∧ ¬g.isFinal v ∧ ∃ w, g.Path v [] w ∧ g.isFinal w := by
  unfold silentlyFinal closures
  constructor
  · intro hv
    obtain ⟨⟨u, closure⟩, hu, rfl⟩ := List.mem_map.mp hv
    obtain ⟨hu, hmarks⟩ := List.mem_filter.mp hu
    obtain ⟨x, hx, heq⟩ := List.mem_map.mp hu
    obtain ⟨rfl, rfl⟩ := Prod.mk.inj heq
    simp only [Bool.and_eq_true, Bool.not_eq_true', List.any_eq_true] at hmarks
    obtain ⟨hnot, w, hw, hfinal⟩ := hmarks
    obtain ⟨hcontains, hpath⟩ := mem_epsilonClosure.mp hw
    exact ⟨hcontains, by simp [hnot], w, hpath, hfinal⟩
  · rintro ⟨hv, hnot, w, hw, hfinal⟩
    refine List.mem_map.mpr ⟨(v, g.epsilonClosure v), List.mem_filter.mpr ⟨?_, ?_⟩, rfl⟩
    · exact List.mem_map.mpr ⟨v, contains_iff.mp hv, rfl⟩
    · simp only [Bool.and_eq_true, Bool.not_eq_true', List.any_eq_true]
      exact ⟨by simpa using hnot, w, mem_epsilonClosure.mpr ⟨hv, hw⟩, hfinal⟩

lemma contains_of_path (h : g.Coherent) {v w : State} {word : List Char} (hv : g.contains v)
    (hw : g.Path v word w) : g.contains w :=
  h.contains_of_reaches ⟨hv, word, hw⟩

lemma contains_ends_of_path (h : g.Coherent) {v w : State} {c : Char} {word : List Char}
    (hw : g.Path v (c :: word) w) : g.contains v ∧ g.contains w := by
  have hv : g.contains v := by
    generalize hwhole : c :: word = whole at hw
    cases hw with
    | refl => cases hwhole
    | cons ha _ => exact ha.contains_source
  exact ⟨hv, contains_of_path h hv hw⟩

lemma mem_replicas (h : g.Coherent) {edge : Edge State} :
    edge ∈ g.replicas g.closures ↔
      ∃ c, edge.label = .symbol c ∧ g.Path edge.source [c] edge.target := by
  unfold replicas
  simp only [List.mem_flatMap, List.mem_filter, List.mem_map, Bool.not_eq_true']
  constructor
  · rintro ⟨_, hclosure, u, hu, ⟨label, w⟩, ⟨huw, hlabel⟩, target, htarget, rfl⟩
    obtain ⟨v, hv, rfl⟩ := List.mem_map.mp hclosure
    have hpath := (mem_epsilonClosure.mp hu).2
    rw [lookup_closures (h.contains_target huw), Option.getD_some] at htarget
    have hlanding := (mem_epsilonClosure.mp htarget).2
    cases label with
    | symbol c => exact ⟨c, rfl, Walk.symbol_iff.mpr ⟨u, w, hpath, huw, hlanding⟩⟩
    | epsilon => cases hlabel
  · rintro ⟨c, hlabel, hpath⟩
    obtain ⟨u, w, hu, huw, hw⟩ := Walk.symbol_iff.mp hpath
    have hsource := (contains_ends_of_path h hpath).1
    have hw' := h.contains_target huw
    refine ⟨(edge.source, g.epsilonClosure edge.source), ?_, u, ?_, (.symbol c, w), ⟨huw, rfl⟩,
      edge.target, ?_, ?_⟩
    · exact List.mem_map.mpr ⟨_, contains_iff.mp hsource, rfl⟩
    · exact mem_epsilonClosure.mpr ⟨hsource, hu⟩
    · rw [lookup_closures hw', Option.getD_some]
      exact mem_epsilonClosure.mpr ⟨hw', hw⟩
    · rw [← hlabel]

/-! ### Before pruning -/

/-- The automaton with an edge for every path of one symbol and without ε edges. -/
def epsilonFree (g : Graph State κ) : Graph State κ :=
  let saturated :=
    (((g.silentlyFinal g.closures).foldl markFinal g).addEdges (g.replicas g.closures)).1
  (saturated.edges.filter (·.label.isEpsilon)).foldl
    (fun g edge => g.removeEdge edge.source edge.target edge.label) saturated

lemma eliminateEpsilons_graph : g.eliminateEpsilons.graph = g.epsilonFree.prune .start := by
  rw [eliminateEpsilons, epsilonFree]

/-- An edge that is not noted was there: adding it would change nothing. -/
lemma foldl_noteEdge_fst (h : g.Coherent) (edges added : List (Edge State)) :
    (edges.foldl noteEdge (g, added)).1 =
      edges.foldl (fun g edge => g.addEdge edge.source edge.target edge.label) g := by
  induction edges generalizing g added with
  | nil => rfl
  | cons edge edges ih =>
    rw [List.foldl_cons, List.foldl_cons]
    dsimp only [noteEdge]
    split
    · rename_i hedge
      rw [h.addEdge_of_arrow (hasEdge_iff.mp hedge), ih h]
    · exact ih (h.addEdge _ _ _) _

lemma addEdges_fst (h : g.Coherent) (edges : List (Edge State)) :
    (g.addEdges edges).1 =
      edges.foldl (fun g edge => g.addEdge edge.source edge.target edge.label) g :=
  foldl_noteEdge_fst h edges []

/-- The automaton with all marks and with an edge for every path of one symbol, before its ε edges
are dropped. -/
def saturated (g : Graph State κ) : Graph State κ :=
  (g.replicas g.closures).foldl (fun g edge => g.addEdge edge.source edge.target edge.label)
    ((g.silentlyFinal g.closures).foldl markFinal g)

section

variable (h : g.Coherent)
include h

lemma coherent_saturated : g.saturated.Coherent :=
  (h.foldl_markFinal _).foldl_addEdge _

lemma arrow_saturated {v w : State} {label : Label} :
    g.saturated.Arrow v label w ↔
      g.Arrow v label w ∨ ∃ c, label = .symbol c ∧ g.Path v [c] w := by
  rw [saturated, arrow_foldl_addEdge, arrow_foldl_markFinal, mem_replicas h]

lemma dropped_eliminateEpsilons :
    g.eliminateEpsilons.dropped = g.saturated.edges.filter (·.label.isEpsilon) := by
  rw [saturated, ← addEdges_fst (h.foldl_markFinal _), eliminateEpsilons]

lemma epsilonFree_eq :
    g.epsilonFree = (g.saturated.edges.filter (·.label.isEpsilon)).foldl
      (fun g edge => g.removeEdge edge.source edge.target edge.label) g.saturated := by
  rw [saturated, ← addEdges_fst (h.foldl_markFinal _), epsilonFree]

lemma coherent_epsilonFree : g.epsilonFree.Coherent := by
  rw [epsilonFree_eq h]
  exact (coherent_saturated h).foldl_removeEdge _

lemma contains_epsilonFree {v : State} : g.epsilonFree.contains v ↔ g.contains v := by
  rw [epsilonFree_eq h, contains_foldl_removeEdge, saturated, contains_foldl_addEdge,
    contains_foldl_markFinal]
  constructor
  · rintro (hv | ⟨edge, hedge, hv⟩)
    · exact hv
    · obtain ⟨c, -, hpath⟩ := (mem_replicas h).mp hedge
      obtain ⟨hsource, htarget⟩ := contains_ends_of_path h hpath
      rcases hv with rfl | rfl
      · exact hsource
      · exact htarget
  · exact Or.inl

lemma arrow_epsilonFree {v w : State} {label : Label} :
    g.epsilonFree.Arrow v label w ↔ ∃ c, label = .symbol c ∧ g.Path v [c] w := by
  have hsaturated := coherent_saturated h
  rw [epsilonFree_eq h, arrow_foldl_removeEdge hsaturated, List.mem_filter, hsaturated.mem_edges,
    arrow_saturated h]
  cases label with
  | symbol c =>
    have hsingle : g.Arrow v (.symbol c) w → g.Path v [c] w := Walk.single
    simp only [Label.isEpsilon, Label.symbol.injEq]
    grind
  | epsilon => simp [Label.isEpsilon]

lemma isFinal_epsilonFree {v : State} (hv : g.contains v) :
    g.epsilonFree.isFinal v ↔ ∃ w, g.Path v [] w ∧ g.isFinal w := by
  have hmarks : g.epsilonFree.finals = ((g.silentlyFinal g.closures).foldl markFinal g).finals := by
    rw [epsilonFree_eq h, finals_foldl_removeEdge, saturated, finals_foldl_addEdge]
  rw [isFinal_iff, hmarks, ← isFinal_iff, isFinal_foldl_markFinal, mem_silentlyFinal]
  constructor
  · rintro (hfinal | ⟨⟨-, -, hw⟩, -⟩)
    · exact ⟨v, .refl v, hfinal⟩
    · exact hw
  · intro hw
    by_cases hfinal : g.isFinal v
    · exact Or.inl hfinal
    · exact Or.inr ⟨⟨hv, hfinal, hw⟩, hv⟩

lemma no_epsilon_epsilonFree (v w : State) : ¬g.epsilonFree.Arrow v .epsilon w := by
  rw [arrow_epsilonFree h]
  rintro ⟨c, hlabel, -⟩
  cases hlabel

lemma path_of_path_epsilonFree {v w : State} {word : List Char} (hw : g.epsilonFree.Path v word w) :
    g.Path v word w := by
  induction hw with
  | refl => exact .refl _
  | cons ha _ ih =>
    obtain ⟨c, rfl, hpath⟩ := (arrow_epsilonFree h).mp ha
    exact hpath.trans ih

/-- Symbol by symbol, a path of the old automaton is cut into edges of the new one; what ε edges are
left at its end are behind the mark of its last vertex. -/
lemma exists_path_epsilonFree {v w : State} {word : List Char} (hw : g.Path v word w) :
    ∃ u, g.epsilonFree.Path v word u ∧ g.Path u [] w := by
  induction word generalizing v with
  | nil => exact ⟨v, .refl v, hw⟩
  | cons c word ih =>
    obtain ⟨x, y, hx, hxy, hy⟩ := Walk.symbol_iff.mp hw
    obtain ⟨u, hu, hlast⟩ := ih hy
    have hedge : g.epsilonFree.Arrow v (.symbol c) y :=
      (arrow_epsilonFree h).mpr ⟨c, rfl, Walk.symbol_iff.mpr ⟨x, y, hx, hxy, .refl y⟩⟩
    exact ⟨u, Walk.cons hedge hu, hlast⟩

theorem leads_epsilonFree {v : State} {word : List Char} :
    g.epsilonFree.Leads v word ↔ g.Leads v word := by
  unfold Leads
  rw [contains_epsilonFree h]
  constructor
  · rintro ⟨hv, u, hu, hfinal⟩
    have hpath := path_of_path_epsilonFree h hu
    obtain ⟨w, hw, hfinal⟩ := (isFinal_epsilonFree h (contains_of_path h hv hpath)).mp hfinal
    refine ⟨hv, w, ?_, hfinal⟩
    have hwhole := hpath.trans hw
    rwa [List.append_nil] at hwhole
  · rintro ⟨hv, w, hw, hfinal⟩
    obtain ⟨u, hu, hlast⟩ := exists_path_epsilonFree h hw
    have hcontains := contains_of_path h hv (path_of_path_epsilonFree h hu)
    exact ⟨hv, u, hu, (isFinal_epsilonFree h hcontains).mpr ⟨w, hlast, hfinal⟩⟩

/-! ### After pruning -/

lemma coherent_eliminateEpsilons : g.eliminateEpsilons.graph.Coherent := by
  rw [eliminateEpsilons_graph]
  exact (coherent_epsilonFree h).prune .start

lemma path_of_arrow_eliminateEpsilons {v w : State} {label : Label}
    (ha : g.eliminateEpsilons.graph.Arrow v label w) :
    ∃ c, label = .symbol c ∧ g.Path v [c] w := by
  rw [eliminateEpsilons_graph, arrow_prune] at ha
  exact (arrow_epsilonFree h).mp ha.1

lemma contains_start_eliminateEpsilons (hstart : g.contains .start) :
    g.eliminateEpsilons.graph.contains .start := by
  have hfree := (contains_epsilonFree h).mpr hstart
  rw [eliminateEpsilons_graph]
  exact contains_prune.mpr ⟨hfree, Reaches.refl hfree⟩

lemma contains_of_contains_eliminateEpsilons {v : State}
    (hv : g.eliminateEpsilons.graph.contains v) : g.contains v := by
  rw [eliminateEpsilons_graph, contains_prune] at hv
  exact (contains_epsilonFree h).mp hv.1

lemma no_epsilon_eliminateEpsilons (v w : State) :
    ¬g.eliminateEpsilons.graph.Arrow v .epsilon w := by
  rw [eliminateEpsilons_graph, arrow_prune]
  rintro ⟨ha, -⟩
  exact no_epsilon_epsilonFree h v w ha

/-- What the entry leads to keeps its words, and so does the entry itself, even if it is missing. -/
theorem leads_eliminateEpsilons {v : State} {word : List Char}
    (hv : g.eliminateEpsilons.graph.contains v ∨ v = .start) :
    g.eliminateEpsilons.graph.Leads v word ↔ g.Leads v word := by
  rw [eliminateEpsilons_graph] at hv ⊢
  rw [← leads_epsilonFree h]
  by_cases hreach : g.epsilonFree.Reaches .start v
  · exact leads_prune hreach
  · -- only a missing entry is left, which leads nowhere before and after
    have hnot : ¬(g.epsilonFree.prune .start).contains v := fun hc =>
      hreach (contains_prune.mp hc).2
    obtain rfl := hv.resolve_left hnot
    have hmissing : ¬g.epsilonFree.contains .start := fun hc => hreach ⟨hc, [], .refl _⟩
    unfold Leads
    simp [hnot, hmissing]

end

lemma reaches_of_contains_eliminateEpsilons {v : State}
    (hv : g.eliminateEpsilons.graph.contains v) : g.eliminateEpsilons.graph.Reaches .start v := by
  rw [eliminateEpsilons_graph] at hv ⊢
  exact reaches_of_contains_prune hv

/-- Whatever graph operations have built, removing its ε edges changes the words of no vertex that
stays, nor those of a missing entry; no ε edge is left, and the entry leads to all that stays. -/
theorem eliminateEpsilons_language [Coordinate κ] (operations : List (Operation State κ)) :
    let g := ofOperations operations
    let n := g.eliminateEpsilons.graph
    (∀ v word, n.contains v ∨ v = .start → n.accepts v word = g.accepts v word) ∧
      (∀ edge ∈ n.edges, edge.label ≠ .epsilon) ∧ ∀ v, n.contains v → n.Reaches .start v := by
  have h := coherent_ofOperations operations
  have hn := coherent_eliminateEpsilons h
  refine ⟨?_, ?_, ?_⟩
  · intro v word hv
    rw [Bool.eq_iff_iff, accepts_iff_leads hn, accepts_iff_leads h]
    exact leads_eliminateEpsilons h hv
  · intro edge hedge hlabel
    have ha := hn.mem_edges.mp hedge
    rw [hlabel] at ha
    exact no_epsilon_eliminateEpsilons h _ _ ha
  · intro v hv
    exact reaches_of_contains_eliminateEpsilons hv

theorem eliminateEpsilons_language_cycle :
    let operations : List (Operation State Rat) := [
      .addEdge .start (.fresh 0) .epsilon, .addEdge (.fresh 0) .start .epsilon,
      .addEdge (.fresh 0) (.fresh 0) (.symbol 'a'), .markFinal .start]
    let g := ofOperations operations
    let n := g.eliminateEpsilons.graph
    n.contains (.fresh 0) ∧ n.accepts (.fresh 0) ['a'] = g.accepts (.fresh 0) ['a'] := by
  intro operations g n
  have h : g.Coherent := coherent_ofOperations operations
  have hloop : g.Arrow (.fresh 0) (.symbol 'a') (.fresh 0) := hasEdge_iff.mp rfl
  have henter : g.Arrow .start .epsilon (.fresh 0) := hasEdge_iff.mp rfl
  have hedge : g.epsilonFree.Arrow .start (.symbol 'a') (.fresh 0) :=
    (arrow_epsilonFree h).mpr ⟨'a', rfl, Walk.cons henter (Walk.single hloop)⟩
  have hstart : g.epsilonFree.Reaches .start .start := ⟨hedge.contains_source, [], .refl _⟩
  have hstays : n.contains (.fresh 0) := by
    have hmem := (coherent_epsilonFree h).contains_target hedge
    rw [show n = g.epsilonFree.prune .start from eliminateEpsilons_graph, contains_prune]
    exact ⟨hmem, hstart.extend (Walk.single hedge)⟩
  exact ⟨hstays, (eliminateEpsilons_language operations).1 _ _ (Or.inl hstays)⟩

end RegexCompiler.Graph
