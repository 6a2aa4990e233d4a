import RegexCompiler.Graph.Exploration
import RegexCompiler.Proofs.Graph.Distances
import RegexCompiler.Proofs.Graph.Layouts
import RegexCompiler.Proofs.Graph.Orders
import RegexCompiler.Proofs.Graph.Pruning

/-!
# The loops of the searches end

Every round takes a vertex from what is pending. An ε edge puts its end on the stack of the search
over ε edges at most once, when its beginning is found, so this search has at most one round more
than there are ε edges. The breadth-first search has one round for each vertex that it finds. Both
end with what the searches list.
-/

namespace RegexCompiler

open RegexCompiler.Graph

variable {V κ : Type} [DecidableEq V]

lemma EndsAfter.unique {σ : Type} {round : σ → Option σ} {k m : Nat} {s t u : σ}
    (h : EndsAfter round k s t) (h' : EndsAfter round m s u) : k = m ∧ t = u := by
  induction h generalizing m with
  | ended hended =>
    cases h' with
    | ended => exact ⟨rfl, rfl⟩
    | round hround => exact absurd (hended.symm.trans hround) (Option.some_ne_none _).symm
  | round hround _ ih =>
    cases h' with
    | ended hended => exact absurd (hround.symm.trans hended) (Option.some_ne_none _)
    | round hround' hrest =>
      obtain rfl := Option.some.inj (hround.symm.trans hround')
      obtain ⟨rfl, rfl⟩ := ih hrest
      exact ⟨rfl, rfl⟩

/-! ### The search over ε edges -/

section Silent

variable {g : Graph V κ} {stack found : List V} {v : V}

lemma foldl_push (found stack vs : List V) :
    vs.foldl (push found) stack = (vs.filter (· ∉ found)).reverse ++ stack := by
  induction vs generalizing stack with
  | nil => rfl
  | cons w vs ih =>
    rw [List.foldl_cons, ih, List.filter_cons, push]
    by_cases hw : w ∈ found
    · simp [hw]
    · simp [hw]

lemma silentRound_of_mem (hv : v ∈ found) :
    g.silentRound ⟨v :: stack, found⟩ = some ⟨stack, found⟩ :=
  if_pos hv

lemma silentRound_of_not_mem (hv : v ∉ found) :
    g.silentRound ⟨v :: stack, found⟩ = some
      ⟨((g.outgoing.silentSuccessors v).filter (· ∉ found ++ [v])).reverse ++ stack,
        found ++ [v]⟩ := by
  refine (if_neg hv).trans ?_
  rw [foldl_push]
  rfl

/-- How often the vertices of a list can put a vertex on the stack. -/
def silentDegree (g : Graph V κ) (vs : List V) : Nat :=
  (vs.flatMap g.outgoing.silentSuccessors).length

lemma silentDegree_append_singleton (vs : List V) (v : V) :
    silentDegree g (vs ++ [v]) =
      silentDegree g vs + (g.outgoing.silentSuccessors v).length := by
  simp [silentDegree]

/-- From any state on the loop comes to the end of the search. Each round is paid for by an entry of
the stack or by an ε edge from a vertex that is still to be found. -/
theorem exists_endsAfter_silentRound (g : Graph V κ) (stack found : List V) :
    ∃ k, EndsAfter g.silentRound k ⟨stack, found⟩ ⟨[], g.outgoing.silentSearch stack found⟩ ∧
      k + silentDegree g found ≤
        stack.length + silentDegree g (g.outgoing.silentSearch stack found) := by
  fun_induction g.outgoing.silentSearch stack found with
  | case1 found => exact ⟨0, .ended rfl, by simp⟩
  | case2 found v stack hv ih =>
    obtain ⟨k, hends, hle⟩ := ih
    refine ⟨k + 1, .round (silentRound_of_mem hv) hends, ?_⟩
    rw [List.length_cons]
    omega
  | case3 found v stack hv met ih =>
    obtain ⟨k, hends, hle⟩ := ih
    have hmet : met.length ≤ (g.outgoing.silentSuccessors v).length := List.length_filter_le _ _
    refine ⟨k + 1, .round (silentRound_of_not_mem hv) hends, ?_⟩
    rw [silentDegree_append_singleton, List.length_append, List.length_reverse] at hle
    rw [List.length_cons]
    omega

lemma prefix_silentSearch (table : Adjacency V) (stack found : List V) :
    found <+: table.silentSearch stack found := by
  fun_induction table.silentSearch stack found with
  | case1 found => exact List.prefix_refl found
  | case2 found v stack hv ih => exact ih
  | case3 found v stack hv met ih => exact (List.prefix_append found [v]).trans ih

lemma silentSearch_nodup {table : Adjacency V} (h : found.Nodup) :
    (table.silentSearch stack found).Nodup := by
  fun_induction table.silentSearch stack found with
  | case1 found => exact h
  | case2 found v stack hv ih => exact ih h
  | case3 found v stack hv met ih =>
    apply ih
    rw [← List.concat_eq_append]
    exact h.concat hv

lemma silentSuccessors_nodup (h : g.Coherent) (v : V) :
    (g.outgoing.silentSuccessors v).Nodup := by
  unfold Adjacency.silentSuccessors
  refine List.Nodup.map_on ?_ ((h.outgoing_tidy.neighbours_nodup v).filter _)
  rintro ⟨label, u⟩ hu ⟨mark, w⟩ hw heq
  have hlabel := of_decide_eq_true (List.mem_filter.mp hu).2
  have hmark := of_decide_eq_true (List.mem_filter.mp hw).2
  exact Prod.ext (hlabel.trans hmark.symm) heq

lemma silentDegree_le (h : g.Coherent) {vs : List V} (hvs : vs.Nodup) :
    silentDegree g vs ≤ g.edges.countP (·.label = .epsilon) := by
  let edgesAt v := (g.outgoing.silentSuccessors v).map fun w => (⟨v, w, .epsilon⟩ : Edge V)
  have hlength : (vs.flatMap edgesAt).length = silentDegree g vs := by
    simp [edgesAt, silentDegree, List.length_flatMap]
  have hnodup : (vs.flatMap edgesAt).Nodup := by
    rw [List.nodup_flatMap]
    constructor
    · intro v _
      apply (silentSuccessors_nodup h v).map
      rintro u w heq
      exact congrArg Edge.target heq
    · apply hvs.imp
      intro u v hne edge hu hv
      obtain ⟨_, _, rfl⟩ := List.mem_map.mp hu
      obtain ⟨_, _, heq⟩ := List.mem_map.mp hv
      exact hne (congrArg Edge.source heq).symm
  have hsubset : vs.flatMap edgesAt ⊆ g.edges.filter (·.label = .epsilon) := by
    intro edge hedge
    obtain ⟨v, _, hv⟩ := List.mem_flatMap.mp hedge
    obtain ⟨w, hw, rfl⟩ := List.mem_map.mp hv
    rw [List.mem_filter, h.mem_edges]
    exact ⟨Adjacency.mem_silentSuccessors.mp hw, decide_eq_true rfl⟩
  rw [← hlength, List.countP_eq_length_filter]
  exact hnodup.length_le_of_subset hsubset

end Silent

/-! ### The breadth-first search -/

section BreadthFirst

variable {g : Graph V κ} {queue found : List V} {v : V}

lemma foldl_discover (vs : List V) (e : Exploration V) :
    vs.foldl discover e =
      ⟨e.pending ++ newcomers e.found vs, e.found ++ newcomers e.found vs⟩ := by
  induction vs generalizing e with
  | nil => simp [newcomers]
  | cons w vs ih =>
    have hfound : ∀ u, u ∈ e.found ++ [w] ↔ u ∈ w :: e.found := by
      intro u
      simp [or_comm]
    rw [List.foldl_cons, ih, newcomers]
    unfold discover
    by_cases hw : w ∈ e.found
    · simp only [if_pos hw]
    · simp only [if_neg hw, newcomers_congr hfound, List.append_assoc, List.singleton_append]

lemma breadthRound_cons :
    g.breadthRound ⟨v :: queue, found⟩ = some
      ⟨queue ++ newcomers found (g.outgoing.successors v),
        found ++ newcomers found (g.outgoing.successors v)⟩ := by
  refine congrArg some ?_
  rw [Adjacency.successors, ← foldl_discover _ ⟨queue, found⟩, List.foldl_map]

theorem endsAfter_breadthRound (g : Graph V κ) (queue found : List V) :
    EndsAfter g.breadthRound
      (breadthFirst _ g.outgoing.successors_bounded queue found).length ⟨queue, found⟩
      ⟨[], found ++
        (breadthFirst _ g.outgoing.successors_bounded queue found).flatMap Prod.snd⟩ := by
  fun_induction breadthFirst g.outgoing.successors g.outgoing.successors_bounded queue found with
  | case1 found =>
    rw [List.flatMap_nil, List.append_nil]
    exact .ended rfl
  | case2 found v queue newly ih =>
    rw [List.flatMap_cons, ← List.append_assoc]
    exact .round breadthRound_cons ih

lemma reachableFrom_eq_map_fst (hv : g.contains v) :
    g.reachableFrom v = (g.outgoing.discoveries v).map Prod.fst := by
  rw [Adjacency.map_fst_discoveries]
  exact if_pos hv

end BreadthFirst

namespace Graph

variable {g : Graph V κ} {u v w : V} {n : Nat}

lemma Steps.concat {label : Label} (h : g.Steps u n v) (ha : g.Arrow v label w) :
    g.Steps u (n + 1) w := by
  induction h with
  | refl => exact .cons ha (.refl w)
  | cons hfirst _ ih => exact .cons hfirst (ih ha)

lemma hops_outgoing : Hops g.outgoing.successors v n w ↔ g.Steps v n w := by
  constructor
  · intro h
    induction h with
    | refl => exact .refl v
    | step _ hw ih =>
      obtain ⟨label, ha⟩ := Adjacency.mem_successors.mp hw
      exact ih.concat ha
  · intro h
    induction h with
    | refl => exact .refl
    | cons ha _ ih => exact ih.head (Adjacency.mem_successors.mpr ⟨_, ha⟩)

lemma isDepth_outgoing : IsDepth g.outgoing.successors v n w ↔ g.IsDistance v n w := by
  unfold IsDepth IsDistance
  simp only [hops_outgoing]

theorem exists_distance_reachableFrom (hv : g.contains v) :
    ∃ distance : V → Nat, (∀ w ∈ g.reachableFrom v, g.IsDistance v (distance w) w) ∧
      ((g.reachableFrom v).map distance).Pairwise (· ≤ ·) := by
  rw [reachableFrom_eq_map_fst hv]
  have hex : ∀ w, ∃ n, w ∈ (g.outgoing.discoveries v).map Prod.fst → g.IsDistance v n w := by
    intro w
    by_cases hw : w ∈ (g.outgoing.discoveries v).map Prod.fst
    · obtain ⟨visit, hvisit, rfl⟩ := List.mem_map.mp hw
      obtain ⟨n, hn, -⟩ := exists_depth_of_visit hvisit
      exact ⟨n, fun _ => isDepth_outgoing.mp hn⟩
    · exact ⟨0, fun h => absurd h hw⟩
  choose distance hdistance using hex
  refine ⟨distance, hdistance, ?_⟩
  rw [List.map_map, List.pairwise_map]
  apply visits_in_order_of_depth.imp_of_mem
  intro first second hfirst hsecond hle
  exact hle _ _ (isDepth_outgoing.mpr (hdistance _ (List.mem_map_of_mem hfirst)))
    (isDepth_outgoing.mpr (hdistance _ (List.mem_map_of_mem hsecond)))

lemma listsFrom_epsilonClosure (hv : g.contains v) :
    ListsFrom (fun u w => g.Arrow u .epsilon w) v (g.epsilonClosure v) where
  first := by
    have hfound : [v] <+: g.epsilonClosure v := by
      unfold epsilonClosure
      rw [if_pos hv, Adjacency.silentSearch, if_neg List.not_mem_nil]
      exact prefix_silentSearch _ _ _
    obtain ⟨rest, hrest⟩ := hfound
    rw [← hrest]
    rfl
  nodup := by
    unfold epsilonClosure
    rw [if_pos hv]
    exact silentSearch_nodup List.nodup_nil
  mem_iff w := by
    rw [mem_epsilonClosure, ← silent_iff_path]
    simp only [hv, true_and, Adjacency.mem_silentSuccessors]
    exact Iff.rfl

lemma listsFrom_reachableFrom (hv : g.contains v) :
    ListsFrom (fun u w => ∃ label, g.Arrow u label w) v (g.reachableFrom v) where
  first := by
    unfold reachableFrom
    rw [if_pos hv]
    rfl
  nodup := by
    rw [reachableFrom_eq_map_fst hv]
    exact visited_nodup v
  mem_iff w := by
    rw [mem_reachableFrom, Reaches, ← reaches_iff_path]
    simp only [hv, true_and, Adjacency.mem_successors]
    exact Iff.rfl

theorem exists_endsAfter_epsilonClosure (h : g.Coherent) (hv : g.contains v) :
    ∃ k ≤ g.edges.countP (·.label = .epsilon) + 1,
      EndsAfter g.silentRound k ⟨[v], []⟩ ⟨[], g.epsilonClosure v⟩ := by
  have hclosure : g.epsilonClosure v = g.outgoing.silentSearch [v] [] := if_pos hv
  obtain ⟨k, hends, hle⟩ := exists_endsAfter_silentRound g [v] []
  rw [← hclosure] at hends hle
  rw [List.length_singleton] at hle
  have hbound := silentDegree_le h (listsFrom_epsilonClosure hv).nodup
  exact ⟨k, by omega, hends⟩

theorem endsAfter_reachableFrom (hv : g.contains v) :
    EndsAfter g.breadthRound (g.reachableFrom v).length ⟨[v], [v]⟩ ⟨[], g.reachableFrom v⟩ := by
  have hends := endsAfter_breadthRound g [v] [v]
  have hreachable : g.reachableFrom v = v :: (g.outgoing.discoveries v).flatMap Prod.snd :=
    if_pos hv
  have hlength : (g.reachableFrom v).length = (g.outgoing.discoveries v).length := by
    rw [reachableFrom_eq_map_fst hv, List.length_map]
  rw [hlength, hreachable]
  exact hends

/-- Whatever graph operations have built, both searches end, and what they list is exact. The loop
over ε edges has at most one round more than the graph has ε edges, and lists what ε edges lead to
from a vertex; the loop of the breadth-first search has one round for each vertex that it lists, and
these are the vertices that edges of any label lead to, nearer ones first. Each list begins with the
vertex itself and holds nothing twice. From anywhere but a vertex of the graph nothing is found. -/
theorem searches_list_exactly [Coordinate κ] (operations : List (Operation V κ)) (v : V) :
    let g := ofOperations operations
    (g.contains v →
      (∃ k ≤ g.edges.countP (·.label = .epsilon) + 1,
        EndsAfter g.silentRound k ⟨[v], []⟩ ⟨[], g.epsilonClosure v⟩) ∧
      ListsFrom (fun u w => g.Arrow u .epsilon w) v (g.epsilonClosure v) ∧
      EndsAfter g.breadthRound (g.reachableFrom v).length ⟨[v], [v]⟩ ⟨[], g.reachableFrom v⟩ ∧
      ListsFrom (fun u w => ∃ label, g.Arrow u label w) v (g.reachableFrom v) ∧
      ∃ distance : V → Nat, (∀ w ∈ g.reachableFrom v, g.IsDistance v (distance w) w) ∧
        ((g.reachableFrom v).map distance).Pairwise (· ≤ ·)) ∧
    (¬g.contains v → g.epsilonClosure v = [] ∧ g.reachableFrom v = []) := by
  intro g
  have hg : g.Coherent := coherent_ofOperations operations
  constructor
  · intro hv
    exact ⟨exists_endsAfter_epsilonClosure hg hv, listsFrom_epsilonClosure hv,
      endsAfter_reachableFrom hv, listsFrom_reachableFrom hv, exists_distance_reachableFrom hv⟩
  · intro hv
    exact ⟨if_neg hv, if_neg hv⟩

/-- After two rounds the stack holds the same vertex twice. Each ε edge on the way has its round. -/
theorem searches_list_exactly_met_twice :
    let operations : List (Operation Nat Rat) := [
      .addEdge 0 1 .epsilon, .addEdge 0 2 .epsilon, .addEdge 2 1 .epsilon,
      .addEdge 1 0 (.symbol 'a'), .addEdge 3 0 .epsilon]
    let g := ofOperations operations
    g.contains 0 ∧
      (g.silentRound ⟨[0], []⟩).bind g.silentRound = some ⟨[1, 1], [0, 2]⟩ ∧
      EndsAfter g.silentRound 4 ⟨[0], []⟩ ⟨[], g.epsilonClosure 0⟩ ∧
      g.epsilonClosure 0 = [0, 2, 1] ∧
      EndsAfter g.breadthRound 3 ⟨[0], [0]⟩ ⟨[], g.reachableFrom 0⟩ ∧
      g.reachableFrom 0 = [0, 1, 2] := by
  intro operations g
  have hv : g.contains 0 := rfl
  have hsilent : EndsAfter g.silentRound 4 ⟨[0], []⟩ ⟨[], [0, 2, 1]⟩ :=
    .round rfl (.round rfl (.round rfl (.round rfl (.ended rfl))))
  have hbreadth : EndsAfter g.breadthRound 3 ⟨[0], [0]⟩ ⟨[], [0, 1, 2]⟩ :=
    .round rfl (.round rfl (.round rfl (.ended rfl)))
  obtain ⟨⟨k, -, hclosure⟩, -, hreachable, -⟩ := (searches_list_exactly operations 0).1 hv
  obtain ⟨-, hstates⟩ := hsilent.unique hclosure
  obtain ⟨-, hstates'⟩ := hbreadth.unique hreachable
  rw [Exploration.mk.injEq] at hstates hstates'
  refine ⟨hv, rfl, ?_, hstates.2.symm, ?_, hstates'.2.symm⟩
  · rwa [← hstates.2]
  · rwa [← hstates'.2]

end Graph

end RegexCompiler
