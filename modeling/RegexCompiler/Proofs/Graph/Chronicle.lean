import Mathlib.Data.List.Nodup
import RegexCompiler.Graph.Chronicle
import RegexCompiler.Proofs.Graph.Coherence

/-!
# Chronicles

What the lists of a chronicle become when entries are added, assigned or left out, and what a
chronicle says about a graph of which it tells: that its tables are coherent, and which graph it is.
-/

namespace RegexCompiler

section Entries

variable {α β : Type} [DecidableEq α]

@[simp] lemma mem_enter {entries : List α} {a b : α} :
    b ∈ enter entries a ↔ b ∈ entries ∨ b = a := by
  unfold enter
  split
  · constructor
    · exact Or.inl
    · rintro (hb | rfl)
      · exact hb
      · assumption
  · simp

lemma enter_of_mem {entries : List α} {a : α} (ha : a ∈ entries) : enter entries a = entries :=
  if_pos ha

lemma nodup_enter {entries : List α} (h : entries.Nodup) (a : α) : (enter entries a).Nodup := by
  unfold enter
  split
  · exact h
  · rw [List.nodup_append]
    refine ⟨h, List.pairwise_singleton _ a, ?_⟩
    rintro b hb c hc rfl
    rw [List.mem_singleton] at hc
    subst hc
    contradiction

lemma keys_assign (a : α) (value : β) (entries : List (α × β)) :
    (assign a value entries).map Prod.fst = enter (entries.map Prod.fst) a := by
  induction entries with
  | nil => rfl
  | cons entry entries ih =>
    rw [assign]
    by_cases h : entry.1 = a
    · rw [if_pos h, enter_of_mem]
      · simp [h]
      · simp [h]
    · rw [if_neg h, List.map_cons, List.map_cons, ih]
      simp only [enter, List.mem_cons, Ne.symm h, false_or]
      split <;> rfl

end Entries

variable {V κ : Type} [DecidableEq V]

/-- Placing is assignment: of distinct keys at most one is the placed vertex. -/
lemma place_eq_assign {layout : List (V × Position κ)} (h : (layout.map Prod.fst).Nodup) (v : V)
    (position : Position κ) : Graph.place layout v position = assign v position layout := by
  induction layout with
  | nil => rfl
  | cons entry layout ih =>
    obtain ⟨u, old⟩ := entry
    rw [List.map_cons, List.nodup_cons] at h
    rw [assign, ← ih h.2]
    unfold Graph.place
    by_cases hu : u = v
    · subst hu
      have hne : ∀ entry ∈ layout, entry.1 ≠ u := fun entry hmem heq =>
        h.1 (List.mem_map.mpr ⟨entry, hmem, heq⟩)
      rw [if_pos rfl, List.lookup_cons, beq_self_eq_true, Option.isSome_some, if_pos rfl,
        List.map_cons]
      apply congrArg₂ List.cons (if_pos rfl)
      conv_rhs => rw [← List.map_id layout]
      apply List.map_congr_left
      intro entry hmem
      exact if_neg (hne entry hmem)
    · rw [if_neg hu, List.lookup_cons, beq_false_of_ne (Ne.symm hu)]
      simp only [List.map_cons, if_neg hu, List.cons_append]
      split <;> rfl

section EdgesAt

variable {near far : Edge V → V} {edges : List (Edge V)} {v w : V} {label : Label}

lemma mem_edgesAt :
    (label, w) ∈ edgesAt near far edges v ↔
      ∃ edge ∈ edges, near edge = v ∧ far edge = w ∧ edge.label = label := by
  unfold edgesAt
  simp only [List.mem_map, List.mem_filter, decide_eq_true_eq, Prod.mk.injEq]
  constructor
  · rintro ⟨edge, ⟨hedge, hnear⟩, hlabel, hfar⟩
    exact ⟨edge, hedge, hnear, hfar, hlabel⟩
  · rintro ⟨edge, hedge, hnear, hfar, hlabel⟩
    exact ⟨edge, ⟨hedge, hnear⟩, hlabel, hfar⟩

lemma edgesAt_eq_nil (h : ∀ edge ∈ edges, near edge ≠ v) : edgesAt near far edges v = [] := by
  unfold edgesAt
  rw [List.map_eq_nil_iff, List.filter_eq_nil_iff]
  intro edge hedge
  simpa using h edge hedge

lemma edgesAt_append_singleton (edge : Edge V) :
    edgesAt near far (edges ++ [edge]) v =
      edgesAt near far edges v ++ if v = near edge then [(edge.label, far edge)] else [] := by
  unfold edgesAt
  rw [List.filter_append, List.map_append]
  by_cases h : near edge = v
  · simp [h]
  · simp [h, Ne.symm h]

omit [DecidableEq V] in
lemma eq_of_ends {edge other : Edge V} (hsource : other.source = edge.source)
    (htarget : other.target = edge.target) (hlabel : other.label = edge.label) : other = edge := by
  cases edge
  cases other
  rw [Edge.mk.injEq]
  exact ⟨hsource, htarget, hlabel⟩

lemma edgesAt_filter_ne {edge : Edge V}
    (hunique : ∀ other, near other = near edge → far other = far edge →
      other.label = edge.label → other = edge) :
    edgesAt near far (edges.filter (· ≠ edge)) v =
      if v = near edge then (edgesAt near far edges v).filter (· ≠ (edge.label, far edge))
      else edgesAt near far edges v := by
  unfold edgesAt
  rw [List.filter_filter]
  split
  · rename_i hv
    rw [List.filter_map, List.filter_filter]
    congr 1
    apply List.filter_congr
    intro other _
    grind
  · congr 1
    apply List.filter_congr
    intro other _
    grind

lemma edgesAt_filter_ends (keep : V → Prop) [DecidablePred keep] :
    edgesAt near far (edges.filter fun edge => keep (near edge) ∧ keep (far edge)) v =
      if keep v then (edgesAt near far edges v).filter (keep ·.2) else [] := by
  unfold edgesAt
  rw [List.filter_filter]
  split
  · rw [List.filter_map, List.filter_filter]
    congr 1
    apply List.filter_congr
    intro other _
    grind
  · rw [List.map_eq_nil_iff, List.filter_eq_nil_iff]
    intro other _
    grind

lemma edgesAt_nodup (h : edges.Nodup)
    (hunique : ∀ edge other : Edge V, near other = near edge → far other = far edge →
      other.label = edge.label → other = edge) :
    (edgesAt near far edges v).Nodup := by
  unfold edgesAt
  apply List.Nodup.map_on _ (h.filter _)
  intro edge hedge other hother heq
  simp only [List.mem_filter, decide_eq_true_eq, Prod.mk.injEq] at hedge hother heq
  exact hunique other edge (hedge.2.trans hother.2.symm) heq.2 heq.1

end EdgesAt

namespace Chronicle

open Adjacency RegexCompiler.Graph

variable {log : Chronicle V κ} {g : Graph V κ} {u v w : V} {label : Label}

@[simp] lemma mem_outgoing : (label, w) ∈ log.outgoing v ↔ log.Arrow v label w := by
  rw [outgoing, mem_edgesAt]
  constructor
  · rintro ⟨edge, hedge, rfl, rfl, rfl⟩
    exact hedge
  · intro h
    exact ⟨_, h, rfl, rfl, rfl⟩

@[simp] lemma mem_incoming : (label, v) ∈ log.incoming w ↔ log.Arrow v label w := by
  rw [incoming, mem_edgesAt]
  constructor
  · rintro ⟨edge, hedge, rfl, rfl, rfl⟩
    exact hedge
  · intro h
    exact ⟨_, h, rfl, rfl, rfl⟩

lemma enterVertex_of_mem (hv : v ∈ log.vertices) : log.enterVertex v = log := by
  unfold enterVertex
  rw [enter_of_mem hv]

/-! ### Orderly chronicles -/

omit [DecidableEq V] in
lemma orderly_empty : (empty : Chronicle V κ).Orderly := by
  constructor <;> simp [empty]

namespace Orderly

lemma enterVertex (h : log.Orderly) (v : V) : (log.enterVertex v).Orderly where
  vertices_nodup := nodup_enter h.vertices_nodup v
  edges_nodup := h.edges_nodup
  finals_nodup := h.finals_nodup
  places_nodup := h.places_nodup
  ends_mem edge hedge :=
    (h.ends_mem edge hedge).imp (fun hs => mem_enter.mpr (Or.inl hs))
      fun ht => mem_enter.mpr (Or.inl ht)
  finals_mem u hu := mem_enter.mpr (Or.inl (h.finals_mem u hu))
  places_mem u hu := mem_enter.mpr (Or.inl (h.places_mem u hu))

omit [DecidableEq V] in
lemma restrict (h : log.Orderly) (keep : V → Prop) [DecidablePred keep] :
    (log.restrict keep).Orderly where
  vertices_nodup := h.vertices_nodup.filter _
  edges_nodup := h.edges_nodup.filter _
  finals_nodup := h.finals_nodup.filter _
  places_nodup := (List.filter_sublist.map _).nodup h.places_nodup
  ends_mem edge hedge := by
    obtain ⟨hedge, hkeep⟩ := List.mem_filter.mp hedge
    have hends := h.ends_mem edge hedge
    simp only [decide_eq_true_eq] at hkeep
    simp [Chronicle.restrict, hends, hkeep]
  finals_mem v hv := by
    obtain ⟨hv, hkeep⟩ := List.mem_filter.mp hv
    exact List.mem_filter.mpr ⟨h.finals_mem v hv, hkeep⟩
  places_mem v hv := by
    obtain ⟨entry, hentry, rfl⟩ := List.mem_map.mp hv
    obtain ⟨hentry, hkeep⟩ := List.mem_filter.mp hentry
    exact List.mem_filter.mpr ⟨h.places_mem _ (List.mem_map_of_mem hentry), hkeep⟩

omit [DecidableEq V] in
lemma restrict_congr (h : log.Orderly) {keep keep' : V → Prop} [DecidablePred keep]
    [DecidablePred keep'] (hkeep : ∀ v ∈ log.vertices, keep v ↔ keep' v) :
    log.restrict keep = log.restrict keep' := by
  unfold Chronicle.restrict
  congr 1
  · apply List.filter_congr
    intro v hv
    simp [hkeep v hv]
  · apply List.filter_congr
    intro edge hedge
    obtain ⟨hs, ht⟩ := h.ends_mem edge hedge
    simp [hkeep _ hs, hkeep _ ht]
  · apply List.filter_congr
    intro v hv
    simp [hkeep v (h.finals_mem v hv)]
  · apply List.filter_congr
    intro entry hentry
    simp [hkeep _ (h.places_mem _ (List.mem_map_of_mem hentry))]

omit [DecidableEq V] in
lemma restrict_eq_self (h : log.Orderly) {keep : V → Prop} [DecidablePred keep]
    (hkeep : ∀ v ∈ log.vertices, keep v) : log.restrict keep = log := by
  have hvertices : log.vertices.filter keep = log.vertices := by
    rw [List.filter_eq_self]
    exact fun v hv => decide_eq_true (hkeep v hv)
  have hedges : log.edges.filter (fun edge => keep edge.source ∧ keep edge.target) = log.edges := by
    rw [List.filter_eq_self]
    intro edge hedge
    have hends := h.ends_mem edge hedge
    exact decide_eq_true ⟨hkeep _ hends.1, hkeep _ hends.2⟩
  have hfinals : log.finals.filter keep = log.finals := by
    rw [List.filter_eq_self]
    exact fun v hv => decide_eq_true (hkeep v (h.finals_mem v hv))
  have hlayout : log.layout.filter (fun entry => keep entry.1) = log.layout := by
    rw [List.filter_eq_self]
    exact fun entry hentry =>
      decide_eq_true (hkeep _ (h.places_mem _ (List.mem_map_of_mem hentry)))
  unfold Chronicle.restrict
  rw [hvertices, hedges, hfinals, hlayout]

end Orderly

omit [DecidableEq V] in
lemma restrict_restrict (keep keep' : V → Prop) [DecidablePred keep] [DecidablePred keep'] :
    (log.restrict keep).restrict keep' = log.restrict fun v => keep v ∧ keep' v := by
  unfold Chronicle.restrict
  simp only [List.filter_filter]
  congr 1
  all_goals
    apply List.filter_congr
    intros
    grind

/-! ### What a chronicle tells of a graph -/

namespace Tells

lemma contains_iff (ht : log.Tells g) : g.contains v ↔ v ∈ log.vertices := by
  rw [Graph.contains_iff, ht.outgoing_keys]

lemma arrow_iff (ht : log.Tells g) : g.Arrow v label w ↔ log.Arrow v label w := by
  unfold Graph.Arrow
  rw [ht.outgoing, mem_outgoing]

lemma hasEdge_iff (ht : log.Tells g) :
    g.hasEdge v w label ↔ (⟨v, w, label⟩ : Edge V) ∈ log.edges :=
  Graph.hasEdge_iff.trans ht.arrow_iff

lemma reaches_iff (ht : log.Tells g) : g.Reaches v w ↔ log.Reaches v w := by
  have harrow : g.Arrow = log.Arrow := by
    funext v label w
    exact propext ht.arrow_iff
  unfold Graph.Reaches Chronicle.Reaches Graph.Path
  rw [ht.contains_iff, harrow]

lemma coherent (ht : log.Tells g) (h : log.Orderly) : g.Coherent where
  outgoing_tidy := by
    refine ⟨?_, fun v => ?_⟩
    · rw [ht.outgoing_keys]
      exact h.vertices_nodup
    · rw [ht.outgoing]
      exact edgesAt_nodup h.edges_nodup fun _ _ => eq_of_ends
  incoming_tidy := by
    refine ⟨?_, fun v => ?_⟩
    · rw [ht.incoming_keys]
      exact h.vertices_nodup
    · rw [ht.incoming]
      exact edgesAt_nodup h.edges_nodup fun _ _ htarget hsource => eq_of_ends hsource htarget
  same_keys := ht.incoming_keys.trans ht.outgoing_keys.symm
  mirrored v label w := by
    rw [ht.outgoing, ht.incoming, mem_outgoing, mem_incoming]

lemma relayout (ht : log.Tells g) {g' : Graph V κ} (hs : g.SameShape g') :
    { log with layout := g'.layout : Chronicle V κ }.Tells g' where
  outgoing_keys := by rw [hs.1, ht.outgoing_keys]
  incoming_keys := by rw [hs.2.1, ht.incoming_keys]
  outgoing v := by
    rw [hs.1]
    exact ht.outgoing v
  incoming v := by
    rw [hs.2.1]
    exact ht.incoming v
  finals := by rw [hs.2.2, ht.finals]
  layout := rfl

lemma eq_graph (ht : log.Tells g) (h : log.Orderly) : g = log.graph := by
  have hg := ht.coherent h
  have hout := hg.outgoing_tidy.eq_map_keys ht.outgoing
  have hin := hg.incoming_tidy.eq_map_keys ht.incoming
  rw [ht.outgoing_keys] at hout
  rw [ht.incoming_keys] at hin
  obtain ⟨outgoing, incoming, finals, layout⟩ := g
  unfold Chronicle.graph
  congr 1
  · exact ht.finals
  · exact ht.layout

lemma edges_perm (ht : log.Tells g) (h : log.Orderly) : g.edges.Perm log.edges := by
  have hg := ht.coherent h
  rw [List.perm_ext_iff_of_nodup hg.edges_nodup h.edges_nodup]
  intro edge
  rw [hg.mem_edges, ht.arrow_iff]
  rfl

end Tells

lemma tells_empty : (empty : Chronicle V κ).Tells Graph.empty := by
  constructor <;> intros <;> rfl

lemma Orderly.tells_graph (h : log.Orderly) : log.Tells log.graph where
  outgoing_keys := keys_map _ _
  incoming_keys := keys_map _ _
  outgoing v := by
    unfold Chronicle.graph
    rw [neighbours_map]
    split
    · rfl
    · rename_i hv
      symm
      apply edgesAt_eq_nil
      rintro edge hedge rfl
      exact hv (h.ends_mem edge hedge).1
  incoming v := by
    unfold Chronicle.graph
    rw [neighbours_map]
    split
    · rfl
    · rename_i hv
      symm
      apply edgesAt_eq_nil
      rintro edge hedge rfl
      exact hv (h.ends_mem edge hedge).2
  finals := rfl
  layout := rfl

end Chronicle

end RegexCompiler
