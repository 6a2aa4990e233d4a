import RegexCompiler.Proofs.Graph.Searches

/-!
# Layouts

A layout places every vertex once: those that lead to the anchor in the order in which a search
against the direction of the edges meets them, and then all others in their own order.
-/

namespace RegexCompiler

variable {V κ : Type} [DecidableEq V]

lemma lookup_isNone_iff {entries : List (V × Position κ)} {v : V} :
    (entries.lookup v).isNone ↔ v ∉ entries.map Prod.fst := by
  rw [Option.isNone_iff_eq_none, List.lookup_eq_none_iff, List.mem_map]
  constructor
  · rintro h ⟨entry, hmem, rfl⟩
    exact absurd (h entry hmem) (by simp)
  · intro h entry hmem
    rw [bne_iff_ne]
    rintro rfl
    exact h ⟨entry, hmem, rfl⟩

lemma lookup_eq_some_of_mem {entries : List (V × Position κ)} {v : V} {place : Position κ}
    (hnodup : (entries.map Prod.fst).Nodup) (hmem : (v, place) ∈ entries) :
    entries.lookup v = some place := by
  obtain ⟨before, after, rfl⟩ := List.append_of_mem hmem
  rw [List.map_append, List.map_cons] at hnodup
  refine List.lookup_eq_some_iff.mpr ⟨before, after, rfl, ?_⟩
  intro entry hentry
  rw [bne_iff_ne]
  exact Ne.symm ((List.nodup_append.mp hnodup).2.2 entry.1 (List.mem_map_of_mem hentry) v
    List.mem_cons_self)

lemma discoveries_nodup {next : V → List V} {bounded : Bounded next} {queue seen : List V}
    (hseen : seen.Nodup) :
    (seen ++ (breadthFirst next bounded queue seen).flatMap Prod.snd).Nodup := by
  fun_induction breadthFirst next bounded queue seen with
  | case1 => simpa using hseen
  | case2 seen v queue found ih =>
    rw [List.flatMap_cons, ← List.append_assoc]
    apply ih
    rw [List.nodup_append]
    refine ⟨hseen, newcomers_nodup seen (next v), ?_⟩
    rintro u hu w hw rfl
    exact (mem_of_mem_newcomers hw).2 hu

lemma visited_nodup {next : V → List V} {bounded : Bounded next} (origin : V) :
    ((breadthFirst next bounded [origin] [origin]).map Prod.fst).Nodup := by
  rw [breadthFirst_visited]
  exact discoveries_nodup (List.pairwise_singleton _ origin)

namespace Graph

variable {g : Graph V κ}

lemma layout_foldl_setPosition {entries : List (V × Position κ)}
    (hnodup : (g.layout.map Prod.fst ++ entries.map Prod.fst).Nodup)
    (hcontains : ∀ v ∈ entries.map Prod.fst, g.contains v) :
    (entries.foldl (fun g (v, position) => g.setPosition v position) g).layout =
      g.layout ++ entries := by
  induction entries generalizing g with
  | nil => simp
  | cons entry entries ih =>
    obtain ⟨v, position⟩ := entry
    rw [List.map_cons, List.forall_mem_cons] at hcontains
    have hnew : v ∉ g.layout.map Prod.fst := fun hv =>
      (List.nodup_append.mp hnodup).2.2 v hv v List.mem_cons_self rfl
    have hlayout : (g.setPosition v position).layout = g.layout ++ [(v, position)] := by
      rw [setPosition, if_pos hcontains.1]
      have hnone := Option.isNone_iff_eq_none.mp (lookup_isNone_iff.mpr hnew)
      simp [place, hnone]
    rw [List.foldl_cons, ih, hlayout, List.append_assoc, List.singleton_append]
    · rw [hlayout]
      simpa using hnodup
    · intro u hu
      rw [(sameShape_setPosition v position).contains_eq]
      exact hcontains.2 u hu

variable [Coordinate κ]

omit [DecidableEq V] in
@[simp] lemma keys_placeLayer (below : Position κ) (layer : List V) :
    (placeLayer below layer).map Prod.fst = layer := by
  unfold placeLayer
  rw [List.map_map]
  exact List.zipIdx_map_fst 0 layer

lemma exists_placeNext_eq {placed : List (V × Position κ)} {v : V} (hv : v ∈ placed.map Prod.fst)
    (layer : List V) :
    ∃ below, (v, below) ∈ placed ∧ placeNext placed v layer = placed ++ placeLayer below layer := by
  unfold placeNext
  cases hlookup : placed.lookup v with
  | none => exact absurd hv (lookup_isNone_iff.mp (Option.isNone_iff_eq_none.mpr hlookup))
  | some below =>
    obtain ⟨before, after, rfl, -⟩ := List.lookup_eq_some_iff.mp hlookup
    exact ⟨below, List.mem_append_right before List.mem_cons_self, rfl⟩

lemma keys_placeNext {placed : List (V × Position κ)} {v : V} (hv : v ∈ placed.map Prod.fst)
    (layer : List V) : (placeNext placed v layer).map Prod.fst = placed.map Prod.fst ++ layer := by
  obtain ⟨below, -, hnext⟩ := exists_placeNext_eq hv layer
  rw [hnext, List.map_append, keys_placeLayer]

/-- A search has placed what it has seen, the queue included. -/
structure PlacesSeen (queue seen : List V) (placed : List (V × Position κ)) : Prop where
  queue_subset : queue ⊆ seen
  keys : placed.map Prod.fst = seen

omit [DecidableEq V] [Coordinate κ] in
lemma PlacesSeen.initial (anchor : V) (origin : Position κ) :
    PlacesSeen [anchor] [anchor] [(anchor, origin)] :=
  ⟨List.Subset.refl _, rfl⟩

omit [DecidableEq V] [Coordinate κ] in
lemma PlacesSeen.head {v : V} {queue seen : List V} {placed : List (V × Position κ)}
    (h : PlacesSeen (v :: queue) seen placed) : v ∈ placed.map Prod.fst := by
  rw [h.keys]
  exact h.queue_subset List.mem_cons_self

lemma PlacesSeen.visit {v : V} {queue seen : List V} {placed : List (V × Position κ)}
    (h : PlacesSeen (v :: queue) seen placed) (found : List V) :
    PlacesSeen (queue ++ found) (seen ++ found) (placeNext placed v found) where
  queue_subset := by
    have hqueue := (List.cons_subset.mp h.queue_subset).2
    intro u hu
    rw [List.mem_append] at hu ⊢
    exact hu.imp_left (@hqueue u)
  keys := by rw [keys_placeNext h.head, h.keys]

lemma keys_foldl_placeNext {next : V → List V} {bounded : Bounded next} {queue seen : List V}
    {placed : List (V × Position κ)} (h : PlacesSeen queue seen placed) :
    ((breadthFirst next bounded queue seen).foldl
      (fun placed (v, layer) => placeNext placed v layer) placed).map Prod.fst =
      seen ++ (breadthFirst next bounded queue seen).flatMap Prod.snd := by
  fun_induction breadthFirst next bounded queue seen generalizing placed with
  | case1 => simpa using h.keys
  | case2 seen v queue found =>
    rename_i ih
    rw [List.foldl_cons, List.flatMap_cons, ← List.append_assoc]
    exact ih (h.visit found)

lemma keys_placeLayers {anchor : V} (h : g.contains anchor) (origin : Position κ) :
    (g.placeLayers anchor origin).map Prod.fst = (g.incoming.discoveries anchor).map Prod.fst := by
  rw [placeLayers, if_pos h, Adjacency.discoveries, breadthFirst_visited]
  exact keys_foldl_placeNext (.initial anchor origin)

lemma placeLayers_nodup (anchor : V) (origin : Position κ) :
    ((g.placeLayers anchor origin).map Prod.fst).Nodup := by
  by_cases h : g.contains anchor
  · rw [keys_placeLayers h]
    exact visited_nodup anchor
  · simp [placeLayers, h]

lemma Coherent.contains_of_mem_placeLayers (hg : g.Coherent) {anchor v : V} {origin : Position κ}
    (hv : v ∈ (g.placeLayers anchor origin).map Prod.fst) : g.contains v := by
  by_cases h : g.contains anchor
  · rw [keys_placeLayers h] at hv
    induction mem_visited_iff.mp hv with
    | refl => exact h
    | tail _ hw _ =>
      obtain ⟨label, hedge⟩ := Adjacency.mem_successors.mp hw
      exact Arrow.contains_source ((hg.mirrored _ _ _).mpr hedge)
  · simp [placeLayers, h] at hv

@[simp] lemma keys_placeStragglers (placed : List (V × Position κ)) (origin : Position κ) :
    (g.placeStragglers placed origin).map Prod.fst =
      g.vertices.filter fun v => (placed.lookup v).isNone := by
  unfold placeStragglers
  rw [List.map_map]
  exact List.zipIdx_map_fst 0 _

lemma Coherent.places_nodup (hg : g.Coherent) (anchor : V) (origin : Position κ) :
    ((g.places anchor origin).map Prod.fst).Nodup := by
  dsimp only [places]
  rw [List.map_append, keys_placeStragglers, List.nodup_append]
  refine ⟨placeLayers_nodup anchor origin, hg.outgoing_tidy.keys_nodup.filter _, ?_⟩
  rintro v hv w hw rfl
  exact lookup_isNone_iff.mp (List.mem_filter.mp hw).2 hv

lemma Coherent.mem_places (hg : g.Coherent) {anchor v : V} {origin : Position κ} :
    v ∈ (g.places anchor origin).map Prod.fst ↔ g.contains v := by
  dsimp only [places]
  rw [List.map_append, keys_placeStragglers, List.mem_append, List.mem_filter, lookup_isNone_iff,
    vertices, ← contains_iff]
  constructor
  · rintro (hv | ⟨hv, -⟩)
    · exact hg.contains_of_mem_placeLayers hv
    · exact hv
  · intro hv
    by_cases hplaced : v ∈ (g.placeLayers anchor origin).map Prod.fst
    · exact Or.inl hplaced
    · exact Or.inr ⟨hv, hplaced⟩

theorem Coherent.layout_assignLayout (hg : g.Coherent) (anchor : V) (origin : Position κ) :
    (g.assignLayout anchor origin).layout = g.places anchor origin := by
  have hclear : g.SameShape g.clearLayout := ⟨rfl, rfl, rfl⟩
  unfold assignLayout
  rw [layout_foldl_setPosition]
  · rfl
  · exact hg.places_nodup anchor origin
  · intro v hv
    rw [hclear.contains_eq]
    exact hg.mem_places.mp hv

end Graph

end RegexCompiler
