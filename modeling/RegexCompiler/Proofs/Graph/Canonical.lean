import Mathlib.Data.List.Perm.Basic
import RegexCompiler.Graph.Snapshot
import RegexCompiler.Proofs.Graph.Names
import RegexCompiler.Proofs.Graph.Refinement

/-!
# Canonical exports

Snapshots and listings depend on what a graph contains and not on the operations it came about by.
Conversely a snapshot tells all that its graph contains. Both rest on the order of the vertices and
of the edges, in which nothing occurs twice, and on the names, which are all different.
-/

namespace RegexCompiler

section Sorting

variable {α : Type} {cmp : α → α → Ordering} [Std.TransCmp cmp]

lemma pairwise_mergeSort_cmp (xs : List α) :
    (xs.mergeSort fun a b => (cmp a b).isLE).Pairwise fun a b => (cmp a b).isLE := by
  apply List.pairwise_mergeSort
  · intro a b c hab hbc
    exact Std.TransCmp.isLE_trans hab hbc
  · intro a b
    have hswap : cmp b a = (cmp a b).swap := Std.OrientedCmp.eq_swap
    rw [hswap]
    cases cmp a b <;> decide

variable [Std.LawfulEqCmp cmp]

lemma pairwise_lt_mergeSort {xs : List α} (h : xs.Nodup) :
    (xs.mergeSort fun a b => (cmp a b).isLE).Pairwise fun a b => cmp a b = .lt := by
  have hnodup := (List.mergeSort_perm xs fun a b => (cmp a b).isLE).nodup_iff.mpr h
  refine (pairwise_mergeSort_cmp xs).imp₂ ?_ hnodup
  intro a b hle hne
  cases hab : cmp a b with
  | lt => rfl
  | eq => exact absurd (Std.LawfulEqCmp.eq_of_compare hab) hne
  | gt =>
    rw [hab] at hle
    exact absurd hle (by decide)

lemma mergeSort_eq_of_mem_iff {xs ys : List α} (hx : xs.Nodup) (hy : ys.Nodup)
    (h : ∀ a, a ∈ xs ↔ a ∈ ys) :
    xs.mergeSort (fun a b => (cmp a b).isLE) = ys.mergeSort fun a b => (cmp a b).isLE := by
  apply List.Perm.eq_of_pairwise ?_ (pairwise_mergeSort_cmp xs) (pairwise_mergeSort_cmp ys)
  · exact ((List.mergeSort_perm _ _).trans ((List.perm_ext_iff_of_nodup hx hy).mpr h)).trans
      (List.mergeSort_perm _ _).symm
  · intro a b _ _ hab hba
    exact Std.LawfulEqCmp.eq_of_compare (Std.OrientedCmp.isLE_antisymm hab hba)

end Sorting

@[simp] lemma mem_sorted {α : Type} [Ord α] {xs : List α} {a : α} : a ∈ sorted xs ↔ a ∈ xs :=
  List.mem_mergeSort

lemma nodup_sorted {α : Type} [Ord α] {xs : List α} (h : xs.Nodup) : (sorted xs).Nodup :=
  (List.mergeSort_perm _ _).nodup_iff.mpr h

lemma sorted_ascending {α : Type} [Ord α] [Std.TransOrd α] [Std.LawfulEqOrd α] {xs : List α}
    (h : xs.Nodup) : Ascending (sorted xs) :=
  pairwise_lt_mergeSort h

section Order

variable {V : Type} [Ord V]

instance [Std.TransOrd V] : Std.TransCmp (Graph.compareEdges (V := V)) :=
  inferInstanceAs (Std.TransCmp (compareLex (compareOn Prod.fst) (compareOn Prod.snd)))

instance [Std.LawfulEqOrd V] : Std.LawfulEqCmp (Graph.compareEdges (V := V)) where
  compare_self := by simp [Graph.compareEdges]
  eq_of_compare := by
    rintro ⟨label, v⟩ ⟨label', v'⟩ h
    obtain ⟨hlabel, hv⟩ := Ordering.then_eq_eq.mp h
    exact Prod.ext (Std.LawfulEqOrd.eq_of_compare hlabel) (Std.LawfulEqOrd.eq_of_compare hv)

/-- Edges are in the order of their sources, and edges with one source in the order of their labels
and then of their targets. -/
def Edge.Before (a b : Edge V) : Prop :=
  compare a.source b.source = .lt ∨
    a.source = b.source ∧ Graph.compareEdges (a.label, a.target) (b.label, b.target) = .lt

lemma Edge.Before.ne [Std.TransOrd V] {a b : Edge V} (h : a.Before b) : a ≠ b := by
  rintro rfl
  rcases h with h | ⟨-, h⟩
  · exact absurd (Std.compare_self.symm.trans h) (by decide)
  · exact absurd (Std.ReflCmp.compare_self.symm.trans h) (by decide)

end Order

def SnapshotEdge.ofEdge {V : Type} [Named V] (edge : Edge V) : SnapshotEdge :=
  ⟨Named.name edge.source, Named.name edge.target, edge.label⟩

section Contents

variable {V κ : Type} [DecidableEq V]

/-- The graphs contain the same vertices, labelled edges and accepting vertices, and what one
position is to a vertex in one graph, a position that counts as the same is in the other. -/
structure Graph.SameContent (same : Position κ → Position κ → Prop) (g h : Graph V κ) : Prop where
  vertices : ∀ v, g.contains v ↔ h.contains v
  arrows : ∀ v label w, g.Arrow v label w ↔ h.Arrow v label w
  finals : ∀ v, g.isFinal v ↔ h.isFinal v
  positions : ∀ v, Option.Rel same (g.position v) (h.position v)

/-- The snapshots are equal, where positions are compared as given. Layouts are maps from names, so
that the order of their entries does not count. -/
structure Snapshot.Agrees (same : Position κ → Position κ → Prop) (s t : Snapshot κ) : Prop where
  vertices : s.vertices = t.vertices
  edges : s.edges = t.edges
  finals : s.finals = t.finals
  layout : ∀ name, Option.Rel same (s.layout.lookup name) (t.layout.lookup name)

omit [DecidableEq V] in
lemma Snapshot.Agrees.refl (s : Snapshot κ) : s.Agrees Eq s where
  vertices := rfl
  edges := rfl
  finals := rfl
  layout name := by
    cases s.layout.lookup name with
    | none => exact .none
    | some p => exact .some rfl

variable [Ord V] [Named V]

/-- The lists of a snapshot name what a graph contains in ascending order, everything once, and the
layout follows the vertices and has one entry for a name. -/
structure Snapshot.Shows (s : Snapshot κ) (g : Graph V κ) : Prop where
  vertices : ∃ vertices : List V, Ascending vertices ∧ (∀ v, v ∈ vertices ↔ g.contains v) ∧
    s.vertices = vertices.map Named.name ∧
    s.layout = vertices.filterMap fun v => (g.position v).map (Named.name v, ·)
  edges : ∃ edges : List (Edge V), edges.Pairwise Edge.Before ∧
    (∀ edge, edge ∈ edges ↔ g.Arrow edge.source edge.label edge.target) ∧
    s.edges = edges.map .ofEdge
  finals : ∃ finals : List V, Ascending finals ∧ (∀ v, v ∈ finals ↔ g.isFinal v) ∧
    s.finals = finals.map Named.name
  nodup : s.vertices.Nodup ∧ s.edges.Nodup ∧ s.finals.Nodup ∧ (s.layout.map Prod.fst).Nodup

end Contents

namespace Graph

variable {V κ : Type} [DecidableEq V] {g g' : Graph V κ}

/-- A graph whose tables mirror each other and in which no mark occurs twice and only vertices have
positions. -/
structure Exportable (g : Graph V κ) : Prop extends g.Coherent where
  finals_nodup : g.finals.Nodup
  contains_of_position : ∀ v, (g.position v).isSome → g.contains v

lemma exportable_ofOperations [Coordinate κ] (operations : List (Operation V κ)) :
    (ofOperations operations).Exportable := by
  obtain ⟨horderly, htells⟩ :=
    Chronicle.tells_foldl Chronicle.orderly_empty Chronicle.tells_empty operations
  refine ⟨htells.coherent horderly, ?_, fun v hv => ?_⟩
  · rw [show (ofOperations operations).finals = _ from htells.finals]
    exact horderly.finals_nodup
  · rw [show (ofOperations operations).contains v ↔ _ from htells.contains_iff]
    apply horderly.places_mem
    rw [position, show (ofOperations operations).layout = _ from htells.layout,
      List.lookup_isSome_iff] at hv
    obtain ⟨entry, hmem, heq⟩ := hv
    rw [eq_of_beq heq]
    exact List.mem_map_of_mem hmem

variable [Ord V]

lemma mem_sorted_vertices {v : V} : v ∈ sorted g.vertices ↔ g.contains v := by
  rw [mem_sorted, contains_iff]
  rfl

lemma mem_sortedEdges {v w : V} {label : Label} :
    (label, w) ∈ g.sortedEdges v ↔ g.Arrow v label w :=
  List.mem_mergeSort

/-- The edges of a graph in the order in which snapshots list them. -/
def listedEdges (g : Graph V κ) : List (Edge V) :=
  (sorted g.vertices).flatMap fun source =>
    (g.sortedEdges source).map fun (label, target) => ⟨source, target, label⟩

lemma mem_listedEdges {edge : Edge V} :
    edge ∈ g.listedEdges ↔ g.Arrow edge.source edge.label edge.target := by
  simp only [listedEdges, List.mem_flatMap, List.mem_map, Prod.exists]
  constructor
  · rintro ⟨source, -, label, target, harrow, rfl⟩
    exact mem_sortedEdges.mp harrow
  · intro harrow
    exact ⟨edge.source, mem_sorted_vertices.mpr harrow.contains_source, edge.label, edge.target,
      mem_sortedEdges.mpr harrow, rfl⟩

/-! ### Snapshots tell what graphs contain -/

section Observations

variable [Named V]

lemma edges_snapshot : g.snapshot.edges = g.listedEdges.map .ofEdge := by
  simp only [snapshot, listedEdges, List.map_flatMap, List.map_map]
  rfl

lemma lookup_layout_eq_none {name : String} (h : ∀ v : V, Named.name v ≠ name) :
    g.snapshot.layout.lookup name = none := by
  rw [List.lookup_eq_none_iff]
  intro entry hentry
  obtain ⟨v, -, hv⟩ := List.mem_filterMap.mp hentry
  obtain ⟨p, -, rfl⟩ := Option.map_eq_some_iff.mp hv
  exact bne_iff_ne.mpr (h v).symm

variable (hname : Function.Injective (Named.name (V := V)))
include hname

omit [DecidableEq V] [Ord V] in
lemma ofEdge_injective : Function.Injective (SnapshotEdge.ofEdge (V := V)) := by
  rintro ⟨source, target, label⟩ ⟨source', target', label'⟩ heq
  simp only [SnapshotEdge.ofEdge, SnapshotEdge.mk.injEq] at heq
  obtain ⟨hsource, htarget, rfl⟩ := heq
  rw [hname hsource, hname htarget]

lemma mem_vertices_snapshot {v : V} : Named.name v ∈ g.snapshot.vertices ↔ g.contains v := by
  rw [snapshot, List.mem_map_of_injective hname, mem_sorted_vertices]

lemma mem_edges_snapshot {edge : Edge V} :
    .ofEdge edge ∈ g.snapshot.edges ↔ g.Arrow edge.source edge.label edge.target := by
  rw [edges_snapshot, List.mem_map_of_injective (ofEdge_injective hname), mem_listedEdges]

lemma mem_finals_snapshot {v : V} : Named.name v ∈ g.snapshot.finals ↔ g.isFinal v := by
  rw [snapshot, List.mem_map_of_injective hname, mem_sorted, isFinal_iff]

omit [Ord V] in
lemma lookup_filterMap_name (vertices : List V) (position : V → Option (Position κ)) (v : V) :
    (vertices.filterMap fun u => (position u).map (Named.name u, ·)).lookup (Named.name v) =
      if v ∈ vertices then position v else none := by
  induction vertices with
  | nil => rfl
  | cons u vertices ih =>
    rw [List.filterMap_cons]
    cases hu : position u with
    | none =>
      simp only [Option.map_none, ih, List.mem_cons]
      grind
    | some p =>
      simp only [Option.map_some, List.lookup_cons, ih, List.mem_cons]
      by_cases huv : v = u
      · simp [huv, hu]
      · have hne : (Named.name v == Named.name u) = false := by simpa using hname.ne huv
        simp [hne, huv]

lemma Exportable.lookup_layout_snapshot (hg : g.Exportable) (v : V) :
    g.snapshot.layout.lookup (Named.name v) = g.position v := by
  rw [snapshot, lookup_filterMap_name hname]
  split
  · rfl
  · rename_i hv
    rw [mem_sorted_vertices] at hv
    exact (Option.not_isSome_iff_eq_none.mp (mt (hg.contains_of_position v) hv)).symm

lemma Exportable.sameContent_of_agrees {same : Position κ → Position κ → Prop} (hg : g.Exportable)
    (hg' : g'.Exportable) (h : g.snapshot.Agrees same g'.snapshot) : g.SameContent same g' where
  vertices v := by
    rw [← mem_vertices_snapshot hname, h.vertices, mem_vertices_snapshot hname]
  arrows v label w := by
    change g.Arrow (Edge.mk v w label).source _ (Edge.mk v w label).target ↔ _
    rw [← mem_edges_snapshot hname, h.edges, mem_edges_snapshot hname]
  finals v := by
    rw [← mem_finals_snapshot hname, h.finals, mem_finals_snapshot hname]
  positions v := by
    rw [← hg.lookup_layout_snapshot hname, ← hg'.lookup_layout_snapshot hname]
    exact h.layout (Named.name v)

end Observations

/-! ### Exports depend on the content alone -/

variable [Std.TransOrd V] [Std.LawfulEqOrd V]

section Content

variable {same : Position κ → Position κ → Prop}

lemma SameContent.sorted_vertices (h : SameContent same g g') (hg : g.Exportable)
    (hg' : g'.Exportable) : sorted g.vertices = sorted g'.vertices := by
  apply mergeSort_eq_of_mem_iff hg.outgoing_tidy.keys_nodup hg'.outgoing_tidy.keys_nodup
  intro v
  exact contains_iff.symm.trans ((h.vertices v).trans contains_iff)

lemma SameContent.sortedEdges (h : SameContent same g g') (hg : g.Exportable)
    (hg' : g'.Exportable) : g.sortedEdges = g'.sortedEdges := by
  funext v
  apply mergeSort_eq_of_mem_iff (hg.outgoing_tidy.neighbours_nodup v)
    (hg'.outgoing_tidy.neighbours_nodup v)
  rintro ⟨label, w⟩
  exact h.arrows v label w

lemma SameContent.sorted_finals (h : SameContent same g g') (hg : g.Exportable)
    (hg' : g'.Exportable) : sorted g.finals = sorted g'.finals := by
  apply mergeSort_eq_of_mem_iff hg.finals_nodup hg'.finals_nodup
  intro v
  exact isFinal_iff.symm.trans ((h.finals v).trans isFinal_iff)

omit [Ord V] [Std.TransOrd V] [Std.LawfulEqOrd V] in
lemma SameContent.position_eq (h : SameContent Eq g g') : g.position = g'.position := by
  funext v
  generalize hp : g.position v = p, hp' : g'.position v = p'
  have hpositions := h.positions v
  rw [hp, hp'] at hpositions
  cases hpositions with
  | some heq => rw [heq]
  | none => rfl

lemma Exportable.pairwise_listedEdges (hg : g.Exportable) :
    g.listedEdges.Pairwise Edge.Before := by
  unfold listedEdges
  rw [List.pairwise_flatMap]
  constructor
  · intro source _
    rw [List.pairwise_map]
    exact (pairwise_lt_mergeSort (hg.outgoing_tidy.neighbours_nodup source)).imp
      fun hlt => Or.inr ⟨rfl, hlt⟩
  · apply (sorted_ascending hg.outgoing_tidy.keys_nodup).imp
    intro v w hlt edge hedge other hother
    obtain ⟨_, _, rfl⟩ := List.mem_map.mp hedge
    obtain ⟨_, _, rfl⟩ := List.mem_map.mp hother
    exact Or.inl hlt

end Content

section Exports

variable [Named V]

lemma SameContent.snapshot_eq (h : SameContent Eq g g') (hg : g.Exportable)
    (hg' : g'.Exportable) : g.snapshot = g'.snapshot := by
  unfold snapshot
  rw [h.sorted_vertices hg hg', h.sortedEdges hg hg', h.sorted_finals hg hg', h.position_eq]

lemma SameContent.listing_eq {g g' : Graph V Float} (h : SameContent Eq g g')
    (hg : g.Exportable) (hg' : g'.Exportable) (palette : Palette) (showLayout : Bool) :
    g.listing palette showLayout = g'.listing palette showLayout := by
  have hline : listedVertex palette showLayout g = listedVertex palette showLayout g' := by
    funext v
    unfold listedVertex
    rw [h.sortedEdges hg hg', h.position_eq]
  unfold listing
  rw [h.sorted_vertices hg hg', h.sorted_finals hg hg', hline]

omit [Std.TransOrd V] [Std.LawfulEqOrd V] in
lemma keys_layout_snapshot : g.snapshot.layout.map Prod.fst =
    ((sorted g.vertices).filter fun v => (g.position v).isSome).map Named.name := by
  simp only [snapshot]
  induction sorted g.vertices with
  | nil => rfl
  | cons v vertices ih => cases hv : g.position v <;> simp [hv, ih]

variable (hname : Function.Injective (Named.name (V := V)))
include hname

lemma SameContent.agrees {same : Position κ → Position κ → Prop} (h : SameContent same g g')
    (hg : g.Exportable) (hg' : g'.Exportable) : g.snapshot.Agrees same g'.snapshot where
  vertices := by rw [snapshot, snapshot, h.sorted_vertices hg hg']
  edges := by
    rw [edges_snapshot, edges_snapshot, listedEdges, listedEdges, h.sorted_vertices hg hg',
      h.sortedEdges hg hg']
  finals := by rw [snapshot, snapshot, h.sorted_finals hg hg']
  layout name := by
    by_cases hv : ∃ v : V, Named.name v = name
    · obtain ⟨v, rfl⟩ := hv
      rw [hg.lookup_layout_snapshot hname, hg'.lookup_layout_snapshot hname]
      exact h.positions v
    · rw [not_exists] at hv
      rw [lookup_layout_eq_none hv, lookup_layout_eq_none hv]
      exact .none

lemma Exportable.shows_snapshot (hg : g.Exportable) : g.snapshot.Shows g where
  vertices := ⟨sorted g.vertices, sorted_ascending hg.outgoing_tidy.keys_nodup,
    fun _ => mem_sorted_vertices, rfl, rfl⟩
  edges := ⟨g.listedEdges, hg.pairwise_listedEdges, fun _ => mem_listedEdges, edges_snapshot⟩
  finals := ⟨sorted g.finals, sorted_ascending hg.finals_nodup,
    fun _ => mem_sorted.trans isFinal_iff.symm, rfl⟩
  nodup := by
    have hvertices := nodup_sorted hg.outgoing_tidy.keys_nodup
    have hedges : g.listedEdges.Nodup := hg.pairwise_listedEdges.imp Edge.Before.ne
    refine ⟨hvertices.map hname, ?_, (nodup_sorted hg.finals_nodup).map hname, ?_⟩
    · rw [edges_snapshot]
      exact hedges.map (ofEdge_injective hname)
    · rw [keys_layout_snapshot]
      exact (hvertices.filter _).map hname

end Exports

/-- The exports of two graphs with the same content are the same, with any palette, and snapshots
tell contents apart. -/
structure CanonicallyExported [Named V] (g g' : Graph V Float) : Prop where
  shows : g.snapshot.Shows g
  agrees_iff : ∀ same, g.snapshot.Agrees same g'.snapshot ↔ g.SameContent same g'
  snapshot_eq_iff : g.snapshot = g'.snapshot ↔ g.SameContent Eq g'
  listing_eq : g.SameContent Eq g' →
    ∀ palette showLayout, g.listing palette showLayout = g'.listing palette showLayout

lemma Exportable.canonicallyExported [Named V] {g g' : Graph V Float}
    (hname : Function.Injective (Named.name (V := V))) (hg : g.Exportable) (hg' : g'.Exportable) :
    g.CanonicallyExported g' where
  shows := hg.shows_snapshot hname
  agrees_iff _ := ⟨hg.sameContent_of_agrees hname hg', fun h => h.agrees hname hg hg'⟩
  snapshot_eq_iff := by
    refine ⟨fun h => ?_, fun h => h.snapshot_eq hg hg'⟩
    exact hg.sameContent_of_agrees hname hg' (h ▸ Snapshot.Agrees.refl _)
  listing_eq h := h.listing_eq hg hg'

end Graph

/-- What a graph exports depends on its content and not on the operations that built it, and its
snapshot shows the whole content, in order and everything once. Positions may be compared by any
relation, for instance by one that takes the two zeros for the same number; texts are the same where
positions are equal. -/
theorem exports_canonical :
    (∀ operations operations' : List (Operation State Float),
      (Graph.ofOperations operations).CanonicallyExported (Graph.ofOperations operations')) ∧
    ∀ operations operations' : List (Operation StateSet Float),
      (Graph.ofOperations operations).CanonicallyExported (Graph.ofOperations operations') := by
  constructor
  · intro operations operations'
    exact (Graph.exportable_ofOperations operations).canonicallyExported State.name_injective
      (Graph.exportable_ofOperations operations')
  · intro operations operations'
    exact (Graph.exportable_ofOperations operations).canonicallyExported StateSet.name_injective
      (Graph.exportable_ofOperations operations')

/-- The vertices come in order, although they were added in another one. -/
example :
    (Graph.ofOperations [.addVertex .final, .addEdge (.fresh 0) .final (.symbol 'b'),
      .addEdge .start (.fresh 0) (.symbol 'a')] : Graph State Float).listing .plain false =
        "start: a → 0\n0: b → final\nfinal: ∅\naccept: ∅\n" := by
  cbv

end RegexCompiler
