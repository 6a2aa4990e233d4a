import RegexCompiler.Graph.Search
import RegexCompiler.Proofs.Graph.Chronicle
import RegexCompiler.Proofs.Graph.Series

/-!
# Orders of insertion

Where additions and removals put the vertices of a graph and the edges at a vertex: what is new goes
to the end, in the order in which it comes, and a removal leaves the order of the rest.
-/

namespace RegexCompiler

variable {V κ : Type} [DecidableEq V]

lemma newcomers_congr {seen seen' : List V} (h : ∀ v, v ∈ seen ↔ v ∈ seen') (vs : List V) :
    newcomers seen vs = newcomers seen' vs := by
  induction vs generalizing seen seen' with
  | nil => rfl
  | cons u vs ih =>
    have hu : ∀ v, v ∈ u :: seen ↔ v ∈ u :: seen' := by
      intro v
      rw [List.mem_cons, List.mem_cons, h]
    rw [newcomers, newcomers, ih h, ih hu]
    simp only [h]

lemma enter_append_newcomers (seen : List V) (v : V) (vs : List V) :
    enter seen v ++ newcomers (enter seen v) vs = seen ++ newcomers seen (v :: vs) := by
  rw [newcomers]
  unfold enter
  split
  · rfl
  · have hseen : ∀ u, u ∈ seen ++ [v] ↔ u ∈ v :: seen := by
      intro u
      rw [List.mem_append, List.mem_singleton, List.mem_cons, or_comm]
    rw [newcomers_congr hseen, List.append_assoc, List.singleton_append]

namespace Graph

open Adjacency

variable {g : Graph V κ}

lemma vertices_addVertex (v : V) : (g.addVertex v).vertices = enter g.vertices v := by
  unfold addVertex enter
  by_cases hv : g.contains v
  · rw [if_pos hv, if_pos (show v ∈ g.vertices from contains_iff.mp hv)]
  · rw [if_neg hv, if_neg (show v ∉ g.vertices from mt contains_iff.mpr hv)]
    exact List.map_append

lemma vertices_addEdge (source target : V) (label : Label) :
    (g.addEdge source target label).vertices = enter (enter g.vertices source) target := by
  rw [← vertices_addVertex, ← vertices_addVertex]
  dsimp only [addEdge]
  split
  · rfl
  · exact keys_modify _ _ _

lemma vertices_foldl_addEdge {source : V} {edges : List (Edge V)} (hsource : source ∈ g.vertices)
    (hedges : ∀ edge ∈ edges, edge.source = source) :
    (edges.foldl (fun g edge => g.addEdge edge.source edge.target edge.label) g).vertices =
      g.vertices ++ newcomers g.vertices (edges.map Edge.target) := by
  induction edges generalizing g with
  | nil => exact (List.append_nil _).symm
  | cons edge edges ih =>
    rw [List.forall_mem_cons] at hedges
    have hstep : (g.addEdge edge.source edge.target edge.label).vertices =
        enter g.vertices edge.target := by
      rw [vertices_addEdge, hedges.1, enter_of_mem hsource]
    have hkept : source ∈ (g.addEdge edge.source edge.target edge.label).vertices := by
      rw [hstep, mem_enter]
      exact Or.inl hsource
    rw [List.foldl_cons, ih hkept hedges.2, hstep, List.map_cons, enter_append_newcomers]

lemma finals_markFinal {v : V} (hv : g.contains v) (hnew : v ∉ g.finals) :
    (g.markFinal v).finals = g.finals ++ [v] := by
  unfold markFinal
  rw [if_pos]
  rw [Bool.and_eq_true, Bool.not_eq_true', ← Bool.not_eq_true, isFinal_iff]
  exact ⟨hv, hnew⟩

@[simp] lemma outgoing_markFinal (v : V) : (g.markFinal v).outgoing = g.outgoing := by
  unfold markFinal
  split <;> rfl

lemma vertices_foldl_removeVertex (doomed : List V) :
    (doomed.foldl removeVertex g).vertices = g.vertices.filter (· ∉ doomed) := by
  induction doomed generalizing g with
  | nil => simp
  | cons v doomed ih =>
    rw [List.foldl_cons, ih, vertices, keys_outgoing_removeVertex, List.filter_filter]
    apply List.filter_congr
    grind

lemma neighbours_addVertex (v u : V) :
    (g.addVertex v).outgoing.neighbours u = g.outgoing.neighbours u := by
  unfold addVertex
  split
  · rfl
  · exact neighbours_append_isolated _ _ _

lemma neighbours_addEdge {source target : V} {label : Label} (hnew : ¬g.Arrow source label target)
    (v : V) : (g.addEdge source target label).outgoing.neighbours v =
      g.outgoing.neighbours v ++ if v = source then [(label, target)] else [] := by
  have hends : ∀ u, ((g.addVertex source).addVertex target).outgoing.neighbours u =
      g.outgoing.neighbours u := by
    intro u
    rw [neighbours_addVertex, neighbours_addVertex]
  have hsource : source ∈ ((g.addVertex source).addVertex target).outgoing.keys := by
    rw [← contains_iff]
    simp
  have hedge : ¬((g.addVertex source).addVertex target).hasEdge source target label := by
    rw [hasEdge_iff, arrow_addVertex, arrow_addVertex]
    exact hnew
  dsimp only [addEdge]
  rw [if_neg hedge, neighbours_modify_append hsource, hends]

lemma neighbours_foldl_addEdge {source : V} {edges : List (Edge V)} (hnodup : edges.Nodup)
    (hedges : ∀ edge ∈ edges, edge.source = source)
    (hnew : ∀ edge ∈ edges, ¬g.Arrow edge.source edge.label edge.target) (v : V) :
    (edges.foldl (fun g edge => g.addEdge edge.source edge.target edge.label) g).outgoing.neighbours
        v = g.outgoing.neighbours v ++
      if v = source then edges.map fun edge => (edge.label, edge.target) else [] := by
  induction edges generalizing g with
  | nil => simp
  | cons edge edges ih =>
    rw [List.nodup_cons] at hnodup
    rw [List.forall_mem_cons] at hedges hnew
    have hrest : ∀ other ∈ edges, ¬(g.addEdge edge.source edge.target edge.label).Arrow
        other.source other.label other.target := by
      intro other hother
      rw [arrow_addEdge, ← edge_eq_iff]
      rintro (ha | heq)
      · exact hnew.2 other hother ha
      · exact hnodup.1 (heq ▸ hother)
    rw [List.foldl_cons, ih hnodup.2 hedges.2 hrest, neighbours_addEdge hnew.1, hedges.1,
      List.append_assoc]
    split <;> rfl

end Graph

end RegexCompiler
