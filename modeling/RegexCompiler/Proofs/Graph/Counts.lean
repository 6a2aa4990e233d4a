import Mathlib.Data.Set.Card
import RegexCompiler.Proofs.Graph.Orders

/-!
# Sizes of graphs

The tables of a coherent graph list nothing twice, so the lengths of their lists are the numbers of
vertices and edges that the graph contains.
-/

namespace RegexCompiler

lemma ncard_setOf {α : Type} {entries : List α} {p : α → Prop} (h : entries.Nodup)
    (hmem : ∀ a, a ∈ entries ↔ p a) : {a | p a}.ncard = entries.length := by
  classical
  have hset : {a | p a} = (entries.toFinset : Set α) := by
    ext a
    simp [hmem]
  rw [hset, Set.ncard_coe_finset, List.toFinset_card_of_nodup h]

namespace Graph

variable {V κ : Type} [DecidableEq V] {g : Graph V κ}

omit [DecidableEq V] in
lemma length_vertices : g.vertices.length = g.vertexCount :=
  List.length_map Prod.fst

lemma vertexCount_prune (v : V) :
    g.vertexCount = (g.inaccessible v).length + (g.prune v).vertexCount := by
  have hkept : (g.prune v).vertices =
      g.vertices.filter fun u => !decide (u ∉ g.reachableFrom v) := by
    rw [prune, vertices_foldl_removeVertex]
    apply List.filter_congr
    intro u hu
    simp [inaccessible, hu]
  rw [← length_vertices, ← length_vertices, hkept]
  exact List.length_eq_length_filter_add _

namespace Coherent

lemma vertexCount_eq (h : g.Coherent) : g.vertexCount = {v | g.contains v}.ncard := by
  rw [ncard_setOf h.outgoing_tidy.keys_nodup fun v => contains_iff.symm]
  exact length_vertices.symm

lemma edgeCount_eq (h : g.Coherent) :
    g.edgeCount = {edge : Edge V | g.Arrow edge.source edge.label edge.target}.ncard :=
  (ncard_setOf h.edges_nodup fun _ => h.mem_edges).symm

end Coherent

end Graph

end RegexCompiler
