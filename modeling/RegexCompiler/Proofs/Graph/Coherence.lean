import Mathlib.Data.List.Nodup
import RegexCompiler.Graph.Operation
import RegexCompiler.Graph.Path
import RegexCompiler.Proofs.Graph.Tables

/-!
# Coherent graphs

The two tables of a graph say the same thing from both ends. Every operation keeps them coherent,
so every graph that operations build is coherent. For each operation the arrows, the vertices and
the accepting vertices of the result are described in terms of those before it.
-/

namespace RegexCompiler.Graph

open Adjacency

variable {V κ : Type} [DecidableEq V] {g : Graph V κ}

/-- The table of the incoming edges mirrors the table of the outgoing ones. -/
structure Coherent (g : Graph V κ) : Prop where
  outgoing_tidy : g.outgoing.Tidy
  incoming_tidy : g.incoming.Tidy
  same_keys : g.incoming.keys = g.outgoing.keys
  mirrored : ∀ v label w,
    (label, w) ∈ g.outgoing.neighbours v ↔ (label, v) ∈ g.incoming.neighbours w

lemma contains_iff {v : V} : g.contains v ↔ v ∈ g.outgoing.keys :=
  lookup_isSome_iff

lemma isFinal_iff {v : V} : g.isFinal v ↔ v ∈ g.finals :=
  decide_eq_true_iff

lemma hasEdge_iff {source target : V} {label : Label} :
    g.hasEdge source target label ↔ g.Arrow source label target :=
  decide_eq_true_iff

lemma Arrow.contains_source {v w : V} {label : Label} (h : g.Arrow v label w) : g.contains v :=
  contains_iff.mpr (mem_keys_of_mem_neighbours h)

namespace Coherent

lemma contains_target (h : g.Coherent) {v w : V} {label : Label} (ha : g.Arrow v label w) :
    g.contains w := by
  rw [contains_iff, ← h.same_keys]
  exact mem_keys_of_mem_neighbours ((h.mirrored v label w).mp ha)

lemma contains_neighbours (h : g.Coherent) (v : V) :
    ∀ edge ∈ g.outgoing.neighbours v, g.contains edge.2 := by
  intro edge hedge
  have ha : g.Arrow v edge.1 edge.2 := hedge
  exact h.contains_target ha

lemma hasIncoming_iff (h : g.Coherent) {w : V} :
    g.hasIncoming w ↔ ∃ v label, g.Arrow v label w := by
  rw [hasIncoming, Bool.not_eq_true', List.isEmpty_eq_false_iff_exists_mem]
  constructor
  · rintro ⟨⟨label, v⟩, hv⟩
    exact ⟨v, label, (h.mirrored v label w).mpr hv⟩
  · rintro ⟨v, label, hv⟩
    exact ⟨(label, v), (h.mirrored v label w).mp hv⟩

lemma mem_edges (h : g.Coherent) {edge : Edge V} :
    edge ∈ g.edges ↔ g.Arrow edge.source edge.label edge.target := by
  unfold edges Arrow
  rw [List.mem_flatMap]
  constructor
  · rintro ⟨⟨v, outgoing⟩, hv, hedge⟩
    obtain ⟨⟨label, w⟩, hw, rfl⟩ := List.mem_map.mp hedge
    change (label, w) ∈ g.outgoing.neighbours v
    rwa [h.outgoing_tidy.neighbours_eq_of_mem hv]
  · intro ha
    obtain ⟨⟨v, outgoing⟩, hv, hsource⟩ := List.mem_map.mp (mem_keys_of_mem_neighbours ha)
    change v = edge.source at hsource
    rw [← hsource, h.outgoing_tidy.neighbours_eq_of_mem hv] at ha
    refine ⟨(v, outgoing), hv, List.mem_map.mpr ⟨_, ha, ?_⟩⟩
    rw [hsource]

lemma edges_nodup (h : g.Coherent) : g.edges.Nodup := by
  unfold edges
  rw [List.nodup_flatMap]
  constructor
  · rintro ⟨v, outgoing⟩ hv
    apply List.Nodup.map_on
    · rintro ⟨label, w⟩ _ ⟨label', w'⟩ _ heq
      grind
    · rw [← h.outgoing_tidy.neighbours_eq_of_mem hv]
      exact h.outgoing_tidy.neighbours_nodup v
  · have hkeys := h.outgoing_tidy.keys_nodup
    unfold keys at hkeys
    apply (List.pairwise_map.mp hkeys).imp
    rintro ⟨v, outgoing⟩ ⟨w, others⟩ hne edge hedge hother
    obtain ⟨_, _, rfl⟩ := List.mem_map.mp hedge
    obtain ⟨_, _, heq⟩ := List.mem_map.mp hother
    exact hne (congrArg Edge.source heq).symm

lemma congr (h : g.Coherent) {g' : Graph V κ} (hout : g'.outgoing = g.outgoing)
    (hin : g'.incoming = g.incoming) : g'.Coherent where
  outgoing_tidy := hout ▸ h.outgoing_tidy
  incoming_tidy := hin ▸ h.incoming_tidy
  same_keys := by rw [hout, hin, h.same_keys]
  mirrored v label w := by rw [hout, hin, h.mirrored]

end Coherent

lemma coherent_empty : (empty : Graph V κ).Coherent where
  outgoing_tidy := Tidy.nil
  incoming_tidy := Tidy.nil
  same_keys := rfl
  mirrored _ _ _ := by simp [empty]

/-! ### Adding vertices and edges -/

@[simp] lemma arrow_addVertex {v u w : V} {label : Label} :
    (g.addVertex v).Arrow u label w ↔ g.Arrow u label w := by
  unfold addVertex Arrow
  split
  · rfl
  · rw [neighbours_append_isolated]

@[simp] lemma contains_addVertex {v u : V} :
    (g.addVertex v).contains u ↔ g.contains u ∨ u = v := by
  unfold addVertex
  split
  · rename_i hv
    constructor
    · exact Or.inl
    · rintro (hu | rfl)
      · exact hu
      · exact hv
  · simp [contains_iff, keys]

@[simp] lemma finals_addVertex {v : V} : (g.addVertex v).finals = g.finals := by
  unfold addVertex
  split <;> rfl

lemma Coherent.addVertex (h : g.Coherent) (v : V) : (g.addVertex v).Coherent := by
  unfold Graph.addVertex
  split
  · exact h
  · rename_i hv
    rw [contains_iff] at hv
    refine ⟨h.outgoing_tidy.append_isolated hv, h.incoming_tidy.append_isolated ?_, ?_, ?_⟩
    · rwa [h.same_keys]
    · simpa [keys] using h.same_keys
    · intro u label w
      rw [neighbours_append_isolated, neighbours_append_isolated]
      exact h.mirrored u label w

@[simp] lemma arrow_addEdge {source target u w : V} {label mark : Label} :
    (g.addEdge source target label).Arrow u mark w ↔
      g.Arrow u mark w ∨ u = source ∧ mark = label ∧ w = target := by
  have hsource : source ∈ ((g.addVertex source).addVertex target).outgoing.keys := by
    rw [← contains_iff]
    simp
  have hends : ((g.addVertex source).addVertex target).Arrow u mark w ↔ g.Arrow u mark w := by
    rw [arrow_addVertex, arrow_addVertex]
  rw [← hends]
  dsimp only [addEdge]
  split
  · rename_i hedge
    constructor
    · exact Or.inl
    · rintro (h | ⟨rfl, rfl, rfl⟩)
      · exact h
      · exact hasEdge_iff.mp hedge
  · simp only [Arrow, neighbours_modify, hsource, and_true]
    split
    · rename_i hu
      simp [hu]
    · rename_i hu
      simp [hu]

@[simp] lemma contains_addEdge {source target u : V} {label : Label} :
    (g.addEdge source target label).contains u ↔
      g.contains u ∨ u = source ∨ u = target := by
  have hadd : ((g.addVertex source).addVertex target).contains u ↔
      g.contains u ∨ u = source ∨ u = target := by
    rw [contains_addVertex, contains_addVertex, or_assoc]
  rw [← hadd]
  dsimp only [addEdge]
  split
  · rfl
  · rw [contains_iff, contains_iff, keys_modify]

@[simp] lemma finals_addEdge {source target : V} {label : Label} :
    (g.addEdge source target label).finals = g.finals := by
  have hends : ((g.addVertex source).addVertex target).finals = g.finals := by
    rw [finals_addVertex, finals_addVertex]
  rw [← hends]
  dsimp only [addEdge]
  split <;> rfl

lemma Coherent.addEdge (h : g.Coherent) (source target : V) (label : Label) :
    (g.addEdge source target label).Coherent := by
  have hadd := (h.addVertex source).addVertex target
  have hsource : source ∈ ((g.addVertex source).addVertex target).outgoing.keys := by
    rw [← contains_iff]
    simp
  have htarget : target ∈ ((g.addVertex source).addVertex target).incoming.keys := by
    rw [hadd.same_keys, ← contains_iff]
    simp
  dsimp only [Graph.addEdge]
  split
  · exact hadd
  · rename_i hedge
    have hout : (label, target) ∉
        ((g.addVertex source).addVertex target).outgoing.neighbours source :=
      fun hmem => hedge (hasEdge_iff.mpr hmem)
    have hin : (label, source) ∉
        ((g.addVertex source).addVertex target).incoming.neighbours target := by
      rwa [← hadd.mirrored]
    refine ⟨hadd.outgoing_tidy.modify _ ?_, hadd.incoming_tidy.modify _ ?_, ?_, ?_⟩
    · exact List.nodup_append.mpr ⟨hadd.outgoing_tidy.neighbours_nodup _, by simp, by
        rintro edge hmem other hother rfl
        exact hout (List.mem_singleton.mp hother ▸ hmem)⟩
    · exact List.nodup_append.mpr ⟨hadd.incoming_tidy.neighbours_nodup _, by simp, by
        rintro edge hmem other hother rfl
        exact hin (List.mem_singleton.mp hother ▸ hmem)⟩
    · rw [keys_modify, keys_modify, hadd.same_keys]
    · intro u mark w
      have hm := hadd.mirrored u mark w
      simp only [neighbours_modify, hsource, htarget, and_true]
      grind

/-! ### Removing edges and vertices -/

lemma arrow_removeEdge (h : g.Coherent) {source target u w : V} {label mark : Label} :
    (g.removeEdge source target label).Arrow u mark w ↔
      g.Arrow u mark w ∧ ¬(u = source ∧ mark = label ∧ w = target) := by
  unfold removeEdge
  split
  · rename_i hedge
    have hsource := mem_keys_of_mem_neighbours (hasEdge_iff.mp hedge)
    simp only [Arrow, neighbours_modify, hsource, and_true]
    split
    · rename_i hu
      rw [(h.outgoing_tidy.neighbours_nodup u).mem_erase_iff]
      grind
    · rename_i hu
      simp [hu]
  · rename_i hedge
    have hedge : (label, target) ∉ g.outgoing.neighbours source :=
      fun hmem => hedge (hasEdge_iff.mpr hmem)
    constructor
    · intro hmem
      refine ⟨hmem, ?_⟩
      rintro ⟨rfl, rfl, rfl⟩
      exact hedge hmem
    · exact And.left

@[simp] lemma contains_removeEdge {source target u : V} {label : Label} :
    (g.removeEdge source target label).contains u ↔ g.contains u := by
  unfold removeEdge
  split
  · rw [contains_iff, contains_iff, keys_modify]
  · rfl

@[simp] lemma finals_removeEdge {source target : V} {label : Label} :
    (g.removeEdge source target label).finals = g.finals := by
  unfold removeEdge
  split <;> rfl

lemma Coherent.removeEdge (h : g.Coherent) (source target : V) (label : Label) :
    (g.removeEdge source target label).Coherent := by
  unfold Graph.removeEdge
  split
  · rename_i hedge
    have hout := hasEdge_iff.mp hedge
    have hin := (h.mirrored source label target).mp hout
    have hsource := mem_keys_of_mem_neighbours hout
    have htarget := mem_keys_of_mem_neighbours hin
    refine ⟨h.outgoing_tidy.modify _ ?_, h.incoming_tidy.modify _ ?_, ?_, ?_⟩
    · exact (h.outgoing_tidy.neighbours_nodup _).erase _
    · exact (h.incoming_tidy.neighbours_nodup _).erase _
    · rw [keys_modify, keys_modify, h.same_keys]
    · intro u mark w
      have hm := h.mirrored u mark w
      have hu := (h.outgoing_tidy.neighbours_nodup u).mem_erase_iff (a := (mark, w))
        (b := (label, target))
      have hw := (h.incoming_tidy.neighbours_nodup w).mem_erase_iff (a := (mark, u))
        (b := (label, source))
      simp only [neighbours_modify, hsource, htarget, and_true]
      grind
  · exact h

lemma removeVertex_of_not_contains {v : V} (hv : ¬g.contains v) : g.removeVertex v = g :=
  if_neg hv

lemma keys_outgoing_removeVertex {v : V} :
    (g.removeVertex v).outgoing.keys = g.outgoing.keys.filter (· ≠ v) := by
  by_cases hv : g.contains v
  · simp only [removeVertex, hv, if_true, keys_unlink, keys_eraseEntry]
  · rw [removeVertex_of_not_contains hv]
    exact (filter_ne_of_not_mem (mt contains_iff.mpr hv)).symm

lemma arrow_of_arrow_removeVertex {v u w : V} {label : Label}
    (ha : (g.removeVertex v).Arrow u label w) : g.Arrow u label w ∧ u ≠ v := by
  by_cases hv : g.contains v
  · simp only [removeVertex, hv, if_true, Arrow] at ha
    have herase := mem_of_mem_unlink ha
    rw [neighbours_eraseEntry] at herase
    split at herase
    · exact absurd herase List.not_mem_nil
    · exact ⟨herase, by assumption⟩
  · rw [removeVertex_of_not_contains hv] at ha
    refine ⟨ha, ?_⟩
    rintro rfl
    exact hv ha.contains_source

lemma Arrow.removeVertex {v u w : V} {label : Label} (ha : g.Arrow u label w) (hu : u ≠ v)
    (hw : w ≠ v) : (g.removeVertex v).Arrow u label w := by
  by_cases hv : g.contains v
  · simp only [Graph.removeVertex, hv, if_true, Arrow]
    apply mem_unlink_of_ne _ hw
    rw [neighbours_eraseEntry, if_neg hu]
    exact ha
  · rwa [removeVertex_of_not_contains hv]

@[simp] lemma contains_removeVertex {v u : V} :
    (g.removeVertex v).contains u ↔ g.contains u ∧ u ≠ v := by
  rw [contains_iff, contains_iff, keys_outgoing_removeVertex, List.mem_filter, decide_eq_true_iff]

lemma isFinal_removeVertex {v u : V} (hu : u ≠ v) :
    (g.removeVertex v).isFinal u ↔ g.isFinal u := by
  by_cases hv : g.contains v
  · simp [removeVertex, hv, isFinal_iff, hu]
  · rw [removeVertex_of_not_contains hv]

namespace Coherent

lemma keys_incoming_removeVertex (h : g.Coherent) (v : V) :
    (g.removeVertex v).incoming.keys = g.incoming.keys.filter (· ≠ v) := by
  by_cases hv : g.contains v
  · simp only [Graph.removeVertex, hv, if_true, keys_unlink, keys_eraseEntry]
  · rw [removeVertex_of_not_contains hv, h.same_keys]
    exact (filter_ne_of_not_mem (mt contains_iff.mpr hv)).symm

/-- The first pass of a removal takes away all mentions of the vertex, by the entry that still lists
them. -/
lemma neighbours_unlink_incoming (h : g.Coherent) (v u : V) :
    (g.incoming.unlink v (g.outgoing.neighbours v)).neighbours u =
      (g.incoming.neighbours u).filter (·.2 ≠ v) := by
  rw [h.incoming_tidy.neighbours_unlink]
  apply List.filter_congr
  rintro ⟨label, source⟩ hedge
  have hmirror := (h.mirrored source label u).mpr hedge
  grind

lemma incoming_removeVertex (h : g.Coherent) (v u : V) :
    (g.removeVertex v).incoming.neighbours u =
      if u = v then [] else (g.incoming.neighbours u).filter (·.2 ≠ v) := by
  by_cases hv : g.contains v
  · simp only [Graph.removeVertex, hv, if_true]
    rw [neighbours_eraseEntry, h.neighbours_unlink_incoming]
  · rw [removeVertex_of_not_contains hv]
    have hnone : u = v → g.incoming.neighbours u = [] := by
      rintro rfl
      apply neighbours_eq_nil_of_not_mem
      rwa [h.same_keys, ← contains_iff]
    split
    · exact hnone (by assumption)
    · symm
      rw [List.filter_eq_self]
      rintro ⟨label, source⟩ hedge
      apply decide_eq_true
      rintro rfl
      exact hv (Arrow.contains_source ((h.mirrored _ label u).mpr hedge))

/-- The second pass finds the mentions in the entry that the first one has already gone through: a
loop is gone with its vertex, and all other mentions are still listed. -/
lemma outgoing_removeVertex (h : g.Coherent) (v u : V) :
    (g.removeVertex v).outgoing.neighbours u =
      if u = v then [] else (g.outgoing.neighbours u).filter (·.2 ≠ v) := by
  by_cases hv : g.contains v
  · simp only [Graph.removeVertex, hv, if_true]
    rw [(h.outgoing_tidy.eraseEntry v).neighbours_unlink, h.neighbours_unlink_incoming,
      neighbours_eraseEntry]
    split
    · rfl
    · apply List.filter_congr
      rintro ⟨label, target⟩ hedge
      have hmirror := (h.mirrored u label target).mp hedge
      grind
  · rw [removeVertex_of_not_contains hv]
    split
    · rename_i hu
      rw [hu]
      exact neighbours_eq_nil_of_not_mem fun hmem => hv (contains_iff.mpr hmem)
    · symm
      rw [List.filter_eq_self]
      rintro ⟨label, target⟩ hedge
      apply decide_eq_true
      rintro rfl
      exact hv (h.contains_target hedge)

lemma removeVertex (h : g.Coherent) (v : V) : (g.removeVertex v).Coherent where
  outgoing_tidy := by
    refine ⟨?_, fun u => ?_⟩
    · rw [keys_outgoing_removeVertex]
      exact h.outgoing_tidy.keys_nodup.filter _
    · rw [h.outgoing_removeVertex]
      split
      · exact List.nodup_nil
      · exact (h.outgoing_tidy.neighbours_nodup u).filter _
  incoming_tidy := by
    refine ⟨?_, fun u => ?_⟩
    · rw [h.keys_incoming_removeVertex]
      exact h.incoming_tidy.keys_nodup.filter _
    · rw [h.incoming_removeVertex]
      split
      · exact List.nodup_nil
      · exact (h.incoming_tidy.neighbours_nodup u).filter _
  same_keys := by
    rw [h.keys_incoming_removeVertex, keys_outgoing_removeVertex, h.same_keys]
  mirrored u label w := by
    have hm := h.mirrored u label w
    simp only [h.outgoing_removeVertex, h.incoming_removeVertex]
    grind

end Coherent

-- a loop and two edges to the same neighbour
example :
    let g : Graph Nat Rat :=
      ((empty.addEdge 0 0 .epsilon).addEdge 0 1 .epsilon).addEdge 0 1 (.symbol 'a')
    (g.removeVertex 0).outgoing = [(1, [])] ∧ (g.removeVertex 0).incoming = [(1, [])] := by
  decide

/-! ### Accepting vertices and positions -/

@[simp] lemma arrow_markFinal {v u w : V} {label : Label} :
    (g.markFinal v).Arrow u label w ↔ g.Arrow u label w := by
  unfold markFinal
  split <;> rfl

@[simp] lemma contains_markFinal {v u : V} :
    (g.markFinal v).contains u ↔ g.contains u := by
  unfold markFinal
  split <;> rfl

@[simp] lemma isFinal_markFinal {v u : V} :
    (g.markFinal v).isFinal u ↔ g.isFinal u ∨ u = v ∧ g.contains v := by
  unfold markFinal
  split
  · rename_i hv
    rw [Bool.and_eq_true] at hv
    simp [isFinal_iff, hv.1]
  · rename_i hv
    constructor
    · exact Or.inl
    · rintro (hu | ⟨rfl, hu⟩)
      · exact hu
      · simpa [hu] using hv

lemma Coherent.markFinal (h : g.Coherent) (v : V) : (g.markFinal v).Coherent := by
  unfold Graph.markFinal
  split
  · exact h.congr rfl rfl
  · exact h

/-- Graphs with the same tables and accepting vertices, whatever their layouts are. -/
def SameShape (g g' : Graph V κ) : Prop :=
  g'.outgoing = g.outgoing ∧ g'.incoming = g.incoming ∧ g'.finals = g.finals

lemma sameShape_setPosition (v : V) (position : Position κ) :
    g.SameShape (g.setPosition v position) := by
  unfold setPosition
  split <;> exact ⟨rfl, rfl, rfl⟩

omit [DecidableEq V] in
lemma SameShape.trans {g' g'' : Graph V κ} (h : g.SameShape g') (h' : g'.SameShape g'') :
    g.SameShape g'' :=
  ⟨h'.1.trans h.1, h'.2.1.trans h.2.1, h'.2.2.trans h.2.2⟩

omit [DecidableEq V] in
lemma sameShape_foldl {α : Type} {change : Graph V κ → α → Graph V κ}
    (hchange : ∀ (g : Graph V κ) a, g.SameShape (change g a)) (changes : List α) :
    g.SameShape (changes.foldl change g) := by
  induction changes generalizing g with
  | nil => exact ⟨rfl, rfl, rfl⟩
  | cons a changes ih => exact (hchange g a).trans ih

theorem sameShape_assignLayout [Coordinate κ] (anchor : V) (origin : Position κ) :
    g.SameShape (g.assignLayout anchor origin) := by
  have hclear : g.SameShape g.clearLayout := ⟨rfl, rfl, rfl⟩
  unfold assignLayout
  refine hclear.trans (sameShape_foldl (fun g place => ?_) _)
  exact sameShape_setPosition place.1 place.2

lemma SameShape.coherent {g' : Graph V κ} (hs : g.SameShape g') (h : g.Coherent) : g'.Coherent :=
  h.congr hs.1 hs.2.1

lemma SameShape.arrow_eq {g' : Graph V κ} (hs : g.SameShape g') : g'.Arrow = g.Arrow := by
  funext v label w
  unfold Arrow
  rw [hs.1]

lemma SameShape.contains_eq {g' : Graph V κ} (hs : g.SameShape g') (v : V) :
    g'.contains v = g.contains v := by
  unfold contains
  rw [hs.1]

lemma SameShape.isFinal_eq {g' : Graph V κ} (hs : g.SameShape g') (v : V) :
    g'.isFinal v = g.isFinal v := by
  unfold isFinal
  rw [hs.2.2]

/-! ### Operations -/

lemma coherent_foldl {α : Type} {change : Graph V κ → α → Graph V κ}
    (hchange : ∀ g a, g.Coherent → (change g a).Coherent) (changes : List α) (h : g.Coherent) :
    (changes.foldl change g).Coherent := by
  induction changes generalizing g with
  | nil => exact h
  | cons a changes ih => exact ih (hchange g a h)

lemma Coherent.prune (h : g.Coherent) (v : V) : (g.prune v).Coherent :=
  coherent_foldl (fun _ u h => h.removeVertex u) _ h

theorem Coherent.apply [Coordinate κ] (h : g.Coherent) (operation : Operation V κ) :
    (operation.apply g).Coherent := by
  cases operation with
  | addVertex v => exact h.addVertex v
  | removeVertex v => exact h.removeVertex v
  | addEdge source target label => exact h.addEdge source target label
  | removeEdge source target label => exact h.removeEdge source target label
  | markFinal v => exact h.markFinal v
  | setPosition v position => exact (sameShape_setPosition v position).coherent h
  | clearLayout => exact h.congr rfl rfl
  | assignLayout anchor origin => exact (sameShape_assignLayout anchor origin).coherent h
  | prune v => exact h.prune v

theorem coherent_ofOperations [Coordinate κ] (operations : List (Operation V κ)) :
    (ofOperations operations).Coherent :=
  coherent_foldl (fun _ operation h => h.apply operation) _ coherent_empty

end RegexCompiler.Graph
