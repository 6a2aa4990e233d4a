import Mathlib.Tactic.Common
import RegexCompiler.Graph.Basic

/-!
# Adjacency tables

What the operations on a table do to its keys and to the edges at a vertex.
-/

namespace RegexCompiler.Adjacency

variable {V : Type} [DecidableEq V]

@[simp] lemma neighbours_nil (v : V) : neighbours [] v = [] := rfl

lemma neighbours_cons (u v : V) (edges : List (Label × V)) (table : Adjacency V) :
    neighbours ((u, edges) :: table) v = if v = u then edges else neighbours table v := by
  unfold neighbours
  rw [List.lookup_cons]
  by_cases h : v = u
  · simp [h]
  · rw [beq_false_of_ne h, if_neg h]

lemma neighbours_eq_nil_of_not_mem {table : Adjacency V} {v : V} (h : v ∉ table.keys) :
    table.neighbours v = [] := by
  induction table with
  | nil => rfl
  | cons entry table ih =>
    simp only [keys, List.map_cons, List.mem_cons, not_or] at h
    rw [neighbours_cons, if_neg h.1]
    exact ih h.2

lemma mem_keys_of_mem_neighbours {table : Adjacency V} {v : V} {edge : Label × V}
    (h : edge ∈ table.neighbours v) : v ∈ table.keys := by
  by_contra hv
  rw [neighbours_eq_nil_of_not_mem hv] at h
  exact List.not_mem_nil h

lemma lookup_isSome_iff {table : Adjacency V} {v : V} :
    (table.lookup v).isSome ↔ v ∈ table.keys := by
  rw [List.lookup_isSome_iff, keys, List.mem_map]
  constructor
  · rintro ⟨entry, hmem, he⟩
    exact ⟨entry, hmem, (beq_iff_eq.mp he).symm⟩
  · rintro ⟨entry, hmem, he⟩
    exact ⟨entry, hmem, beq_iff_eq.mpr he.symm⟩

lemma neighbours_append_isolated (table : Adjacency V) (u v : V) :
    neighbours (table ++ [(u, [])]) v = table.neighbours v := by
  induction table with
  | nil => simp [neighbours_cons]
  | cons entry table ih => rw [List.cons_append, neighbours_cons, neighbours_cons, ih]

omit [DecidableEq V] in
lemma keys_map (vertices : List V) (row : V → List (Label × V)) :
    keys (vertices.map fun u => (u, row u)) = vertices :=
  (List.map_map ..).trans (List.map_id vertices)

lemma neighbours_map (vertices : List V) (row : V → List (Label × V)) (v : V) :
    neighbours (vertices.map fun u => (u, row u)) v = if v ∈ vertices then row v else [] := by
  induction vertices with
  | nil => simp
  | cons u vertices ih =>
    rw [List.map_cons, neighbours_cons, ih]
    grind

@[simp] lemma keys_modify (v : V) (change : List (Label × V) → List (Label × V))
    (table : Adjacency V) : (table.modify v change).keys = table.keys := by
  induction table with
  | nil => rfl
  | cons entry table ih =>
    rw [modify]
    split
    · rfl
    · simpa [keys] using ih

lemma neighbours_modify (v : V) (change : List (Label × V) → List (Label × V))
    (table : Adjacency V) (u : V) :
    (table.modify v change).neighbours u =
      if u = v ∧ v ∈ table.keys then change (table.neighbours u) else table.neighbours u := by
  induction table with
  | nil => simp [modify, keys]
  | cons entry table ih =>
    rw [modify, neighbours_cons]
    simp only [keys, List.map_cons, List.mem_cons] at ih ⊢
    split <;> rw [neighbours_cons] <;> grind

lemma neighbours_modify_append {table : Adjacency V} {u : V} (hu : u ∈ table.keys)
    (edge : Label × V) (v : V) :
    (table.modify u (· ++ [edge])).neighbours v =
      table.neighbours v ++ if v = u then [edge] else [] := by
  rw [neighbours_modify]
  by_cases hv : v = u
  · rw [if_pos ⟨hv, hu⟩, if_pos hv]
  · rw [if_neg fun h => hv h.1, if_neg hv, List.append_nil]

lemma filter_ne_of_not_mem {α : Type} [DecidableEq α] {entries : List α} {a : α}
    (h : a ∉ entries) : entries.filter (· ≠ a) = entries := by
  rw [List.filter_eq_self]
  intro b hb
  apply decide_eq_true
  rintro rfl
  exact h hb

lemma keys_eraseEntry (v : V) (table : Adjacency V) :
    (table.eraseEntry v).keys = table.keys.filter (· ≠ v) := by
  unfold keys eraseEntry
  rw [List.filter_map]
  rfl

lemma neighbours_eraseEntry (v : V) (table : Adjacency V) (u : V) :
    (table.eraseEntry v).neighbours u = if u = v then [] else table.neighbours u := by
  induction table with
  | nil => simp [eraseEntry]
  | cons entry table ih =>
    simp only [eraseEntry, List.filter_cons] at ih ⊢
    rw [neighbours_cons]
    split
    · rw [neighbours_cons, ih]
      grind
    · rw [ih]
      grind

@[simp] lemma keys_unlink (v : V) (edges : List (Label × V)) (table : Adjacency V) :
    (table.unlink v edges).keys = table.keys := by
  unfold unlink
  induction edges generalizing table with
  | nil => rfl
  | cons edge edges ih => rw [List.foldl_cons, ih, keys_modify]

lemma mem_of_mem_unlink {v u : V} {edges : List (Label × V)} {table : Adjacency V}
    {edge : Label × V} (h : edge ∈ (table.unlink v edges).neighbours u) :
    edge ∈ table.neighbours u := by
  unfold unlink at h
  induction edges generalizing table with
  | nil => exact h
  | cons first edges ih =>
    rw [List.foldl_cons] at h
    have hmodify := ih h
    rw [neighbours_modify] at hmodify
    split at hmodify
    · exact List.mem_of_mem_erase hmodify
    · exact hmodify

lemma mem_unlink_of_ne {v u : V} {edges : List (Label × V)} {table : Adjacency V}
    {edge : Label × V} (h : edge ∈ table.neighbours u) (hne : edge.2 ≠ v) :
    edge ∈ (table.unlink v edges).neighbours u := by
  unfold unlink
  induction edges generalizing table with
  | nil => exact h
  | cons first edges ih =>
    rw [List.foldl_cons]
    apply ih
    rw [neighbours_modify]
    split
    · have hother : edge ≠ (first.1, v) := fun heq => hne (heq ▸ rfl)
      exact (List.mem_erase_of_ne hother).mpr h
    · exact h

/-- No vertex has two entries, and no entry lists an edge twice. -/
structure Tidy (table : Adjacency V) : Prop where
  keys_nodup : table.keys.Nodup
  neighbours_nodup : ∀ v, (table.neighbours v).Nodup

namespace Tidy

variable {table : Adjacency V}

lemma nil : Tidy ([] : Adjacency V) :=
  ⟨List.nodup_nil, fun _ => List.nodup_nil⟩

lemma neighbours_eq_of_mem (h : table.Tidy) {v : V} {edges : List (Label × V)}
    (hmem : (v, edges) ∈ table) : table.neighbours v = edges := by
  have hkeys := h.keys_nodup
  clear h
  induction table with
  | nil => exact absurd hmem List.not_mem_nil
  | cons entry table ih =>
    rw [keys, List.map_cons, List.nodup_cons] at hkeys
    rw [neighbours_cons]
    rcases List.mem_cons.mp hmem with rfl | hmem
    · exact if_pos rfl
    · have hne : v ≠ entry.1 := by
        rintro rfl
        exact hkeys.1 (List.mem_map.mpr ⟨_, hmem, rfl⟩)
      rw [if_neg hne]
      exact ih hmem hkeys.2

lemma eq_map_keys (h : table.Tidy) {row : V → List (Label × V)}
    (hrow : ∀ v, table.neighbours v = row v) : table = table.keys.map fun v => (v, row v) := by
  unfold keys
  rw [List.map_map]
  conv_lhs => rw [← List.map_id table]
  apply List.map_congr_left
  intro entry hmem
  exact congrArg (entry.1, ·) ((h.neighbours_eq_of_mem hmem).symm.trans (hrow entry.1))

lemma append_isolated (h : table.Tidy) {v : V} (hv : v ∉ table.keys) :
    Tidy (table ++ [(v, [])]) where
  keys_nodup := by
    rw [keys, List.map_append]
    exact List.nodup_append.mpr ⟨h.keys_nodup, by simp, by
      intro u hu w hw
      rintro rfl
      simp only [List.map_cons, List.map_nil, List.mem_singleton] at hw
      exact hv (hw ▸ hu)⟩
  neighbours_nodup u := by
    rw [neighbours_append_isolated]
    exact h.neighbours_nodup u

lemma modify (h : table.Tidy) (v : V) {change : List (Label × V) → List (Label × V)}
    (hchange : (change (table.neighbours v)).Nodup) : (table.modify v change).Tidy where
  keys_nodup := by
    rw [keys_modify]
    exact h.keys_nodup
  neighbours_nodup u := by
    rw [neighbours_modify]
    split
    · rename_i hu
      rw [hu.1]
      exact hchange
    · exact h.neighbours_nodup u

lemma eraseEntry (h : table.Tidy) (v : V) : (table.eraseEntry v).Tidy where
  keys_nodup := by
    rw [keys_eraseEntry]
    exact h.keys_nodup.filter _
  neighbours_nodup u := by
    rw [neighbours_eraseEntry]
    split
    · exact List.nodup_nil
    · exact h.neighbours_nodup u

lemma neighbours_modify_erase (h : table.Tidy) {u : V} (hu : u ∈ table.keys) (edge : Label × V)
    (v : V) :
    (table.modify u (·.erase edge)).neighbours v =
      if v = u then (table.neighbours v).filter (· ≠ edge) else table.neighbours v := by
  rw [neighbours_modify]
  by_cases hv : v = u
  · rw [if_pos ⟨hv, hu⟩, if_pos hv, (h.neighbours_nodup v).erase_eq_filter]
    apply List.filter_congr
    grind
  · rw [if_neg fun h => hv h.1, if_neg hv]

lemma neighbours_unlink (h : table.Tidy) (v : V) (edges : List (Label × V)) (u : V) :
    (table.unlink v edges).neighbours u =
      (table.neighbours u).filter fun edge => ¬(edge.2 = v ∧ (edge.1, u) ∈ edges) := by
  unfold unlink
  induction edges generalizing table with
  | nil => exact (List.filter_eq_self.mpr (by simp)).symm
  | cons first edges ih =>
    have hmodify : (table.modify first.2 (·.erase (first.1, v))).Tidy :=
      h.modify _ ((h.neighbours_nodup _).erase _)
    rw [List.foldl_cons, ih hmodify, neighbours_modify]
    split
    · rename_i hu
      rw [(h.neighbours_nodup u).erase_eq_filter, List.filter_filter]
      apply List.filter_congr
      grind
    · rename_i hu
      apply List.filter_congr
      intro edge hedge
      have hkey := mem_keys_of_mem_neighbours hedge
      grind

end Tidy

end RegexCompiler.Adjacency
