import RegexCompiler.Proofs.Graph.Searches

/-!
# Pruning

Pruning keeps exactly the vertices to which the given one leads, with all edges between them, so a
kept vertex still leads to acceptance over the same words.
-/

namespace RegexCompiler.Graph

variable {V κ : Type} [DecidableEq V] {g : Graph V κ} {v u w x : V}

lemma Reaches.refl (hv : g.contains v) : g.Reaches v v :=
  ⟨hv, [], .refl v⟩

lemma Reaches.single {label : Label} (ha : g.Arrow v label w) : g.Reaches v w :=
  ⟨ha.contains_source, label.word, Walk.single ha⟩

lemma Reaches.extend {word : List Char} (h : g.Reaches v u) (hw : g.Path u word w) :
    g.Reaches v w := by
  obtain ⟨hv, first, hfirst⟩ := h
  exact ⟨hv, first ++ word, hfirst.trans hw⟩

lemma Reaches.trans (h : g.Reaches v u) (h' : g.Reaches u w) : g.Reaches v w := by
  obtain ⟨-, word, hw⟩ := h'
  exact h.extend hw

lemma Coherent.contains_of_reaches (h : g.Coherent) (hw : g.Reaches v w) : g.contains w := by
  obtain ⟨hv, word, hw⟩ := hw
  induction hw with
  | refl => exact hv
  | cons ha _ ih => exact ih (h.contains_target ha)

lemma mem_inaccessible : u ∈ g.inaccessible v ↔ g.contains u ∧ ¬g.Reaches v u := by
  unfold inaccessible
  rw [List.mem_filter, vertices, ← contains_iff, decide_eq_true_iff, mem_reachableFrom]

lemma contains_foldl_removeVertex {doomed : List V} :
    (doomed.foldl removeVertex g).contains u ↔ g.contains u ∧ u ∉ doomed := by
  induction doomed generalizing g with
  | nil => simp
  | cons v doomed ih => rw [List.foldl_cons, ih, contains_removeVertex, List.mem_cons, not_or,
      and_assoc]

lemma isFinal_foldl_removeVertex {doomed : List V} (hu : u ∉ doomed) :
    (doomed.foldl removeVertex g).isFinal u ↔ g.isFinal u := by
  induction doomed generalizing g with
  | nil => rfl
  | cons v doomed ih =>
    rw [List.mem_cons, not_or] at hu
    rw [List.foldl_cons, ih hu.2, isFinal_removeVertex hu.1]

lemma arrow_of_arrow_foldl_removeVertex {doomed : List V} {label : Label}
    (ha : (doomed.foldl removeVertex g).Arrow u label w) : g.Arrow u label w ∧ u ∉ doomed := by
  induction doomed generalizing g with
  | nil => exact ⟨ha, List.not_mem_nil⟩
  | cons v doomed ih =>
    rw [List.foldl_cons] at ha
    obtain ⟨hrest, hu⟩ := ih ha
    obtain ⟨hfirst, hne⟩ := arrow_of_arrow_removeVertex hrest
    exact ⟨hfirst, List.not_mem_cons_of_ne_of_not_mem hne hu⟩

lemma Arrow.foldl_removeVertex {doomed : List V} {label : Label} (ha : g.Arrow u label w)
    (hu : u ∉ doomed) (hw : w ∉ doomed) : (doomed.foldl Graph.removeVertex g).Arrow u label w := by
  induction doomed generalizing g with
  | nil => exact ha
  | cons v doomed ih =>
    rw [List.mem_cons, not_or] at hu hw
    exact ih (ha.removeVertex hu.1 hw.1) hu.2 hw.2

lemma contains_prune : (g.prune v).contains u ↔ g.contains u ∧ g.Reaches v u := by
  unfold prune
  rw [contains_foldl_removeVertex, mem_inaccessible]
  tauto

lemma isFinal_prune (hu : g.Reaches v u) : (g.prune v).isFinal u ↔ g.isFinal u := by
  apply isFinal_foldl_removeVertex
  rw [mem_inaccessible]
  exact fun h => h.2 hu

lemma arrow_prune {label : Label} :
    (g.prune v).Arrow u label w ↔ g.Arrow u label w ∧ g.Reaches v u := by
  constructor
  · intro ha
    obtain ⟨ha, hu⟩ := arrow_of_arrow_foldl_removeVertex ha
    have hsource := ha.contains_source
    rw [mem_inaccessible] at hu
    exact ⟨ha, by tauto⟩
  · rintro ⟨ha, hu⟩
    have hw := hu.extend (Walk.single ha)
    apply ha.foldl_removeVertex
    · rw [mem_inaccessible]
      exact fun h => h.2 hu
    · rw [mem_inaccessible]
      exact fun h => h.2 hw

lemma path_prune {word : List Char} (hu : g.Reaches v u) :
    (g.prune v).Path u word w ↔ g.Path u word w := by
  constructor
  · exact Walk.mono fun _ _ _ ha => (arrow_prune.mp ha).1
  · intro h
    induction h with
    | refl => exact .refl _
    | cons ha _ ih =>
      exact .cons (arrow_prune.mpr ⟨ha, hu⟩) (ih (hu.extend (Walk.single ha)))

theorem reaches_of_contains_prune (hu : (g.prune v).contains u) : (g.prune v).Reaches v u := by
  obtain ⟨-, hv, word, hword⟩ := contains_prune.mp hu
  have hself : g.Reaches v v := ⟨hv, [], .refl v⟩
  exact ⟨contains_prune.mpr ⟨hv, hself⟩, word, (path_prune hself).mpr hword⟩

lemma inaccessible_eq_nil (h : ∀ u, g.contains u → g.Reaches v u) : g.inaccessible v = [] := by
  rw [List.eq_nil_iff_forall_not_mem]
  intro u hu
  obtain ⟨hcontains, hnot⟩ := mem_inaccessible.mp hu
  exact hnot (h u hcontains)

lemma inaccessible_prune : (g.prune v).inaccessible v = [] :=
  inaccessible_eq_nil fun _ => reaches_of_contains_prune

lemma prune_of_inaccessible_eq_nil (h : g.inaccessible v = []) : g.prune v = g := by
  rw [prune, h, List.foldl_nil]

theorem leads_prune {word : List Char} (hu : g.Reaches v u) :
    (g.prune v).Leads u word ↔ g.Leads u word := by
  unfold Leads
  rw [contains_prune]
  constructor
  · rintro ⟨⟨hcontains, -⟩, w, hw, hfinal⟩
    have hpath := (path_prune hu).mp hw
    exact ⟨hcontains, w, hpath, (isFinal_prune (hu.extend hpath)).mp hfinal⟩
  · rintro ⟨hcontains, w, hw, hfinal⟩
    exact ⟨⟨hcontains, hu⟩, w, (path_prune hu).mpr hw, (isFinal_prune (hu.extend hw)).mpr hfinal⟩

end RegexCompiler.Graph
