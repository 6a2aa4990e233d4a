import RegexCompiler.Proofs.Graph.Coherence

/-!
# Many changes in a row

What marking many vertices, adding many edges and removing many edges does to a graph, in terms of
the graph before all of them. A series of changes that operations make is itself made by operations.
-/

namespace RegexCompiler.Graph

variable {V κ : Type} [DecidableEq V] {g : Graph V κ}

omit [DecidableEq V] in
lemma foldl_keeps {α β : Type} {change : Graph V κ → α → Graph V κ} (observe : Graph V κ → β)
    (h : ∀ g a, observe (change g a) = observe g) (changes : List α) :
    observe (changes.foldl change g) = observe g := by
  induction changes generalizing g with
  | nil => rfl
  | cons a changes ih => exact ih.trans (h g a)

lemma contains_foldl_markFinal {marks : List V} {v : V} :
    (marks.foldl markFinal g).contains v ↔ g.contains v := by
  apply iff_of_eq
  exact foldl_keeps (fun g => (g.contains v : Prop)) (fun _ _ => propext contains_markFinal) marks

lemma arrow_foldl_markFinal {marks : List V} {v w : V} {label : Label} :
    (marks.foldl markFinal g).Arrow v label w ↔ g.Arrow v label w := by
  apply iff_of_eq
  exact foldl_keeps (fun g => g.Arrow v label w) (fun _ _ => propext arrow_markFinal) marks

lemma isFinal_foldl_markFinal {marks : List V} {v : V} :
    (marks.foldl markFinal g).isFinal v ↔ g.isFinal v ∨ v ∈ marks ∧ g.contains v := by
  induction marks generalizing g with
  | nil => simp
  | cons u marks ih =>
    rw [List.foldl_cons, ih, isFinal_markFinal, contains_markFinal, List.mem_cons]
    grind

lemma Coherent.foldl_markFinal (h : g.Coherent) (marks : List V) :
    (marks.foldl Graph.markFinal g).Coherent :=
  coherent_foldl (fun _ v h => h.markFinal v) marks h

lemma addVertex_of_contains {v : V} (hv : g.contains v) : g.addVertex v = g :=
  if_pos hv

lemma Coherent.addEdge_of_arrow (h : g.Coherent) {source target : V} {label : Label}
    (ha : g.Arrow source label target) : g.addEdge source target label = g := by
  unfold Graph.addEdge
  rw [addVertex_of_contains ha.contains_source, addVertex_of_contains (h.contains_target ha)]
  exact if_pos (hasEdge_iff.mpr ha)

omit [DecidableEq V] in
lemma edge_eq_iff {edge : Edge V} {v w : V} {label : Label} :
    ⟨v, w, label⟩ = edge ↔ v = edge.source ∧ label = edge.label ∧ w = edge.target := by
  cases edge
  simp only [Edge.mk.injEq]
  tauto

lemma arrow_foldl_addEdge {edges : List (Edge V)} {v w : V} {label : Label} :
    (edges.foldl (fun g edge => g.addEdge edge.source edge.target edge.label) g).Arrow v label w ↔
      g.Arrow v label w ∨ ⟨v, w, label⟩ ∈ edges := by
  induction edges generalizing g with
  | nil => simp
  | cons edge edges ih =>
    rw [List.foldl_cons, ih, arrow_addEdge, List.mem_cons, or_assoc, edge_eq_iff]

lemma contains_foldl_addEdge {edges : List (Edge V)} {v : V} :
    (edges.foldl (fun g edge => g.addEdge edge.source edge.target edge.label) g).contains v ↔
      g.contains v ∨ ∃ edge ∈ edges, v = edge.source ∨ v = edge.target := by
  induction edges generalizing g with
  | nil => simp
  | cons edge edges ih =>
    rw [List.foldl_cons, ih, contains_addEdge, or_assoc]
    simp

lemma finals_foldl_addEdge {edges : List (Edge V)} :
    (edges.foldl (fun g edge => g.addEdge edge.source edge.target edge.label) g).finals =
      g.finals :=
  foldl_keeps Graph.finals (fun _ _ => finals_addEdge) edges

lemma Coherent.foldl_addEdge (h : g.Coherent) (edges : List (Edge V)) :
    (edges.foldl (fun g edge => g.addEdge edge.source edge.target edge.label) g).Coherent :=
  coherent_foldl (fun _ edge h => h.addEdge edge.source edge.target edge.label) edges h

lemma arrow_foldl_removeEdge (h : g.Coherent) {edges : List (Edge V)} {v w : V} {label : Label} :
    (edges.foldl (fun g edge => g.removeEdge edge.source edge.target edge.label) g).Arrow
      v label w ↔ g.Arrow v label w ∧ ⟨v, w, label⟩ ∉ edges := by
  induction edges generalizing g with
  | nil => simp
  | cons edge edges ih =>
    rw [List.foldl_cons, ih (h.removeEdge _ _ _), arrow_removeEdge h, List.mem_cons, not_or,
      and_assoc, edge_eq_iff]

lemma contains_foldl_removeEdge {edges : List (Edge V)} {v : V} :
    (edges.foldl (fun g edge => g.removeEdge edge.source edge.target edge.label) g).contains v ↔
      g.contains v := by
  apply iff_of_eq
  exact foldl_keeps (fun g => (g.contains v : Prop)) (fun _ _ => propext contains_removeEdge) edges

lemma finals_foldl_removeEdge {edges : List (Edge V)} :
    (edges.foldl (fun g edge => g.removeEdge edge.source edge.target edge.label) g).finals =
      g.finals :=
  foldl_keeps Graph.finals (fun _ _ => finals_removeEdge) edges

lemma Coherent.foldl_removeEdge (h : g.Coherent) (edges : List (Edge V)) :
    (edges.foldl (fun g edge => g.removeEdge edge.source edge.target edge.label) g).Coherent :=
  coherent_foldl (fun _ edge h => h.removeEdge edge.source edge.target edge.label) edges h

section

variable [Coordinate κ]

/-- Operations make the second graph of the first one. -/
def Becomes (g g' : Graph V κ) : Prop :=
  ∃ operations : List (Operation V κ), g' = operations.foldl Operation.apply g

lemma Becomes.refl (g : Graph V κ) : g.Becomes g :=
  ⟨[], rfl⟩

lemma Becomes.trans {g' g'' : Graph V κ} (h : g.Becomes g') (h' : g'.Becomes g'') :
    g.Becomes g'' := by
  obtain ⟨first, rfl⟩ := h
  obtain ⟨rest, rfl⟩ := h'
  exact ⟨first ++ rest, List.foldl_append.symm⟩

lemma becomes_apply (g : Graph V κ) (operation : Operation V κ) :
    g.Becomes (operation.apply g) :=
  ⟨[operation], rfl⟩

lemma becomes_foldl {α : Type} {change : Graph V κ → α → Graph V κ}
    (h : ∀ (g : Graph V κ) a, g.Becomes (change g a)) (entries : List α) (g : Graph V κ) :
    g.Becomes (entries.foldl change g) := by
  induction entries generalizing g with
  | nil => exact .refl g
  | cons a entries ih => exact (h g a).trans (ih (change g a))

lemma becomes_foldl_addEdge (edges : List (Edge V)) (g : Graph V κ) :
    g.Becomes (edges.foldl (fun g edge => g.addEdge edge.source edge.target edge.label) g) := by
  apply becomes_foldl
  intro g edge
  exact becomes_apply g (.addEdge edge.source edge.target edge.label)

lemma becomes_foldl_removeEdge (edges : List (Edge V)) (g : Graph V κ) :
    g.Becomes (edges.foldl (fun g edge => g.removeEdge edge.source edge.target edge.label) g) := by
  apply becomes_foldl
  intro g edge
  exact becomes_apply g (.removeEdge edge.source edge.target edge.label)

lemma becomes_prune (g : Graph V κ) (v : V) : g.Becomes (g.prune v) :=
  becomes_apply g (.prune v)

lemma Becomes.ofOperations {operations : List (Operation V κ)} {g : Graph V κ}
    (h : (ofOperations operations).Becomes g) :
    ∃ operations, g = Graph.ofOperations operations := by
  obtain ⟨further, rfl⟩ := h
  exact ⟨operations ++ further, List.foldl_append.symm⟩

end

end RegexCompiler.Graph
