import Mathlib.Logic.Relation
import RegexCompiler.Graph.Search
import RegexCompiler.Proofs.Graph.Coherence
import RegexCompiler.Proofs.Graph.Walks

/-!
# Searches find what paths lead to

Both searches visit exactly the vertices to which some way leads: the breadth-first search those
that any path leads to, the search over ε edges those that a path without symbols leads to.
-/

namespace RegexCompiler

variable {V : Type} [DecidableEq V]

lemma mem_newcomers_iff {seen vs : List V} {v : V} :
    v ∈ newcomers seen vs ↔ v ∈ vs ∧ v ∉ seen := by
  constructor
  · exact mem_of_mem_newcomers
  · rintro ⟨hv, hseen⟩
    induction vs generalizing seen with
    | nil => exact absurd hv List.not_mem_nil
    | cons u vs ih =>
      rw [newcomers]
      by_cases huv : v = u
      · subst huv
        rw [if_neg hseen]
        exact List.mem_cons_self
      · have hvs := (List.mem_cons.mp hv).resolve_left huv
        split
        · exact ih hvs hseen
        · exact List.mem_cons_of_mem _ (ih hvs (by simp [huv, hseen]))

/-! ### Breadth first -/

section BreadthFirst

variable {next : V → List V} {bounded : Bounded next} {queue seen : List V}

theorem breadthFirst_visited (queue seen : List V) :
    (breadthFirst next bounded queue seen).map Prod.fst =
      queue ++ (breadthFirst next bounded queue seen).flatMap Prod.snd := by
  fun_induction breadthFirst next bounded queue seen with
  | case1 => rfl
  | case2 seen v queue found ih =>
    rw [List.map_cons, List.flatMap_cons, ih, List.cons_append, List.append_assoc]

lemma mem_visited_of_mem_queue {v : V} (hv : v ∈ queue) :
    v ∈ (breadthFirst next bounded queue seen).map Prod.fst := by
  rw [breadthFirst_visited]
  exact List.mem_append_left _ hv

lemma exists_reaches_of_mem_visited {v : V}
    (hv : v ∈ (breadthFirst next bounded queue seen).map Prod.fst) :
    ∃ u ∈ queue, Relation.ReflTransGen (fun u w => w ∈ next u) u v := by
  fun_induction breadthFirst next bounded queue seen with
  | case1 => simp at hv
  | case2 seen u queue found ih =>
    rw [List.map_cons, List.mem_cons] at hv
    rcases hv with rfl | hv
    · exact ⟨_, List.mem_cons_self, .refl⟩
    · obtain ⟨w, hw, hreach⟩ := ih hv
      rcases List.mem_append.mp hw with hw | hw
      · exact ⟨w, List.mem_cons_of_mem _ hw, hreach⟩
      · exact ⟨u, List.mem_cons_self, .head (mem_of_mem_newcomers hw).1 hreach⟩

lemma mem_seen_or_visited {v w : V}
    (hv : v ∈ (breadthFirst next bounded queue seen).map Prod.fst) (hw : w ∈ next v) :
    w ∈ seen ∨ w ∈ (breadthFirst next bounded queue seen).map Prod.fst := by
  fun_induction breadthFirst next bounded queue seen with
  | case1 => simp at hv
  | case2 seen u queue found ih =>
    rw [List.map_cons, List.mem_cons] at hv ⊢
    have hfound : w ∈ found → w ∈ (breadthFirst next bounded (queue ++ found)
        (seen ++ found)).map Prod.fst :=
      fun h => mem_visited_of_mem_queue (List.mem_append_right _ h)
    rcases hv with rfl | hv
    · by_cases hseen : w ∈ seen
      · exact Or.inl hseen
      · exact Or.inr (Or.inr (hfound (mem_newcomers_iff.mpr ⟨hw, hseen⟩)))
    · rcases ih hv with h | h
      · rcases List.mem_append.mp h with h | h
        · exact Or.inl h
        · exact Or.inr (Or.inr (hfound h))
      · exact Or.inr (Or.inr h)

theorem mem_visited_iff {origin v : V} :
    v ∈ (breadthFirst next bounded [origin] [origin]).map Prod.fst ↔
      Relation.ReflTransGen (fun u w => w ∈ next u) origin v := by
  have horigin : origin ∈ (breadthFirst next bounded [origin] [origin]).map Prod.fst :=
    mem_visited_of_mem_queue List.mem_cons_self
  constructor
  · intro hv
    obtain ⟨u, hu, hreach⟩ := exists_reaches_of_mem_visited hv
    rwa [List.mem_singleton.mp hu] at hreach
  · intro hreach
    induction hreach with
    | refl => exact horigin
    | tail _ hw ih =>
      rcases mem_seen_or_visited ih hw with h | h
      · rwa [List.mem_singleton.mp h]
      · exact h

end BreadthFirst

lemma Adjacency.map_fst_discoveries (table : Adjacency V) (origin : V) :
    (table.discoveries origin).map Prod.fst =
      origin :: (table.discoveries origin).flatMap Prod.snd :=
  breadthFirst_visited [origin] [origin]

lemma Adjacency.mem_successors {table : Adjacency V} {v w : V} :
    w ∈ table.successors v ↔ ∃ label, (label, w) ∈ table.neighbours v := by
  unfold successors
  rw [List.mem_map]
  constructor
  · rintro ⟨⟨label, u⟩, hu, rfl⟩
    exact ⟨label, hu⟩
  · rintro ⟨label, hw⟩
    exact ⟨(label, w), hw, rfl⟩

/-! ### Over ε edges -/

namespace Adjacency

variable {table : Adjacency V} {stack seen : List V}

lemma mem_silentSuccessors {v w : V} :
    w ∈ table.silentSuccessors v ↔ (.epsilon, w) ∈ table.neighbours v := by
  unfold silentSuccessors
  rw [List.mem_map]
  constructor
  · rintro ⟨⟨label, u⟩, hu, rfl⟩
    obtain ⟨hmem, hlabel⟩ := List.mem_filter.mp hu
    rwa [← of_decide_eq_true hlabel]
  · intro h
    exact ⟨_, List.mem_filter.mpr ⟨h, by simp⟩, rfl⟩

lemma mem_silentSearch_of_mem {v : V} (hv : v ∈ seen ∨ v ∈ stack) :
    v ∈ table.silentSearch stack seen := by
  fun_induction silentSearch table stack seen with
  | case1 => simpa using hv
  | case2 seen u stack hu ih =>
    apply ih
    rcases hv with hv | hv
    · exact Or.inl hv
    · rcases List.mem_cons.mp hv with rfl | hv
      · exact Or.inl hu
      · exact Or.inr hv
  | case3 seen u stack hu met ih =>
    apply ih
    rcases hv with hv | hv
    · exact Or.inl (List.mem_append_left _ hv)
    · rcases List.mem_cons.mp hv with rfl | hv
      · exact Or.inl (List.mem_append_right _ List.mem_cons_self)
      · exact Or.inr (List.mem_append_right _ hv)

lemma exists_silent_of_mem_silentSearch {v : V} (hv : v ∈ table.silentSearch stack seen) :
    v ∈ seen ∨ ∃ u ∈ stack,
      Relation.ReflTransGen (fun u w => w ∈ table.silentSuccessors u) u v := by
  fun_induction silentSearch table stack seen with
  | case1 => exact Or.inl hv
  | case2 seen u stack hu ih =>
    rcases ih hv with h | ⟨w, hw, hreach⟩
    · exact Or.inl h
    · exact Or.inr ⟨w, List.mem_cons_of_mem _ hw, hreach⟩
  | case3 seen u stack hu met ih =>
    rcases ih hv with h | ⟨w, hw, hreach⟩
    · rcases List.mem_append.mp h with h | h
      · exact Or.inl h
      · rw [List.mem_singleton.mp h]
        exact Or.inr ⟨u, List.mem_cons_self, .refl⟩
    · rcases List.mem_append.mp hw with hw | hw
      · have hsucc := (List.mem_filter.mp (List.mem_reverse.mp hw)).1
        exact Or.inr ⟨u, List.mem_cons_self, .head hsucc hreach⟩
      · exact Or.inr ⟨w, List.mem_cons_of_mem _ hw, hreach⟩

/-- What the search visits it does not leave: an ε successor of a vertex that it visits was known
before or is visited. -/
lemma mem_silentSearch_of_successor {v w : V} (hv : v ∈ table.silentSearch stack seen)
    (hw : w ∈ table.silentSuccessors v) :
    v ∈ seen ∨ w ∈ table.silentSearch stack seen := by
  fun_induction silentSearch table stack seen with
  | case1 => exact Or.inl hv
  | case2 seen u stack hu ih => exact ih hv
  | case3 seen u stack hu met ih =>
    rcases ih hv with h | h
    · rcases List.mem_append.mp h with h | h
      · exact Or.inl h
      · rw [List.mem_singleton.mp h] at hw
        refine Or.inr (mem_silentSearch_of_mem ?_)
        by_cases hseen : w ∈ seen ++ [u]
        · exact Or.inl hseen
        · right
          apply List.mem_append_left
          exact List.mem_reverse.mpr (List.mem_filter.mpr ⟨hw, decide_eq_true hseen⟩)
    · exact Or.inr h

end Adjacency

namespace Graph

variable {κ : Type} {g : Graph V κ}

lemma reaches_iff_path {v w : V} :
    Relation.ReflTransGen (fun u w => w ∈ g.outgoing.successors u) v w ↔
      ∃ word, g.Path v word w := by
  constructor
  · intro h
    induction h using Relation.ReflTransGen.head_induction_on with
    | refl => exact ⟨[], .refl w⟩
    | head hu _ ih =>
      obtain ⟨label, ha⟩ := Adjacency.mem_successors.mp hu
      obtain ⟨word, hword⟩ := ih
      exact ⟨label.word ++ word, .cons ha hword⟩
  · rintro ⟨word, h⟩
    induction h with
    | refl => exact .refl
    | cons ha _ ih => exact .head (Adjacency.mem_successors.mpr ⟨_, ha⟩) ih

theorem mem_reachableFrom {v w : V} :
    w ∈ g.reachableFrom v ↔ g.Reaches v w := by
  unfold reachableFrom Reaches
  rw [← Adjacency.map_fst_discoveries]
  split
  · rename_i hv
    rw [← reaches_iff_path]
    simp only [hv, true_and]
    exact mem_visited_iff
  · rename_i hv
    simp [hv]

lemma silent_iff_path {v w : V} :
    Relation.ReflTransGen (fun u w => w ∈ g.outgoing.silentSuccessors u) v w ↔
      g.Path v [] w := by
  constructor
  · intro h
    induction h using Relation.ReflTransGen.head_induction_on with
    | refl => exact .refl w
    | head hu _ ih => exact Walk.cons (Adjacency.mem_silentSuccessors.mp hu) ih
  · intro h
    generalize hnil : [] = word at h
    induction h with
    | refl => exact .refl
    | @cons u v w label word ha _ ih =>
      cases label with
      | symbol c => cases hnil
      | epsilon => exact .head (Adjacency.mem_silentSuccessors.mpr ha) (ih hnil)

theorem mem_epsilonClosure {v w : V} :
    w ∈ g.epsilonClosure v ↔ g.contains v ∧ g.Path v [] w := by
  unfold epsilonClosure
  split
  · rename_i hv
    simp only [hv, true_and]
    rw [← silent_iff_path]
    constructor
    · intro hw
      obtain h | ⟨u, hu, hreach⟩ := Adjacency.exists_silent_of_mem_silentSearch hw
      · exact absurd h List.not_mem_nil
      · rwa [List.mem_singleton.mp hu] at hreach
    · intro hreach
      induction hreach with
      | refl => exact Adjacency.mem_silentSearch_of_mem (Or.inr List.mem_cons_self)
      | tail _ hw ih =>
        exact (Adjacency.mem_silentSearch_of_successor ih hw).resolve_left List.not_mem_nil
  · rename_i hv
    simp [hv]

end Graph

end RegexCompiler
