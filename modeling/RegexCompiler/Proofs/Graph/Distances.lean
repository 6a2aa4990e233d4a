import Mathlib.Data.Nat.Find
import RegexCompiler.Proofs.Graph.Searches

/-!
# The breadth-first search visits nearer vertices first

The queue of a breadth-first search holds vertices of two neighbouring depths, the nearer ones
first. All vertices up to the first depth have been seen, and those of the second depth wait in the
queue or follow one of the first depth there. So what is found from a visited vertex is exactly one
step deeper, and the vertices are visited in the order of their depths.
-/

namespace RegexCompiler

variable {V : Type}

section Depth

variable {next : V → List V} {origin : V}

/-- So many steps from a vertex to a successor lead from the origin to the vertex. -/
inductive Hops (next : V → List V) (origin : V) : Nat → V → Prop where
  | refl : Hops next origin 0 origin
  | step {n : Nat} {v w : V} : Hops next origin n v → w ∈ next v → Hops next origin (n + 1) w

/-- The fewest steps to a vertex. -/
def IsDepth (next : V → List V) (origin : V) (n : Nat) (v : V) : Prop :=
  Hops next origin n v ∧ ∀ m, Hops next origin m v → n ≤ m

lemma isDepth_origin : IsDepth next origin 0 origin :=
  ⟨.refl, fun _ _ => Nat.zero_le _⟩

lemma IsDepth.unique {m n : Nat} {v : V} (h : IsDepth next origin m v)
    (h' : IsDepth next origin n v) : m = n :=
  Nat.le_antisymm (h.2 n h'.1) (h'.2 m h.1)

lemma IsDepth.eq_origin {v : V} (h : IsDepth next origin 0 v) : v = origin := by
  obtain ⟨hops, -⟩ := h
  cases hops
  rfl

lemma Hops.exists_isDepth {n : Nat} {v : V} (h : Hops next origin n v) :
    ∃ d ≤ n, IsDepth next origin d v := by
  classical
  have hex : ∃ n, Hops next origin n v := ⟨n, h⟩
  exact ⟨Nat.find hex, Nat.find_min' hex h, Nat.find_spec hex, fun m hm => Nat.find_min' hex hm⟩

lemma Hops.head {n : Nat} {v w : V} (hv : v ∈ next origin) (h : Hops next v n w) :
    Hops next origin (n + 1) w := by
  induction h with
  | refl => exact Hops.refl.step hv
  | step _ hw ih => exact ih.step hw

lemma IsDepth.exists_previous {n : Nat} {w : V} (h : IsDepth next origin (n + 1) w) :
    ∃ v, IsDepth next origin n v ∧ w ∈ next v := by
  obtain ⟨hops, hmin⟩ := h
  cases hops with
  | @step _ v _ hv hw =>
    refine ⟨v, ⟨hv, fun m hm => ?_⟩, hw⟩
    exact Nat.le_of_succ_le_succ (hmin (m + 1) (hm.step hw))

end Depth

section Frontier

variable [DecidableEq V] {next : V → List V} {bounded : Bounded next} {origin : V}

/-- The queue of a search, cut into the vertices of one depth and those one step deeper, and what
has been seen. -/
structure Frontier (next : V → List V) (origin : V) (d : Nat) (near far seen : List V) : Prop where
  near_depth : ∀ v ∈ near, IsDepth next origin d v
  far_depth : ∀ v ∈ far, IsDepth next origin (d + 1) v
  far_seen : ∀ v ∈ far, v ∈ seen
  seen_depth : ∀ v ∈ seen, v ∈ far ∨ ∃ e ≤ d, IsDepth next origin e v
  complete : ∀ e ≤ d, ∀ v, IsDepth next origin e v → v ∈ seen
  pending : ∀ w, IsDepth next origin (d + 1) w → w ∈ far ∨ ∃ v ∈ near, w ∈ next v

namespace Frontier

variable {d : Nat} {near far seen : List V}

omit [DecidableEq V] in
lemma initial : Frontier next origin 0 [origin] [] [origin] where
  near_depth := by simpa using isDepth_origin
  far_depth := by simp
  far_seen := by simp
  seen_depth := by simpa using isDepth_origin
  complete e he v hv := by
    obtain rfl := Nat.le_zero.mp he
    exact List.mem_singleton.mpr hv.eq_origin
  pending w hw := by
    obtain ⟨v, hv, hmem⟩ := hw.exists_previous
    exact Or.inr ⟨v, List.mem_singleton.mpr hv.eq_origin, hmem⟩

omit [DecidableEq V] in
/-- When the nearer vertices have been visited, the deeper ones are the nearer ones. -/
lemma advance (h : Frontier next origin d [] far seen) :
    Frontier next origin (d + 1) far [] seen where
  near_depth := h.far_depth
  far_depth := by simp
  far_seen := by simp
  seen_depth v hv := by
    rcases h.seen_depth v hv with hfar | ⟨e, he, hdepth⟩
    · exact Or.inr ⟨d + 1, le_rfl, h.far_depth v hfar⟩
    · exact Or.inr ⟨e, Nat.le_trans he (Nat.le_succ d), hdepth⟩
  complete e he v hv := by
    rcases Nat.le_succ_iff.mp he with he | rfl
    · exact h.complete e he v hv
    · rcases h.pending v hv with hfar | ⟨u, hu, -⟩
      · exact h.far_seen v hfar
      · exact absurd hu List.not_mem_nil
  pending w hw := by
    obtain ⟨v, hv, hmem⟩ := hw.exists_previous
    rcases h.pending v hv with hfar | ⟨u, hu, -⟩
    · exact Or.inr ⟨v, hfar, hmem⟩
    · exact absurd hu List.not_mem_nil

variable {v : V}

lemma found_depth (h : Frontier next origin d (v :: near) far seen) :
    ∀ w ∈ newcomers seen (next v), IsDepth next origin (d + 1) w := by
  intro w hw
  obtain ⟨hmem, hnew⟩ := mem_of_mem_newcomers hw
  refine ⟨(h.near_depth v List.mem_cons_self).1.step hmem, fun m hm => ?_⟩
  obtain ⟨e, he, hdepth⟩ := hm.exists_isDepth
  by_contra hlt
  exact hnew (h.complete e (by omega) w hdepth)

lemma visit (h : Frontier next origin d (v :: near) far seen) :
    Frontier next origin d near (far ++ newcomers seen (next v))
      (seen ++ newcomers seen (next v)) where
  near_depth u hu := h.near_depth u (List.mem_cons_of_mem v hu)
  far_depth w hw := (List.mem_append.mp hw).elim (h.far_depth w) (h.found_depth w)
  far_seen w hw := by
    rw [List.mem_append] at hw ⊢
    exact hw.imp_left (h.far_seen w)
  seen_depth w hw := by
    rcases List.mem_append.mp hw with hw | hw
    · exact (h.seen_depth w hw).imp_left (List.mem_append_left _)
    · exact Or.inl (List.mem_append_right _ hw)
  complete e he w hw := List.mem_append_left _ (h.complete e he w hw)
  pending w hw := by
    rcases h.pending w hw with hfar | ⟨u, hu, hmem⟩
    · exact Or.inl (List.mem_append_left _ hfar)
    · rcases List.mem_cons.mp hu with rfl | hu
      · left
        rw [List.mem_append, mem_newcomers_iff]
        by_cases hseen : w ∈ seen
        · rcases h.seen_depth w hseen with hfar | ⟨e, he, hdepth⟩
          · exact Or.inl hfar
          · have := hdepth.unique hw
            omega
        · exact Or.inr ⟨hmem, hseen⟩
      · exact Or.inr ⟨u, hu, hmem⟩

omit [DecidableEq V] in
lemma exists_near {queue : List V} (h : Frontier next origin d near far seen)
    (hqueue : near ++ far = v :: queue) :
    ∃ e near' far', d ≤ e ∧ near' ++ far' = queue ∧
      Frontier next origin e (v :: near') far' seen := by
  cases near with
  | nil =>
    rw [List.nil_append] at hqueue
    subst hqueue
    exact ⟨d + 1, queue, [], Nat.le_succ d, List.append_nil queue, h.advance⟩
  | cons u near =>
    rw [List.cons_append, List.cons.injEq] at hqueue
    obtain ⟨rfl, rfl⟩ := hqueue
    exact ⟨d, near, far, le_rfl, rfl, h⟩

lemma run (bounded : Bounded next) {queue : List V} (h : Frontier next origin d near far seen)
    (hqueue : near ++ far = queue) :
    (∀ visit ∈ breadthFirst next bounded queue seen, ∃ e, d ≤ e ∧ IsDepth next origin e visit.1 ∧
        ∀ w ∈ visit.2, IsDepth next origin (e + 1) w) ∧
      (breadthFirst next bounded queue seen).Pairwise fun first second =>
        ∀ m n, IsDepth next origin m first.1 → IsDepth next origin n second.1 → m ≤ n := by
  fun_induction breadthFirst next bounded queue seen generalizing d near far with
  | case1 => simp
  | case2 seen v queue found =>
    rename_i ih
    obtain ⟨e, near, far, hde, rfl, hnear⟩ := h.exists_near hqueue
    have hv := hnear.near_depth v List.mem_cons_self
    obtain ⟨hvisits, hordered⟩ := ih hnear.visit (List.append_assoc _ _ _).symm
    constructor
    · rw [List.forall_mem_cons]
      refine ⟨⟨e, hde, hv, hnear.found_depth⟩, fun visit hvisit => ?_⟩
      obtain ⟨n, hn, hdepths⟩ := hvisits visit hvisit
      exact ⟨n, Nat.le_trans hde hn, hdepths⟩
    · rw [List.pairwise_cons]
      refine ⟨fun visit hvisit m n hm hn => ?_, hordered⟩
      obtain ⟨k, hk, hdepth, -⟩ := hvisits visit hvisit
      rw [hm.unique hv, hn.unique hdepth]
      exact hk

end Frontier

theorem exists_depth_of_visit {visit : V × List V}
    (hvisit : visit ∈ breadthFirst next bounded [origin] [origin]) :
    ∃ d, IsDepth next origin d visit.1 ∧ ∀ w ∈ visit.2, IsDepth next origin (d + 1) w := by
  have hinitial : Frontier next origin 0 [origin] [] [origin] := .initial
  obtain ⟨d, -, hdepths⟩ := (hinitial.run bounded rfl).1 visit hvisit
  exact ⟨d, hdepths⟩

theorem visits_in_order_of_depth :
    (breadthFirst next bounded [origin] [origin]).Pairwise fun first second =>
      ∀ m n, IsDepth next origin m first.1 → IsDepth next origin n second.1 → m ≤ n := by
  have hinitial : Frontier next origin 0 [origin] [] [origin] := .initial
  exact (hinitial.run bounded rfl).2

end Frontier

end RegexCompiler
