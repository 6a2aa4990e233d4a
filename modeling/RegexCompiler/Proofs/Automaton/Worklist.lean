import RegexCompiler.Automaton.Worklist
import RegexCompiler.Proofs.Automaton.Subsets

/-!
# The work list is used up

A round installs a set and puts its newcomers into the queue, so the work list goes along with the
search. No set is put into the queue twice, and all of them are sets of vertices that are not empty,
of which there are finitely many. Therefore there is a last round, and what has been built by then
is the deterministic automaton.
-/

namespace RegexCompiler

namespace StateSet

lemma length_subsets (pool : List State) : (subsets pool).length = 2 ^ pool.length := by
  induction pool with
  | nil => rfl
  | cons v vs ih =>
    rw [subsets, List.length_append, List.length_map, ih, List.length_cons, Nat.pow_succ]
    omega

theorem length_le_of_nodup {sets : List StateSet} {pool : List State} (hnodup : sets.Nodup)
    (hsets : ∀ s ∈ sets, (∃ v, v ∈ s) ∧ ∀ v ∈ s, v ∈ pool) :
    sets.length ≤ 2 ^ pool.length - 1 := by
  have hempty : empty ∉ sets := by
    intro hmem
    obtain ⟨v, hv⟩ := (hsets empty hmem).1
    exact List.not_mem_nil hv
  have hsubset : empty :: sets ⊆ subsets pool := by
    intro s hs
    apply mem_subsets
    intro v hv
    rcases List.mem_cons.mp hs with rfl | hs
    · exact absurd hv List.not_mem_nil
    · exact (hsets s hs).2 v hv
  have hlength := (List.nodup_cons.mpr ⟨hempty, hnodup⟩).length_le_of_subset hsubset
  rw [List.length_cons, length_subsets] at hlength
  omega

end StateSet

namespace Worklist

open RegexCompiler.Graph

variable {κ : Type} {g : Graph State κ} {alphabet : Alphabet} {w : Worklist κ}

lemma foldl_follow (s : StateSet) :
    alphabet.symbols.foldl (follow g s) w =
      (g.moves alphabet s).foldl (fun w move => w.meet s move.1 move.2) w := by
  unfold moves
  rw [List.foldl_filterMap]
  congr 1
  funext w c
  unfold follow
  cases hnext : (g.successorSet s c).members.isEmpty with
  | true => simp only [hnext, if_true]
  | false => simp only [hnext, Bool.false_eq_true, if_false]

lemma foldl_meet (s : StateSet) (moves : List (Char × StateSet)) :
    moves.foldl (fun w move => w.meet s move.1 move.2) w =
      { w with
        dfa := moves.foldl (fun dfa move => dfa.addEdge s move.2 (.symbol move.1)) w.dfa
        seen := w.seen ++ newcomers w.seen (moves.map Prod.snd)
        queue := w.queue ++ newcomers w.seen (moves.map Prod.snd)
        queued := w.queued ++ newcomers w.seen (moves.map Prod.snd) } := by
  induction moves generalizing w with
  | nil => simp [newcomers]
  | cons move moves ih =>
    have hseen : ∀ t, t ∈ w.seen ++ [move.2] ↔ t ∈ move.2 :: w.seen := by
      intro t
      simp [or_comm]
    rw [List.foldl_cons, ih, List.map_cons, newcomers, List.foldl_cons]
    unfold meet
    by_cases hmem : move.2 ∈ w.seen
    · simp only [if_pos hmem]
    · simp only [if_neg hmem, newcomers_congr hseen, List.append_assoc, List.singleton_append]

theorem round_of_queue {s : StateSet} {queue : List StateSet} (hqueue : w.queue = s :: queue) :
    w.round g alphabet = some
      { dfa := g.installSet alphabet w.dfa s
        seen := w.seen ++ newcomers w.seen (g.nextSets alphabet s)
        queue := queue ++ newcomers w.seen (g.nextSets alphabet s)
        queued := w.queued ++ newcomers w.seen (g.nextSets alphabet s)
        taken := w.taken ++ [s] } := by
  unfold round
  rw [hqueue]
  dsimp only
  rw [foldl_follow, foldl_meet]
  unfold installSet transitionsFrom nextSets
  rw [List.foldl_map]

lemma round_eq_none (hqueue : w.queue = []) : w.round g alphabet = none := by
  unfold round
  rw [hqueue]

lemma exists_cons_of_round {w' : Worklist κ} (h : w.round g alphabet = some w') :
    ∃ s queue, w.queue = s :: queue := by
  cases hqueue : w.queue with
  | nil =>
    rw [round_eq_none hqueue] at h
    cases h
  | cons s queue => exact ⟨s, queue, rfl⟩

/-- The work list and the search go along with each other. -/
structure Sound (g : Graph State κ) (alphabet : Alphabet) (w : Worklist κ) : Prop where
  inStep : InStep w.dfa w.queue w.seen
  seen_eq : w.seen = w.queued
  queued_eq : w.queued = w.taken ++ w.queue
  nodup : w.queued.Nodup
  sets : ∀ s ∈ w.queued, (∃ v, v ∈ s) ∧ ∀ v ∈ s, g.contains v
  /-- Installing what the search visits from here on completes the automaton. -/
  completes : (((breadthFirst (g.nextSets alphabet) (g.nextSets_bounded alphabet) w.queue
    w.seen).map Prod.fst).foldl (g.installSet alphabet) w.dfa).prune .entry =
      (g.determinize alphabet).graph

lemma sound_initial : (initial g).Sound g alphabet := by
  unfold initial
  split
  · rename_i hstart
    refine ⟨inStep_initial, rfl, rfl, List.nodup_singleton _, ?_, (determinize_graph hstart).symm⟩
    rw [List.forall_mem_singleton]
    refine ⟨⟨.start, mem_entry.mpr rfl⟩, fun v hv => ?_⟩
    rw [mem_entry.mp hv]
    exact hstart
  · rename_i hstart
    refine ⟨⟨rfl, fun s hs => hs⟩, rfl, rfl, List.nodup_nil, by simp, ?_⟩
    unfold determinize
    rw [if_neg hstart, breadthFirst]
    rfl

lemma Sound.round (hg : g.Coherent) (h : w.Sound g alphabet) {w' : Worklist κ}
    (hround : w.round g alphabet = some w') : w'.Sound g alphabet := by
  obtain ⟨s, queue, hqueue⟩ := exists_cons_of_round hround
  obtain rfl : _ = w' := Option.some.inj ((round_of_queue hqueue).symm.trans hround)
  have hstep := hqueue ▸ h.inStep
  have hcompletes := h.completes
  rw [hqueue, breadthFirst] at hcompletes
  refine ⟨hstep.installSet, ?_, ?_, ?_, ?_, hcompletes⟩
  · dsimp only
    rw [h.seen_eq]
  · dsimp only
    rw [h.queued_eq, hqueue, List.append_assoc, List.append_assoc, List.cons_append]
    rfl
  · -- a newcomer has not been met, and so was never put into the queue
    refine h.nodup.append (newcomers_nodup _ _) fun t hold hnew => ?_
    rw [← h.seen_eq] at hold
    exact (mem_newcomers_iff.mp hnew).2 hold
  · intro t ht
    rcases List.mem_append.mp ht with hold | hnew
    · exact h.sets t hold
    · obtain ⟨c, -, rfl, hmember⟩ := mem_nextSets.mp (mem_newcomers_iff.mp hnew).1
      refine ⟨hmember, fun v hv => ?_⟩
      obtain ⟨u, -, ha⟩ := mem_successorSet.mp hv
      exact hg.contains_target ha

lemma after_succ {k : Nat} {w' : Worklist κ} (h : after g alphabet (k + 1) = some w') :
    ∃ w, after g alphabet k = some w ∧ w.round g alphabet = some w' :=
  Option.bind_eq_some_iff.mp h

lemma sound_after (hg : g.Coherent) {k : Nat} (h : after g alphabet k = some w) :
    w.Sound g alphabet := by
  induction k generalizing w with
  | zero =>
    obtain rfl : initial g = w := Option.some.inj h
    exact sound_initial
  | succ k ih =>
    obtain ⟨before, hbefore, hround⟩ := after_succ h
    exact (ih hbefore).round hg hround

lemma length_taken {k : Nat} (h : after g alphabet k = some w) : w.taken.length = k := by
  induction k generalizing w with
  | zero =>
    obtain rfl : initial g = w := Option.some.inj h
    unfold initial
    split <;> rfl
  | succ k ih =>
    obtain ⟨before, hbefore, hround⟩ := after_succ h
    obtain ⟨s, queue, hqueue⟩ := exists_cons_of_round hround
    obtain rfl : _ = w := Option.some.inj ((round_of_queue hqueue).symm.trans hround)
    rw [List.length_append, ih hbefore, List.length_singleton]

lemma Sound.length_queued (h : w.Sound g alphabet) :
    w.queued.length ≤ 2 ^ g.vertexCount - 1 := by
  have hsets : ∀ s ∈ w.queued, (∃ v, v ∈ s) ∧ ∀ v ∈ s, v ∈ g.vertices := by
    intro s hs
    refine ⟨(h.sets s hs).1, fun v hv => ?_⟩
    exact contains_iff.mp ((h.sets s hs).2 v hv)
  rw [← length_vertices]
  exact StateSet.length_le_of_nodup h.nodup hsets

lemma round_le (hg : g.Coherent) {k : Nat} (h : after g alphabet k = some w) :
    k ≤ 2 ^ g.vertexCount - 1 := by
  have hsound := sound_after hg h
  have hlength : w.queued.length = w.taken.length + w.queue.length := by
    rw [hsound.queued_eq, List.length_append]
  have htaken := length_taken h
  have hqueued := hsound.length_queued
  omega

lemma exists_last (hg : g.Coherent) {k : Nat} (h : after g alphabet k = some w) :
    ∃ k w, after g alphabet k = some w ∧ w.queue = [] := by
  induction hleft : 2 ^ g.vertexCount - 1 - k using Nat.strong_induction_on generalizing k w with
  | _ left ih =>
    cases hqueue : w.queue with
    | nil => exact ⟨k, w, h, hqueue⟩
    | cons s queue =>
      obtain ⟨next, hround⟩ : ∃ next, w.round g alphabet = some next := ⟨_, round_of_queue hqueue⟩
      have hnext : after g alphabet (k + 1) = some next := by
        rw [after, h]
        exact hround
      have hle := round_le hg hnext
      exact ih _ (by omega) hnext rfl

lemma Sound.determinize_eq (h : w.Sound g alphabet) (hqueue : w.queue = []) :
    (g.determinize alphabet).graph = w.dfa.prune .entry := by
  have hcompletes := h.completes
  rw [hqueue, breadthFirst] at hcompletes
  exact hcompletes.symm

lemma Sound.vertexCount_le (h : w.Sound g alphabet) :
    (w.dfa.prune .entry).vertexCount ≤ 2 ^ g.vertexCount - 1 := by
  have hprune := vertexCount_prune (g := w.dfa) .entry
  have hvertices : w.dfa.vertexCount = w.queued.length := by
    rw [← length_vertices, h.inStep.vertices_eq, h.seen_eq]
  have hqueued := h.length_queued
  omega

/-- The loop over the work list ends. Every set that it ever puts into the queue is a set of
vertices that is not empty, and no set is put there twice. A round takes one of them, so an
automaton with `n` vertices is done after at most `2 ^ n - 1` rounds. What has been built by then is
the deterministic automaton, which has no more states than this. -/
theorem determinize_worklist_ends {κ : Type} [Coordinate κ] (operations : List (Operation State κ))
    (alphabet : Alphabet) :
    let g := ofOperations operations
    let n := g.vertexCount
    (∀ k w, after g alphabet k = some w → k ≤ 2 ^ n - 1 ∧ w.taken.length = k ∧
        w.queued = w.taken ++ w.queue ∧ w.queued.Nodup ∧
        ∀ s ∈ w.queued, (∃ v, v ∈ s) ∧ ∀ v ∈ s, g.contains v) ∧
      (∃ k w, after g alphabet k = some w ∧ w.queue = [] ∧
        (g.determinize alphabet).graph = w.dfa.prune .entry) ∧
      (g.determinize alphabet).graph.vertexCount ≤ 2 ^ n - 1 := by
  intro g n
  have hg : g.Coherent := coherent_ofOperations operations
  have hbegin : after g alphabet 0 = some (initial g) := rfl
  obtain ⟨k, w, hlast, hqueue⟩ := exists_last hg hbegin
  have hsound := sound_after hg hlast
  have hgraph := hsound.determinize_eq hqueue
  refine ⟨fun k w h => ?_, ⟨k, w, hlast, hqueue, hgraph⟩, ?_⟩
  · have hsound := sound_after hg h
    exact ⟨round_le hg h, length_taken h, hsound.queued_eq, hsound.nodup, hsound.sets⟩
  · rw [hgraph]
    exact hsound.vertexCount_le

/-- Two vertices with an ε edge, loops and two ways to read a symbol. Every set is found. -/
theorem determinize_worklist_ends_all_sets :
    let operations : List (Operation State Rat) := [
      .addEdge .start .start (.symbol 'a'), .addEdge .start .final (.symbol 'a'),
      .addEdge .start .final .epsilon, .addEdge .final .final (.symbol 'b')]
    let g := ofOperations operations
    ∃ w, after g .standard 3 = some w ∧ w.queue = [] ∧
      w.taken = [.entry, .ofList [.start, .final], .ofList [.final]] ∧
      w.queued = w.taken ∧ w.queued.Nodup ∧ w.taken.length ≤ 2 ^ g.vertexCount - 1 := by
  intro operations g
  have hrun : (after g .standard 3).map (fun w => (w.queue, w.taken)) =
      some ([], [.entry, .ofList [.start, .final], .ofList [.final]]) := by decide
  obtain ⟨w, hw, hlists⟩ := Option.map_eq_some_iff.mp hrun
  obtain ⟨hqueue, htaken⟩ := Prod.mk.inj hlists
  obtain ⟨hends, -⟩ := determinize_worklist_ends operations .standard
  obtain ⟨hle, hlength, hqueued, hnodup, -⟩ := hends 3 w hw
  rw [hqueue, List.append_nil] at hqueued
  exact ⟨w, hw, hqueue, htaken, hqueued, hnodup, hlength ▸ hle⟩

end Worklist

end RegexCompiler
