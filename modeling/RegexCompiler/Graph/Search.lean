import RegexCompiler.Graph.Basic

/-!
# Searching graphs

The breadth-first search lists every vertex that it visits together with the vertices that were
first met from there. It serves reachability, layouts and the construction of deterministic
automata alike, so it only knows a function that gives the successors of a vertex. The depth-first
search follows ε edges and lists the vertices that it visits.

Both searches end because a vertex that has been met is not visited again.
-/

namespace RegexCompiler

variable {V : Type} [DecidableEq V]

/-- The number of entries of a list that have not been seen. -/
def unseenCount (pool seen : List V) : Nat :=
  pool.countP (· ∉ seen)

/-- The vertices that have not been seen, each at its first occurrence. -/
def newcomers (seen : List V) : List V → List V
  | [] => []
  | v :: vs => if v ∈ seen then newcomers seen vs else v :: newcomers (v :: seen) vs

theorem mem_of_mem_newcomers {seen vs : List V} {v : V} (h : v ∈ newcomers seen vs) :
    v ∈ vs ∧ v ∉ seen := by
  induction vs generalizing seen with
  | nil => simp [newcomers] at h
  | cons u vs ih =>
    rw [newcomers] at h
    split at h
    · exact ⟨List.mem_cons_of_mem _ (ih h).1, (ih h).2⟩
    · rename_i hu
      rcases List.mem_cons.mp h with rfl | h
      · exact ⟨List.mem_cons_self, hu⟩
      · exact ⟨List.mem_cons_of_mem _ (ih h).1, fun hv => (ih h).2 (List.mem_cons_of_mem _ hv)⟩

theorem newcomers_nodup (seen vs : List V) : (newcomers seen vs).Nodup := by
  induction vs generalizing seen with
  | nil => exact List.nodup_nil
  | cons u vs ih =>
    rw [newcomers]
    split
    · exact ih seen
    · refine List.nodup_cons.mpr ⟨fun h => ?_, ih _⟩
      exact (mem_of_mem_newcomers h).2 List.mem_cons_self

theorem unseenCount_append_lt {pool seen : List V} {v : V} (hv : v ∈ pool) (hs : v ∉ seen) :
    unseenCount pool (seen ++ [v]) < unseenCount pool seen := by
  have hsub : ∀ w, w ∉ seen ++ [v] → w ∉ seen := fun w hw hm => hw (List.mem_append_left _ hm)
  induction pool with
  | nil => exact absurd hv List.not_mem_nil
  | cons u pool ih =>
    have hle : unseenCount pool (seen ++ [v]) ≤ unseenCount pool seen :=
      List.countP_mono_left fun w _ hw => decide_eq_true (hsub w (of_decide_eq_true hw))
    rw [unseenCount, unseenCount, List.countP_cons, List.countP_cons]
    change unseenCount pool (seen ++ [v]) + _ < unseenCount pool seen + _
    by_cases huv : u = v
    · have hnew : v ∈ seen ++ [v] := List.mem_append_right _ List.mem_cons_self
      rw [huv, if_neg (fun h => absurd hnew (of_decide_eq_true h)), if_pos (decide_eq_true hs)]
      omega
    · have hlt := ih ((List.mem_cons.mp hv).resolve_left fun h => huv h.symm)
      by_cases hu : u ∉ seen ++ [v]
      · rw [if_pos (decide_eq_true hu), if_pos (decide_eq_true (hsub u hu))]
        omega
      · rw [if_neg (fun h => hu (of_decide_eq_true h))]
        omega

theorem unseenCount_append_newcomers {pool seen found : List V} (hn : found.Nodup)
    (hf : ∀ v ∈ found, v ∈ pool ∧ v ∉ seen) :
    unseenCount pool (seen ++ found) + found.length ≤ unseenCount pool seen := by
  induction found generalizing seen with
  | nil => simp
  | cons v found ih =>
    have hv := hf v List.mem_cons_self
    have hlt := unseenCount_append_lt hv.1 hv.2
    have hn' := List.nodup_cons.mp hn
    have hf' : ∀ w ∈ found, w ∈ pool ∧ w ∉ seen ++ [v] := fun w hw => by
      have := hf w (List.mem_cons_of_mem _ hw)
      refine ⟨this.1, ?_⟩
      simp only [List.mem_append, List.mem_singleton, not_or]
      exact ⟨this.2, fun h => hn'.1 (h ▸ hw)⟩
    have := ih hn'.2 hf'
    simp only [List.append_assoc, List.singleton_append, List.length_cons] at *
    omega

/-- All successors lie in one finite collection of vertices. -/
def Bounded (next : V → List V) : Prop :=
  ∃ pool : List V, ∀ v, ∀ w ∈ next v, w ∈ pool

/-- Visits the vertices of the queue and all that follow them, the ones met first first. Each
visited vertex comes with the vertices that were met from there and had not been seen before. -/
def breadthFirst (next : V → List V) (bounded : Bounded next) (queue seen : List V) :
    List (V × List V) :=
  match queue with
  | [] => []
  | v :: queue =>
    let found := newcomers seen (next v)
    (v, found) :: breadthFirst next bounded (queue ++ found) (seen ++ found)
termination_by unseenCount (Classical.choose bounded) seen + queue.length
decreasing_by
  have := unseenCount_append_newcomers (newcomers_nodup seen (next v)) fun w hw =>
    have hw := mem_of_mem_newcomers hw
    ⟨Classical.choose_spec bounded v w hw.1, hw.2⟩
  simp only [List.length_append, List.length_cons]
  omega

namespace Adjacency

/-- Every vertex that a table mentions. -/
def mentioned (table : Adjacency V) : List V :=
  table.flatMap fun (v, edges) => v :: edges.map Prod.snd

theorem mem_mentioned {table : Adjacency V} {v w : V} {label : Label}
    (h : (label, w) ∈ table.neighbours v) : v ∈ table.mentioned ∧ w ∈ table.mentioned := by
  unfold neighbours at h
  cases hl : table.lookup v with
  | none => simp [hl] at h
  | some edges =>
    have hmem : (v, edges) ∈ table := by
      obtain ⟨l₁, l₂, heq, _⟩ := List.lookup_eq_some_iff.mp hl
      simp [heq]
    simp only [hl, Option.getD_some] at h
    constructor
    · exact List.mem_flatMap.mpr ⟨_, hmem, List.mem_cons_self⟩
    · exact List.mem_flatMap.mpr
        ⟨_, hmem, List.mem_cons_of_mem _ (List.mem_map.mpr ⟨_, h, rfl⟩)⟩

/-- The far ends of all edges at a vertex. -/
def successors (table : Adjacency V) (v : V) : List V :=
  (table.neighbours v).map Prod.snd

theorem successors_bounded (table : Adjacency V) : Bounded table.successors :=
  ⟨table.mentioned, fun v w hw => by
    obtain ⟨⟨label, _⟩, hn, rfl⟩ := List.mem_map.mp hw
    exact (mem_mentioned hn).2⟩

/-- The breadth-first search over the edges of a table. -/
def discoveries (table : Adjacency V) (origin : V) : List (V × List V) :=
  breadthFirst table.successors table.successors_bounded [origin] [origin]

/-- The far ends of the ε edges at a vertex. -/
def silentSuccessors (table : Adjacency V) (v : V) : List V :=
  ((table.neighbours v).filter (·.1 = .epsilon)).map Prod.snd

/-- Visits the vertices of the stack and all that follow them over ε edges, the ones met last
first. -/
def silentSearch (table : Adjacency V) (stack seen : List V) : List V :=
  match stack with
  | [] => seen
  | v :: stack =>
    if v ∈ seen then silentSearch table stack seen
    else
      let met := (table.silentSuccessors v).filter (· ∉ seen ++ [v])
      silentSearch table (met.reverse ++ stack) (seen ++ [v])
termination_by (unseenCount table.mentioned seen, stack.length)
decreasing_by
  · exact Prod.Lex.right _ (Nat.lt_succ_self _)
  · rename_i hv
    by_cases hm : v ∈ table.mentioned
    · exact Prod.Lex.left _ _ (unseenCount_append_lt hm hv)
    · have hnone : table.silentSuccessors v = [] := by
        cases hs : table.silentSuccessors v with
        | nil => rfl
        | cons w ws =>
          have hw : w ∈ table.silentSuccessors v := by simp [hs]
          obtain ⟨⟨label, _⟩, hn, rfl⟩ := List.mem_map.mp hw
          exact absurd (mem_mentioned (List.mem_filter.mp hn).1).1 hm
      have heq : unseenCount table.mentioned (seen ++ [v]) = unseenCount table.mentioned seen :=
        List.countP_congr fun w hw => by
          have hne : w ≠ v := fun h => hm (h ▸ hw)
          simp [hne]
      simp only [hnone, List.filter_nil, List.reverse_nil, List.nil_append, heq]
      exact Prod.Lex.right _ (Nat.lt_succ_self _)

end Adjacency

namespace Graph

variable {κ : Type}

/-- The vertices that a vertex leads to without reading anything, itself first. -/
def epsilonClosure (g : Graph V κ) (v : V) : List V :=
  if g.contains v then g.outgoing.silentSearch [v] [] else []

/-- The vertices that a vertex leads to over edges of any label, nearer ones first. -/
def reachableFrom (g : Graph V κ) (v : V) : List V :=
  if g.contains v then v :: (g.outgoing.discoveries v).flatMap Prod.snd else []

/-- The vertices that a search from the given vertex does not meet. -/
def inaccessible (g : Graph V κ) (v : V) : List V :=
  let reachable := g.reachableFrom v
  g.vertices.filter (· ∉ reachable)

/-- Removes all vertices that the given one does not lead to. -/
def prune (g : Graph V κ) (v : V) : Graph V κ :=
  (g.inaccessible v).foldl removeVertex g

end Graph

end RegexCompiler
