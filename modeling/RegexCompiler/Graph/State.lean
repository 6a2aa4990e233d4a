import RegexCompiler.Ascending

/-!
# Vertices of automata

The vertices of a nondeterministic automaton are its entry, its accepting sink and numbered ones in
between. A vertex of the deterministic automaton is the set of the states that it stands for, so
the same set found twice is the same vertex. Both kinds of vertices are ordered for exports.
-/

namespace RegexCompiler

/-- A vertex of a nondeterministic automaton. -/
inductive State where
  /-- The entry. -/
  | start
  /-- A numbered vertex. Fewer than `2 ^ 32` of them are assumed: a number stands for 32 bits. -/
  | fresh (number : Nat)
  /-- The accepting sink. -/
  | final
deriving DecidableEq

namespace State

/-- The entry comes first and the accepting sink last. -/
protected def compare : State → State → Ordering
  | start, start => .eq
  | start, _ => .lt
  | _, start => .gt
  | fresh m, fresh n => Ord.compare m n
  | fresh _, final => .lt
  | final, fresh _ => .gt
  | final, final => .eq

instance : Ord State := ⟨State.compare⟩

theorem compare_eq (a b : State) : Ord.compare a b = State.compare a b := rfl

instance : Std.TransOrd State where
  eq_swap := by
    intro a b
    cases a with
    | start => cases b <;> rfl
    | fresh m =>
      cases b with
      | start => rfl
      | fresh n => exact @Std.OrientedOrd.eq_swap Nat _ _ m n
      | final => rfl
    | final => cases b <;> rfl
  isLE_trans := by
    intro a b c
    cases a <;> cases b <;> cases c <;> simp [compare_eq, State.compare]
    exact Std.TransCmp.isLE_trans

instance : Std.LawfulEqOrd State where
  compare_self := by
    intro a
    cases a with
    | start => rfl
    | fresh n => exact @Std.compare_self Nat _ _ _
    | final => rfl
  eq_of_compare := by
    intro a b
    cases a <;> cases b <;> simp [compare_eq, State.compare]

def name : State → String
  | start => "start"
  | fresh number => toString number
  | final => "final"

end State

/-- A vertex of the deterministic automaton: a finite set of states. -/
structure StateSet where
  members : List State
  ascending : Ascending members
deriving DecidableEq

namespace StateSet

/-- Sets compare as the words of their members in ascending order. -/
instance : Ord StateSet where
  compare s t := compare s.members t.members

theorem compare_eq (s t : StateSet) : Ord.compare s t = Ord.compare s.members t.members := rfl

instance : Std.TransOrd StateSet where
  eq_swap := by
    intro s t
    simp only [compare_eq]
    exact Std.OrientedOrd.eq_swap
  isLE_trans := by
    intro s t u
    simp only [compare_eq]
    exact Std.TransCmp.isLE_trans

instance : Std.LawfulEqOrd StateSet where
  compare_self := by
    intro s
    simp only [compare_eq]
    exact Std.compare_self
  eq_of_compare := by
    intro s t h
    have hm : s.members = t.members := Std.LawfulEqOrd.eq_of_compare h
    cases s
    cases t
    simp_all

instance : Membership State StateSet where
  mem s v := v ∈ s.members

instance (v : State) (s : StateSet) : Decidable (v ∈ s) :=
  inferInstanceAs (Decidable (v ∈ s.members))

def empty : StateSet :=
  ⟨[], Ascending.nil⟩

/-- The set of the states in a list. -/
def ofList (states : List State) : StateSet :=
  ⟨Ascending.ofList states, Ascending.ofList_ascending states⟩

def insert (s : StateSet) (v : State) : StateSet :=
  ⟨Ascending.insert v s.members, Ascending.insert_ascending s.ascending⟩

@[simp] theorem mem_ofList {v : State} {states : List State} : v ∈ ofList states ↔ v ∈ states :=
  Ascending.mem_ofList

@[simp] theorem mem_insert {v w : State} {s : StateSet} : w ∈ s.insert v ↔ w = v ∨ w ∈ s :=
  Ascending.mem_insert

theorem ext {s t : StateSet} (h : ∀ v, v ∈ s ↔ v ∈ t) : s = t := by
  have hm : s.members = t.members := Ascending.ext s.ascending t.ascending h
  cases s
  cases t
  simp_all

def erase (s : StateSet) (v : State) : StateSet :=
  ⟨s.members.filter (· ≠ v), List.Pairwise.filter _ s.ascending⟩

theorem mem_erase {v w : State} {s : StateSet} : w ∈ s.erase v ↔ w ∈ s ∧ w ≠ v := by
  change w ∈ s.members.filter (· ≠ v) ↔ w ∈ s.members ∧ w ≠ v
  simp

def subsets : List State → List StateSet
  | [] => [empty]
  | v :: vs => subsets vs ++ (subsets vs).map (·.insert v)

theorem mem_subsets {s : StateSet} {pool : List State} (h : ∀ v ∈ s, v ∈ pool) :
    s ∈ subsets pool := by
  induction pool generalizing s with
  | nil =>
    have : s = empty := ext fun v =>
      ⟨fun hv => absurd (h v hv) List.not_mem_nil, fun hv => absurd hv List.not_mem_nil⟩
    simp [subsets, this]
  | cons v vs ih =>
    rw [subsets, List.mem_append]
    by_cases hv : v ∈ s
    · right
      refine List.mem_map.mpr ⟨s.erase v, ih fun w hw => ?_, ext fun w => ?_⟩
      · have hw := mem_erase.mp hw
        exact (List.mem_cons.mp (h w hw.1)).resolve_left hw.2
      · rw [mem_insert, mem_erase]
        by_cases hwv : w = v
        · simp [hwv, hv]
        · simp [hwv]
    · left
      exact ih fun w hw =>
        (List.mem_cons.mp (h w hw)).resolve_left fun he => hv (he ▸ hw)

/-- The set of the entry alone, where every run of the deterministic automaton begins. -/
def entry : StateSet :=
  ofList [.start]

def name (s : StateSet) : String :=
  "\x7b" ++ String.intercalate ", " (s.members.map State.name) ++ "\x7d"

end StateSet

/-- What exports need to know about a kind of vertices besides their order. -/
class Named (V : Type) where
  name : V → String

instance : Named State := ⟨State.name⟩

instance : Named StateSet := ⟨StateSet.name⟩

end RegexCompiler
