/-!
# Sets as strictly ascending lists

Alphabets and state sets are finite sets that are always read in ascending order. Both keep their
members in a list in which every member is strictly smaller than the next one. Inserting keeps a
list strictly ascending (`insert_ascending`), and two such lists with the same members are the same
list (`ext`).
-/

namespace RegexCompiler

variable {α : Type} [Ord α]

/-- Every value comes before all later ones, so none occurs twice. -/
def Ascending (xs : List α) : Prop :=
  xs.Pairwise fun a b => compare a b = .lt

namespace Ascending

instance (xs : List α) : Decidable (Ascending xs) :=
  inferInstanceAs (Decidable (xs.Pairwise _))

/-- Puts a value at its place; a value that is present already is not repeated. -/
def insert (x : α) : List α → List α
  | [] => [x]
  | y :: ys =>
    match compare x y with
    | .lt => x :: y :: ys
    | .eq => y :: ys
    | .gt => y :: insert x ys

/-- The distinct values of a list, in ascending order. -/
def ofList (xs : List α) : List α :=
  xs.foldl (fun members x => insert x members) []

theorem mem_insert [Std.LawfulEqOrd α] {x z : α} {ys : List α} :
    z ∈ insert x ys ↔ z = x ∨ z ∈ ys := by
  induction ys with
  | nil => simp [insert]
  | cons y ys ih =>
    rw [insert]
    split
    · simp
    · rename_i h
      rw [Std.LawfulEqOrd.eq_of_compare h]
      simp
    · rw [List.mem_cons, ih, List.mem_cons]
      exact or_left_comm

theorem insert_ascending [Std.TransOrd α] [Std.LawfulEqOrd α] {x : α} {ys : List α}
    (h : Ascending ys) : Ascending (insert x ys) := by
  induction ys with
  | nil => exact List.pairwise_singleton _ _
  | cons y ys ih =>
    have hy := List.pairwise_cons.mp h
    rw [insert]
    split
    · rename_i hlt
      refine List.pairwise_cons.mpr ⟨fun z hz => ?_, h⟩
      rcases List.mem_cons.mp hz with rfl | hz
      · exact hlt
      · exact Std.TransCmp.lt_trans hlt (hy.1 z hz)
    · exact h
    · rename_i hgt
      refine List.pairwise_cons.mpr ⟨fun z hz => ?_, ih hy.2⟩
      rcases mem_insert.mp hz with rfl | hz
      · exact Std.OrientedCmp.lt_of_gt hgt
      · exact hy.1 z hz

theorem nil : Ascending ([] : List α) :=
  List.Pairwise.nil

theorem mem_foldl_insert [Std.LawfulEqOrd α] {z : α} {xs members : List α} :
    z ∈ xs.foldl (fun members x => insert x members) members ↔ z ∈ xs ∨ z ∈ members := by
  induction xs generalizing members with
  | nil => simp
  | cons x xs ih =>
    rw [List.foldl_cons, ih, mem_insert, List.mem_cons, or_assoc]
    exact or_left_comm

theorem foldl_insert_ascending [Std.TransOrd α] [Std.LawfulEqOrd α] {xs members : List α}
    (h : Ascending members) : Ascending (xs.foldl (fun members x => insert x members) members) := by
  induction xs generalizing members with
  | nil => exact h
  | cons x xs ih => exact ih (insert_ascending h)

@[simp] theorem mem_ofList [Std.LawfulEqOrd α] {z : α} {xs : List α} : z ∈ ofList xs ↔ z ∈ xs := by
  simp [ofList, mem_foldl_insert]

theorem ofList_ascending [Std.TransOrd α] [Std.LawfulEqOrd α] (xs : List α) :
    Ascending (ofList xs) :=
  foldl_insert_ascending nil

theorem ext [Std.TransOrd α] [Std.LawfulEqOrd α] {xs ys : List α} (hx : Ascending xs)
    (hy : Ascending ys) (h : ∀ z, z ∈ xs ↔ z ∈ ys) : xs = ys := by
  induction xs generalizing ys with
  | nil =>
    cases ys with
    | nil => rfl
    | cons y ys => exact absurd ((h y).mpr List.mem_cons_self) List.not_mem_nil
  | cons x xs ih =>
    cases ys with
    | nil => exact absurd ((h x).mp List.mem_cons_self) List.not_mem_nil
    | cons y ys =>
      have hx' := List.pairwise_cons.mp hx
      have hy' := List.pairwise_cons.mp hy
      have irrefl : ∀ a : α, compare a a ≠ .lt := fun a ha => by
        simp [Std.compare_self] at ha
      have hxy : x = y := by
        rcases List.mem_cons.mp ((h x).mp List.mem_cons_self) with hxy | hxys
        · exact hxy
        · rcases List.mem_cons.mp ((h y).mpr List.mem_cons_self) with hyx | hyxs
          · exact hyx.symm
          · exact absurd (Std.TransCmp.lt_trans (hx'.1 y hyxs) (hy'.1 x hxys)) (irrefl x)
      subst hxy
      congr 1
      refine ih hx'.2 hy'.2 fun z => ⟨fun hz => ?_, fun hz => ?_⟩
      · rcases List.mem_cons.mp ((h z).mp (List.mem_cons_of_mem _ hz)) with rfl | hz'
        · exact absurd (hx'.1 z hz) (irrefl z)
        · exact hz'
      · rcases List.mem_cons.mp ((h z).mpr (List.mem_cons_of_mem _ hz)) with rfl | hz'
        · exact absurd (hy'.1 z hz) (irrefl z)
        · exact hz'

end Ascending

/-- The same values in ascending order; equal values keep their relative order. -/
def sorted (xs : List α) : List α :=
  xs.mergeSort fun a b => (compare a b).isLE

end RegexCompiler
