import RegexCompiler.Proofs.Regex.Parentheses
import RegexCompiler.Regex.Descent

/-!
# Pairs of parentheses and the account of the cursor

The first pass matches the parentheses between which the text is balanced. No `(` has two partners,
so where the cursor moves behind a `(`, the group that it closes has to be the one that the first
pass matched with it, and behind any other character there is nothing to note.
-/

namespace RegexCompiler.Regex.Descent

variable {text : List Char} {k : Nat}

@[simp] lemma length_frame : (frame text).length = text.length + 3 := by
  simp [frame]

lemma frame_mark : (frame text)[0]? = some '$' :=
  rfl

lemma frame_first : (frame text)[1]? = some '(' :=
  rfl

lemma frame_last : (frame text)[text.length + 2]? = some ')' := by
  simp [frame]

lemma frame_inner {c : Char} (hc : text[k]? = some c) : (frame text)[k + 2]? = some c := by
  have hk : k < text.length := (List.getElem?_eq_some_iff.mp hc).1
  simp [frame, List.getElem?_append_left hk, hc]

lemma between_frame : between (frame text) 2 ((frame text).length - 1) = text := by
  simp [between, frame]

lemma matching_next {c : Char} (hc : text[k]? = some c) {i j : Nat} :
    (j, i) ∈ matching (text.zipIdx.drop k) (opened text k) ↔
      k = j ∧ Closes text i j ∨
        (j, i) ∈ matching (text.zipIdx.drop (k + 1)) (opened text (k + 1)) := by
  rw [drop_zipIdx hc]
  by_cases hclose : c = ')'
  · subst hclose
    rw [opened_close hc]
    cases hopened : opened text k with
    | nil =>
      have hnone : ¬(k = j ∧ Closes text i j) := by
        rintro ⟨rfl, hcloses⟩
        obtain ⟨-, outer, houter⟩ := closes_iff.mp hcloses
        simp [hopened] at houter
      simp [matching, hnone]
    | cons q outer =>
      have hpair : (j, i) = (k, q) ↔ k = j ∧ Closes text i j := by
        rw [Prod.mk.injEq, eq_comm, and_congr_right_iff]
        rintro rfl
        rw [closes_iff, hopened]
        simp [hc, eq_comm]
      rw [matching, List.mem_cons, hpair, List.tail_cons]
  · have hnone : ¬(k = j ∧ Closes text i j) := by
      rintro ⟨rfl, hcloses⟩
      exact hclose (Option.some.inj (hc.symm.trans hcloses.2.2.1))
    by_cases hopen : c = '('
    · subst hopen
      rw [opened_open hc]
      simp [matching, hnone]
    · rw [opened_other hc hopen hclose, matching]
      · simp [hnone]
      · simp [hopen]
      · simp [hclose]
      · simp [hclose]

theorem mem_matching {i j : Nat} : (j, i) ∈ matching text.zipIdx [] ↔ Closes text i j := by
  have hfrom : ∀ k ≤ text.length,
      ((j, i) ∈ matching (text.zipIdx.drop k) (opened text k) ↔ k ≤ j ∧ Closes text i j) := by
    intro k hk
    induction hk using Nat.decreasingInduction with
    | self =>
      rw [List.drop_eq_nil_of_le (by simp)]
      refine iff_of_false List.not_mem_nil fun ⟨hle, hcloses⟩ => ?_
      exact Nat.not_lt.mpr hle (List.getElem?_eq_some_iff.mp hcloses.2.2.1).1
    | of_succ k hk ih =>
      rw [matching_next (List.getElem?_eq_getElem hk), ih, ← or_and_right, Nat.succ_le_iff,
        ← le_iff_eq_or_lt]
  exact (hfrom 0 (Nat.zero_le _)).trans (and_iff_right (Nat.zero_le _))

lemma mem_pairs {closing opening : Nat} :
    (closing, opening) ∈ pairs text ↔
      closing = text.length + 2 ∧ opening = 1 ∨
        ∃ i j, Closes text i j ∧ closing = j + 2 ∧ opening = i + 2 := by
  simp only [pairs, List.mem_cons, Prod.mk.injEq, List.mem_map, Prod.exists]
  refine or_congr_right ⟨?_, ?_⟩
  · rintro ⟨j, i, hmem, rfl, rfl⟩
    exact ⟨i, j, mem_matching.mp hmem, rfl, rfl⟩
  · rintro ⟨i, j, hcloses, rfl, rfl⟩
    exact ⟨j, i, mem_matching.mpr hcloses, rfl, rfl⟩

lemma frame_of_mem_pairs {closing opening : Nat} (h : (closing, opening) ∈ pairs text) :
    (frame text)[opening]? = some '(' := by
  rcases mem_pairs.mp h with ⟨-, rfl⟩ | ⟨i, j, hcloses, -, rfl⟩
  · exact frame_first
  · exact frame_inner hcloses.2.1

lemma pairs_unique {closing closing' opening : Nat} (h : (closing, opening) ∈ pairs text)
    (h' : (closing', opening) ∈ pairs text) : closing = closing' := by
  rcases mem_pairs.mp h with ⟨rfl, rfl⟩ | ⟨i, j, hcloses, rfl, rfl⟩ <;>
    rcases mem_pairs.mp h' with ⟨rfl, hone⟩ | ⟨i', j', hcloses', rfl, hone⟩
  · rfl
  · omega
  · omega
  · obtain rfl : i = i' := by omega
    rw [hcloses.unique hcloses']

namespace Cursor

variable {cursor : Cursor}

/-- The cursor behind the next character to the left. -/
def moved (cursor : Cursor) (index : Nat) : Cursor :=
  { cursor with remaining := index, consumed := index :: cursor.consumed }

lemma Accounts.start : (Cursor.start text).Accounts text where
  bounded := Nat.le_refl _
  consumed := by simp [Cursor.start]
  closed := by
    refine fun ⟨closing, opening⟩ => iff_of_false List.not_mem_nil fun ⟨hmem, hle⟩ => ?_
    exact Nat.not_lt.mpr hle (List.getElem?_eq_some_iff.mp (frame_of_mem_pairs hmem)).1

lemma Accounts.consumed_moved (h : cursor.Accounts text) {m : Nat}
    (hm : cursor.remaining = m + 1) :
    m :: cursor.consumed = List.range' m ((frame text).length - m) := by
  have hbounded := h.bounded
  have hcount : (frame text).length - m = (frame text).length - (m + 1) + 1 := by omega
  rw [h.consumed, hm, hcount, List.range'_succ]

lemma Accounts.moved (h : cursor.Accounts text) {m : Nat} (hm : cursor.remaining = m + 1)
    (hplain : (frame text)[m]? ≠ some '(') : (cursor.moved m).Accounts text where
  bounded := Nat.le_of_succ_le (hm.symm.le.trans h.bounded)
  consumed := h.consumed_moved hm
  closed := by
    rintro ⟨closing, opening⟩
    change _ ∈ cursor.closed ↔ _ ∧ m ≤ opening
    rw [h.closed, hm, and_congr_right_iff]
    intro hmem
    have hne : m ≠ opening := fun heq => hplain (heq ▸ frame_of_mem_pairs hmem)
    omega

lemma Accounts.closed_moved (h : cursor.Accounts text) {m : Nat} (hm : cursor.remaining = m + 1)
    {closing : Nat} (hpair : (closing, m) ∈ pairs text) :
    Accounts text { cursor.moved m with closed := (closing, m) :: cursor.closed } where
  bounded := Nat.le_of_succ_le (hm.symm.le.trans h.bounded)
  consumed := h.consumed_moved hm
  closed := by
    rintro ⟨closing', opening⟩
    change _ ∈ (closing, m) :: cursor.closed ↔ _ ∧ m ≤ opening
    rw [List.mem_cons, h.closed, hm, Prod.mk.injEq]
    constructor
    · rintro (⟨rfl, rfl⟩ | ⟨hmem, hle⟩)
      · exact ⟨hpair, Nat.le_refl _⟩
      · exact ⟨hmem, Nat.le_of_succ_le hle⟩
    · rintro ⟨hmem, hle⟩
      rcases Nat.eq_or_lt_of_le hle with rfl | hlt
      · exact Or.inl ⟨pairs_unique hmem hpair, rfl⟩
      · exact Or.inr ⟨hmem, hlt⟩

end Cursor

end RegexCompiler.Regex.Descent
