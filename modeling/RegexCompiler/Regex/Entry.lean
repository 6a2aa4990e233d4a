import RegexCompiler.Regex.Spelling

/-!
# The place of the marked symbol

An expression is entered at its marked symbol, so at most one symbol is marked and it stands where
a match can begin. An unmarked expression has its entry elsewhere.
-/

namespace RegexCompiler.Regex

mutual

def marks : Regex → Nat
  | letter _ => 0
  | start _ => 1
  | word children => marksOf children
  | union left right => left.marks + right.marks
  | star child => child.marks

def marksOf : List Regex → Nat
  | [] => 0
  | child :: children => child.marks + marksOf children

end

mutual

/-- Whether the way from the root to a marked symbol takes the first child of every concatenation;
alternatives and repetitions may be passed in any direction. -/
def MarkedAtEntry : Regex → Prop
  | letter _ => True
  | start _ => True
  | word children => FirstMarkedAtEntry children
  | union left right => left.MarkedAtEntry ∧ right.MarkedAtEntry
  | star child => child.MarkedAtEntry

def FirstMarkedAtEntry : List Regex → Prop
  | [] => True
  | child :: children => child.MarkedAtEntry ∧ marksOf children = 0

end

/-- The way from the root that takes the first child of every concatenation and the left operand of
all alternatives ends at the marked symbol. -/
inductive EnteredFirst (c : Char) : Regex → Prop where
  | start : EnteredFirst c (start c)
  | word {child : Regex} {children : List Regex} :
      EnteredFirst c child → EnteredFirst c (word (child :: children))
  | union {left right : Regex} : EnteredFirst c left → EnteredFirst c (union left right)
  | star {child : Regex} : EnteredFirst c child → EnteredFirst c (star child)

theorem EnteredFirst.exists_leaves {c : Char} {r : Regex} (h : r.EnteredFirst c) :
    ∃ rest, r.leaves = c :: rest := by
  induction h with
  | start => exact ⟨[], rfl⟩
  | @word child children _ ih =>
    obtain ⟨rest, hrest⟩ := ih
    exact ⟨rest ++ leavesOf children, by rw [leaves, leavesOf, hrest, List.cons_append]⟩
  | @union left right _ ih =>
    obtain ⟨rest, hrest⟩ := ih
    exact ⟨rest ++ right.leaves, by rw [leaves, hrest, List.cons_append]⟩
  | star _ ih => exact ih

mutual

theorem hasStart_iff_marks_pos : ∀ r : Regex, r.hasStart ↔ 0 < r.marks
  | letter _ => by simp [hasStart, marks]
  | start _ => by simp [hasStart, marks]
  | word children => anyHasStart_iff_marksOf_pos children
  | union left right => by
    rw [hasStart, marks, Bool.or_eq_true, hasStart_iff_marks_pos left,
      hasStart_iff_marks_pos right]
    omega
  | star child => hasStart_iff_marks_pos child

theorem anyHasStart_iff_marksOf_pos :
    ∀ children : List Regex, anyHasStart children ↔ 0 < marksOf children
  | [] => by simp [anyHasStart, marksOf]
  | child :: children => by
    rw [anyHasStart, marksOf, Bool.or_eq_true, hasStart_iff_marks_pos child,
      anyHasStart_iff_marksOf_pos children]
    omega

end

mutual

theorem markedAtEntry_of_unmarked : ∀ r : Regex, r.marks = 0 → r.MarkedAtEntry
  | letter _, _ => trivial
  | start _, _ => trivial
  | word children, h => firstMarkedAtEntry_of_unmarked children h
  | union left right, h => by
    rw [marks, Nat.add_eq_zero_iff] at h
    exact ⟨markedAtEntry_of_unmarked left h.1, markedAtEntry_of_unmarked right h.2⟩
  | star child, h => markedAtEntry_of_unmarked child h

theorem firstMarkedAtEntry_of_unmarked :
    ∀ children : List Regex, marksOf children = 0 → FirstMarkedAtEntry children
  | [], _ => trivial
  | child :: children, h => by
    rw [marksOf, Nat.add_eq_zero_iff] at h
    exact ⟨markedAtEntry_of_unmarked child h.1, h.2⟩

end

end RegexCompiler.Regex
