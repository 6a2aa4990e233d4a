import RegexCompiler.Proofs.Automaton.Construction
import RegexCompiler.Proofs.Regex.Entry
import RegexCompiler.Proofs.Regex.Soundness

/-!
# Where a text is entered

A tree that is read has a marked symbol exactly if a symbol stands behind the parentheses that open
its text. This symbol is the leftmost one of the tree, and the automaton of the tree is entered at
it without an ε edge. All other trees have no marked symbol.
-/

namespace RegexCompiler

open Regex

variable {κ : Type}

lemma Draft.attach_initial_eq_start_iff {r : Regex} (hmarks : r.marks ≤ 1)
    (hentry : r.MarkedAtEntry) :
    ((initial : Draft κ).attach .final r).2 = .start ↔ r.hasStart := by
  rw [hasStart_iff_marks_pos]
  exact (exists_attached r (initial : Draft κ) .final coherent_initial trivial hentry hmarks
    fun _ => not_arrow_initial .start).2

lemma Regex.WellFormed.opens {alphabet : Alphabet} {r : Regex} (hr : r.WellFormed alphabet) :
    r.spellRoot = [] ∧ r.marks = 0 ∨ Opens alphabet r r.spellRoot := by
  obtain ⟨children, rfl, hchildren⟩ := exists_of_wellFormed hr
  have hbefore : OnlyOpened [] := fun _ hc => absurd hc List.not_mem_nil
  cases children with
  | nil => exact Or.inl ⟨rfl, rfl⟩
  | cons child children => exact Or.inr (ReadableAll.opens hbefore child children hchildren)

/-- A tree that is read, under whatever limit, has at most one marked symbol. It has one exactly if
its text begins with a symbol behind opening parentheses. Then the way from the root through first
children, left operands and repeated parts ends at this symbol, which is the leftmost one of the
tree. The vertex where the attached tree begins is the entry of the automaton exactly if the tree
has a marked symbol. -/
theorem parse_marks_first_symbol (alphabet : Alphabet) (limit : Option Nat) (text : List Char)
    (r : Regex) (h : parse alphabet limit text = .ok r) :
    r.marks ≤ 1 ∧
      (r.marks = 1 ↔ ∃ c ∈ alphabet, (text.dropWhile (· = '(')).head? = some c) ∧
      (r.marks = 1 → ∃ c, (text.dropWhile (· = '(')).head? = some c ∧ r.EnteredFirst c ∧
        r.leaves.head? = some c) ∧
      (((Draft.initial : Draft κ).attach .final r).2 = .start ↔ r.hasStart) := by
  obtain ⟨hr, rfl⟩ := parse_sound h
  obtain ⟨hmarks, hentry⟩ := hr.markedAtEntry
  refine ⟨hmarks, ?_, ?_, Draft.attach_initial_eq_start_iff hmarks hentry⟩
  · rcases hr.opens with ⟨hempty, hzero⟩ | ⟨c, rest, hc, htext, hone, -⟩ | ⟨rest, htext, hzero⟩
    · simp [hempty, hzero]
    · simp [htext, hone, hc]
    · have hclose : ')' ∉ alphabet := fun hc => ne_of_mem_alphabet hc (by decide) rfl
      simp [htext, hzero, hclose]
  · intro hone
    rcases hr.opens with ⟨-, hzero⟩ | ⟨c, rest, -, htext, -, hfirst⟩ | ⟨rest, -, hzero⟩
    · omega
    · obtain ⟨others, hleaves⟩ := hfirst.exists_leaves
      exact ⟨c, by rw [htext, List.head?_cons], hfirst, by rw [hleaves, List.head?_cons]⟩
    · omega

/-- A symbol that is marked behind two parentheses, in an alternative and a repetition. -/
theorem parse_marks_first_symbol_nested :
    ∃ r, parse .standard (some 9) "((a*+b)ba)*".toList = .ok r ∧ r.marks = 1 ∧
      r.EnteredFirst 'a' ∧ ((Draft.initial : Draft Rat).attach .final r).2 = .start := by
  have hread : parse .standard (some 9) "((a*+b)ba)*".toList =
      .ok (.word [.star (.word [.word [.union (.star (.start 'a')) (.letter 'b')], .letter 'b',
        .letter 'a'])]) := by
    rfl
  obtain ⟨-, hmarks, hfirst, hstart⟩ := parse_marks_first_symbol (κ := Rat) _ _ _ _ hread
  have hone := hmarks.mpr ⟨'a', by decide, by decide⟩
  obtain ⟨c, hc, hentered, -⟩ := hfirst hone
  refine ⟨_, hread, hone, ?_, hstart.mpr rfl⟩
  obtain rfl : 'a' = c := Option.some.inj hc
  exact hentered

end RegexCompiler
