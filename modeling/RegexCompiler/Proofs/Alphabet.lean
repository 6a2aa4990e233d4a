import Mathlib.Data.List.Basic
import Mathlib.Tactic.Common
import RegexCompiler.Alphabet

/-!
# Which texts are alphabets

A text is an alphabet if it is not empty and all its characters can be symbols, and these are then
the symbols. Of every other text but the empty one, the leftmost character that is no symbol is
refused.
-/

namespace RegexCompiler

variable {text : String} {alphabet : Alphabet} {refusal : AlphabetError}

lemma symbolRefusal_eq_none_iff {c : Char} :
    symbolRefusal c = none ↔ c ∉ reservedCharacters ∧ ¬Text.isBlank c := by
  unfold symbolRefusal
  split
  · simp_all
  · split <;> simp_all

namespace Alphabet

lemma ext {alphabet' : Alphabet} (h : ∀ c, c ∈ alphabet ↔ c ∈ alphabet') :
    alphabet = alphabet' := by
  have hsymbols := Ascending.ext alphabet.ascending alphabet'.ascending h
  cases alphabet
  cases alphabet'
  cases hsymbols
  rfl

theorem ofText_eq_error_iff : ofText text = .error refusal ↔
    text.toList = [] ∧ refusal = .empty ∨
      ∃ before c after, text.toList = before ++ c :: after ∧
        symbolRefusal c = some refusal ∧ ∀ d ∈ before, symbolRefusal d = none := by
  rw [← List.findSome?_eq_some_iff]
  unfold ofText
  split
  · rename_i first hfirst
    have hne : text.toList ≠ [] := by
      intro hnil
      rw [hnil] at hfirst
      cases hfirst
    simp [hfirst, hne]
  · rename_i hnone
    split
    · rename_i hnil
      simp [hnil, eq_comm]
    · rename_i hne
      simp [hnone, hne]

lemma mem_of_ofText (h : ofText text = .ok alphabet) (c : Char) :
    c ∈ alphabet ↔ c ∈ text.toList := by
  unfold ofText at h
  split at h
  · cases h
  · split at h
    · cases h
    · cases h
      exact Ascending.mem_ofList

lemma admissible_of_mem_iff (hsymbols : ∀ c, c ∈ alphabet ↔ c ∈ text.toList) :
    text.toList ≠ [] ∧ ∀ c ∈ text.toList, symbolRefusal c = none := by
  obtain ⟨c, hc⟩ := List.exists_mem_of_ne_nil _ alphabet.nonempty
  exact ⟨List.ne_nil_of_mem ((hsymbols c).mp hc),
    fun d hd => alphabet.admissible d ((hsymbols d).mpr hd)⟩

theorem ofText_eq_ok_iff : ofText text = .ok alphabet ↔
    text.toList ≠ [] ∧ (∀ c ∈ text.toList, symbolRefusal c = none) ∧
      ∀ c, c ∈ alphabet ↔ c ∈ text.toList := by
  constructor
  · intro h
    obtain ⟨hne, hadmissible⟩ := admissible_of_mem_iff (mem_of_ofText h)
    exact ⟨hne, hadmissible, mem_of_ofText h⟩
  · rintro ⟨hne, hadmissible, hsymbols⟩
    cases haccepted : ofText text with
    | error refusal =>
      rcases ofText_eq_error_iff.mp haccepted with ⟨hnil, -⟩ | ⟨before, c, after, hsplit, hc, -⟩
      · exact absurd hnil hne
      · have hnone := hadmissible c (hsplit ▸ List.mem_append_right before List.mem_cons_self)
        rw [hnone] at hc
        cases hc
    | ok accepted =>
      congr 1
      apply ext
      intro c
      rw [mem_of_ofText haccepted, hsymbols]

end Alphabet

end RegexCompiler
