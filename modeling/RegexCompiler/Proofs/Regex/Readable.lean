import Mathlib.Tactic.Common
import RegexCompiler.Regex.Spelling

/-!
# Readable trees

A tree that stands behind a text is readable if a reader of both can have it in mind: operators bind
as written, symbols are marked as the text demands, and all symbols belong to the alphabet. A tree
is readable exactly if its parts are readable where they stand.
-/

namespace RegexCompiler.Regex

variable {alphabet : Alphabet} {before : List Char}

/-- The tree can be meant by its spelling after the text `before`. -/
structure Readable (alphabet : Alphabet) (before : List Char) (r : Regex) : Prop where
  binds : r.Binds
  marked : r.Marked before
  known : ∀ c ∈ r.leaves, c ∈ alphabet

/-- The trees can be meant by their spellings, one after the other. -/
structure ReadableAll (alphabet : Alphabet) (before : List Char) (rs : List Regex) : Prop where
  binds : BindAll rs
  marked : MarkedAll before rs
  known : ∀ c ∈ leavesOf rs, c ∈ alphabet

lemma readable_letter {c : Char} :
    (letter c).Readable alphabet before ↔ c ∈ alphabet ∧ ¬OnlyOpened before := by
  constructor
  · rintro ⟨-, hmarked, hknown⟩
    exact ⟨hknown c (List.mem_singleton_self c), hmarked⟩
  · rintro ⟨hc, hmarked⟩
    refine ⟨trivial, hmarked, fun d hd => ?_⟩
    rwa [List.mem_singleton.mp hd]

lemma readable_start {c : Char} :
    (start c).Readable alphabet before ↔ c ∈ alphabet ∧ OnlyOpened before := by
  constructor
  · rintro ⟨-, hmarked, hknown⟩
    exact ⟨hknown c (List.mem_singleton_self c), hmarked⟩
  · rintro ⟨hc, hmarked⟩
    refine ⟨trivial, hmarked, fun d hd => ?_⟩
    rwa [List.mem_singleton.mp hd]

lemma readable_word {children : List Regex} :
    (word children).Readable alphabet before ↔
      ReadableAll alphabet (before ++ ['(']) children := by
  constructor
  · rintro ⟨hbinds, hmarked, hknown⟩
    exact ⟨hbinds, hmarked, hknown⟩
  · rintro ⟨hbinds, hmarked, hknown⟩
    exact ⟨hbinds, hmarked, hknown⟩

lemma readable_union {left right : Regex} :
    (union left right).Readable alphabet before ↔ left.IsOperand ∧ left.Readable alphabet before ∧
      right.Readable alphabet (before ++ left.spell ++ ['+']) := by
  constructor
  · rintro ⟨⟨hoperand, hleft, hright⟩, ⟨hmarked, hmarked'⟩, hknown⟩
    exact ⟨hoperand, ⟨hleft, hmarked, fun c hc => hknown c (List.mem_append_left _ hc)⟩,
      ⟨hright, hmarked', fun c hc => hknown c (List.mem_append_right _ hc)⟩⟩
  · rintro ⟨hoperand, hleft, hright⟩
    refine ⟨⟨hoperand, hleft.binds, hright.binds⟩, ⟨hleft.marked, hright.marked⟩, fun c hc => ?_⟩
    rcases List.mem_append.mp hc with hc | hc
    · exact hleft.known c hc
    · exact hright.known c hc

lemma readable_star {child : Regex} :
    (star child).Readable alphabet before ↔ child.IsOperand ∧ child.Readable alphabet before := by
  constructor
  · rintro ⟨⟨hoperand, hbinds⟩, hmarked, hknown⟩
    exact ⟨hoperand, hbinds, hmarked, hknown⟩
  · rintro ⟨hoperand, hbinds, hmarked, hknown⟩
    exact ⟨⟨hoperand, hbinds⟩, hmarked, hknown⟩

lemma readableAll_nil : ReadableAll alphabet before [] :=
  ⟨trivial, trivial, fun _ hc => absurd hc List.not_mem_nil⟩

lemma readableAll_cons {child : Regex} {children : List Regex} :
    ReadableAll alphabet before (child :: children) ↔
      child.Readable alphabet before ∧ ReadableAll alphabet (before ++ child.spell) children := by
  constructor
  · rintro ⟨⟨hbinds, hbinds'⟩, ⟨hmarked, hmarked'⟩, hknown⟩
    exact ⟨⟨hbinds, hmarked, fun c hc => hknown c (List.mem_append_left _ hc)⟩,
      ⟨hbinds', hmarked', fun c hc => hknown c (List.mem_append_right _ hc)⟩⟩
  · rintro ⟨hchild, hchildren⟩
    refine ⟨⟨hchild.binds, hchildren.binds⟩, ⟨hchild.marked, hchildren.marked⟩, fun c hc => ?_⟩
    rcases List.mem_append.mp hc with hc | hc
    · exact hchild.known c hc
    · exact hchildren.known c hc

lemma wellFormed_word {children : List Regex} :
    (word children).WellFormed alphabet ↔ ReadableAll alphabet [] children := by
  constructor
  · rintro ⟨hbinds, hmarked, hknown⟩
    exact ⟨hbinds, hmarked, hknown⟩
  · rintro ⟨hbinds, hmarked, hknown⟩
    exact ⟨hbinds, hmarked, hknown⟩

lemma exists_of_wellFormed {r : Regex} (h : r.WellFormed alphabet) :
    ∃ children, r = word children ∧ ReadableAll alphabet [] children := by
  cases r with
  | word children => exact ⟨children, rfl, wellFormed_word.mp h⟩
  | letter c => exact absurd h id
  | start c => exact absurd h id
  | union left right => exact absurd h id
  | star child => exact absurd h id

lemma not_reserved {c : Char} (hc : c ∈ alphabet) : c ∉ reservedCharacters := by
  intro hreserved
  have hnone := alphabet.admissible c hc
  rw [symbolRefusal, if_pos hreserved] at hnone
  cases hnone

lemma ne_of_mem_alphabet {c operator : Char} (hc : c ∈ alphabet)
    (hoperator : operator ∈ reservedCharacters) : c ≠ operator := by
  rintro rfl
  exact not_reserved hc hoperator

lemma exists_spell_eq_concat : ∀ {before : List Char} (r : Regex), r.Readable alphabet before →
    ∃ init c, r.spell = init ++ [c] ∧ c ≠ '(' ∧ c ≠ '+'
  | _, letter c, h => by
    have hc := (readable_letter.mp h).1
    exact ⟨[], c, rfl, ne_of_mem_alphabet hc (by decide), ne_of_mem_alphabet hc (by decide)⟩
  | _, start c, h => by
    have hc := (readable_start.mp h).1
    exact ⟨[], c, rfl, ne_of_mem_alphabet hc (by decide), ne_of_mem_alphabet hc (by decide)⟩
  | _, word children, _ => ⟨'(' :: spellAll children, ')', rfl, by decide, by decide⟩
  | _, union left right, h => by
    obtain ⟨init, c, hspell, hc⟩ := exists_spell_eq_concat right (readable_union.mp h).2.2
    refine ⟨left.spell ++ '+' :: init, c, ?_, hc⟩
    rw [spell, hspell, List.append_assoc, List.cons_append]
  | _, star child, _ => ⟨child.spell, '*', rfl, by decide, by decide⟩

end RegexCompiler.Regex
