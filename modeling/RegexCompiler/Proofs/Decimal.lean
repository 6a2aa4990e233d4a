import Mathlib.Data.List.Basic
import Mathlib.Tactic.Common
import RegexCompiler.Decimal.Style

/-!
# Characters of written numbers

A number is written with digits, letters, signs and points only, so that it needs no quotation marks
where it stands among other texts.
-/

namespace RegexCompiler.Decimal

def isNumeric (c : Char) : Bool :=
  c.isAlphanum || c == '-' || c == '+' || c == '.'

/-- The text has no other characters than digits, letters, signs and points. -/
def Numeric (text : List Char) : Prop :=
  text.all isNumeric = true

instance (text : List Char) : Decidable (Numeric text) :=
  inferInstanceAs (Decidable (_ = true))

@[simp] lemma numeric_append {s t : List Char} : Numeric (s ++ t) ↔ Numeric s ∧ Numeric t := by
  simp [Numeric]

lemma numeric_cons {c : Char} {s : List Char} :
    Numeric (c :: s) ↔ isNumeric c ∧ Numeric s := by
  simp [Numeric]

lemma numeric_of_isDigit {s : List Char} (h : ∀ c ∈ s, c.isDigit) : Numeric s := by
  apply List.all_eq_true.mpr
  intro c hc
  simp [isNumeric, Char.isAlphanum, h c hc]

lemma Numeric.subset {s t : List Char} (h : Numeric t) (hsub : s ⊆ t) : Numeric s :=
  List.all_eq_true.mpr fun c hc => List.all_eq_true.mp h c (hsub hc)

namespace Binary

variable (x : Binary) (tie : Tie)

lemma isDigit_of_mem_digitsOf {count : Nat} {step : Int} :
    ∀ c ∈ (digitsOf count step).digits, c.isDigit := by
  intro c hc
  have hmem : c ∈ Nat.toDigits 10 count := by
    have hsuffix := List.dropWhile_suffix (l := (Nat.toDigits 10 count).reverse) (· = '0')
    exact List.mem_reverse.mp (hsuffix.subset (List.mem_reverse.mp hc))
  exact Nat.isDigit_of_mem_toDigits (by decide) (by decide) hmem

lemma exists_shortest_eq : ∃ count step, x.shortest tie = digitsOf count step := by
  unfold shortest
  dsimp only
  cases hfound : (List.range 17).findSome? _ with
  | none => exact ⟨_, _, rfl⟩
  | some d =>
    obtain ⟨extra, -, hmap⟩ := List.exists_of_findSome?_eq_some hfound
    obtain ⟨count, -, rfl⟩ := Option.map_eq_some_iff.mp hmap
    exact ⟨count, _, rfl⟩

lemma isDigit_of_mem_shortest : ∀ c ∈ (x.shortest tie).digits, c.isDigit := by
  obtain ⟨count, step, heq⟩ := x.exists_shortest_eq tie
  rw [heq]
  exact isDigit_of_mem_digitsOf

end Binary

namespace Style

lemma numeric_zeros (n : Nat) : Numeric (zeros n) := by
  apply numeric_of_isDigit
  intro c hc
  rw [List.eq_of_mem_replicate hc]
  decide

variable {style : Style} {d : Digits}

lemma numeric_layPositional (hending : Numeric style.wholeEnding.toList)
    (hd : Numeric d.digits) : Numeric (style.layPositional d).toList := by
  have hzero : Numeric "0.".toList := by decide
  unfold layPositional
  dsimp only
  split
  · simp only [String.toList_append, String.toList_ofList, numeric_append]
    exact ⟨hzero, numeric_zeros _, hd⟩
  split
  · simp only [String.toList_append, String.toList_ofList, numeric_append]
    exact ⟨⟨hd, numeric_zeros _⟩, hending⟩
  · rw [String.toList_ofList, numeric_append, numeric_cons]
    exact ⟨hd.subset (List.take_subset _ _), by decide, hd.subset (List.drop_subset _ _)⟩

lemma numeric_layScientific (hd : Numeric d.digits) : Numeric (layScientific d).toList := by
  have htake : Numeric (d.digits.take 1) := hd.subset (List.take_subset _ _)
  have hdrop : Numeric (d.digits.drop 1) := hd.subset (List.drop_subset _ _)
  have hexponent : ∀ n : Nat, Numeric (toString n).toList := by
    intro n
    rw [Nat.toString_eq_ofList_toDigits, String.toList_ofList]
    exact numeric_of_isDigit fun c hc => Nat.isDigit_of_mem_toDigits (by decide) (by decide) hc
  have hfraction : Numeric (if d.digits.length ≤ 1 then [] else '.' :: d.digits.drop 1) := by
    split
    · decide
    · exact numeric_cons.mpr ⟨by decide, hdrop⟩
  have hsign : Numeric (if d.point - 1 < 0 then "e-" else "e+").toList := by
    split <;> decide
  simp only [layScientific, String.toList_append, String.toList_ofList, numeric_append]
  exact ⟨⟨⟨htake, hfraction⟩, hsign⟩, hexponent _⟩

end Style

theorem numeric_write_interchange (x : Float) : Numeric (interchange.write x).toList := by
  have hsign : ∀ negative : Prop, ∀ [Decidable negative],
      Numeric (if negative then "-" else "").toList := by
    intro negative _
    split <;> decide
  have hnull : Numeric "null".toList := by decide
  unfold Style.write Style.writeBits
  dsimp only
  split
  · simp only [String.toList_append, numeric_append]
    exact ⟨⟨hsign _, by decide⟩, by decide⟩
  split
  · split
    · exact hnull
    · exact hnull
  split
  · exact hnull
  · have hdigits : ∀ y : Binary, Numeric (y.shortest interchange.tie).digits :=
      fun y => numeric_of_isDigit (y.isDigit_of_mem_shortest interchange.tie)
    rw [String.toList_append, numeric_append]
    refine ⟨hsign _, ?_⟩
    split
    · exact Style.numeric_layPositional (by decide) (hdigits _)
    · exact Style.numeric_layScientific (hdigits _)

end RegexCompiler.Decimal
