import RegexCompiler.Graph.State
import RegexCompiler.Proofs.Text.Delimited

/-!
# Names of vertices

No two states have the same name, and neither have two sets of states: the commas and braces of a
set show which names it was put together from.
-/

namespace RegexCompiler

open Text

namespace State

lemma isDigit_of_mem_toString {n : Nat} {c : Char} (h : c ∈ (toString n).toList) : c.isDigit := by
  rw [Nat.toString_eq_ofList_toDigits, String.toList_ofList] at h
  exact Nat.isDigit_of_mem_toDigits (by decide) (by decide) h

lemma isAlphanum_of_mem_name (v : State) : ∀ c ∈ v.name.toList, c.isAlphanum := by
  cases v with
  | start => exact List.all_eq_true.mp (by decide)
  | fresh n =>
    intro c hc
    simp [Char.isAlphanum, isDigit_of_mem_toString hc]
  | final => exact List.all_eq_true.mp (by decide)

lemma not_leaves_name_append (v : State) (s : List Char) :
    ¬Leaves Char.isAlphanum (v.name.toList ++ s) := by
  have hne : v.name.toList ≠ [] := by
    cases v with
    | start => decide
    | fresh n =>
      rw [name, Nat.toString_eq_ofList_toDigits, String.toList_ofList]
      exact Nat.toDigits_ne_nil
    | final => decide
  obtain ⟨c, rest, hword⟩ := List.exists_cons_of_ne_nil hne
  have hc := v.isAlphanum_of_mem_name c (by simp [hword])
  simp [hword, hc]

lemma toString_ne {word : String} {c : Char} (hc : c ∈ word.toList) (hdigit : c.isDigit = false)
    (n : Nat) : toString n ≠ word := by
  rintro rfl
  rw [isDigit_of_mem_toString hc] at hdigit
  exact absurd hdigit (by decide)

theorem name_injective : Function.Injective name := by
  have hstart := @toString_ne "start" 's' (by decide) (by decide)
  have hfinal := @toString_ne "final" 'f' (by decide) (by decide)
  intro v w h
  cases v <;> cases w <;> simp only [name] at h
  case fresh.fresh m n =>
    have hdigits : Nat.toDigits 10 m = Nat.toDigits 10 n := by
      rwa [Nat.toString_eq_ofList_toDigits, Nat.toString_eq_ofList_toDigits,
        String.ofList_inj] at h
    rw [← Nat.ofDigitChars_ten_toDigits (n := m), hdigits, Nat.ofDigitChars_ten_toDigits]
  all_goals grind

theorem name_delimited : Delimited (fun v => (name v).toList) (Leaves Char.isAlphanum) :=
  Delimited.of_forall_mem (fun _ _ h => name_injective (String.toList_inj.mp h))
    isAlphanum_of_mem_name

/-- Names with commas between them, if what stands there for no names and what follows the last one
do not look like a part of a name. -/
lemma names_delimited {none : List Char} {stop : Char} (hnone : Leaves Char.isAlphanum none)
    (hstop : stop.isAlphanum = false) (hcomma : stop ≠ ',') :
    Delimited (separated (fun v => (name v).toList) [',', ' '] none) (·.head? = some stop) := by
  apply name_delimited.separated
  · simp
  · intro s hs
    exact leaves_of_head hs hstop
  · simpa using hcomma.symm
  · intro v s t ht heq
    apply v.not_leaves_name_append s
    rw [heq]
    exact leaves_append hnone (leaves_of_head ht hstop)

end State

namespace StateSet

lemma toList_name (s : StateSet) : s.name.toList =
    '\x7b' :: (separated (·.name.toList) [',', ' '] [] s.members ++ ['\x7d']) := by
  rw [← intercalate_map]
  simp only [name, String.toList_append, String.toList_intercalate, List.map_map]
  rfl

theorem name_injective : Function.Injective name := by
  have hmembers : Delimited (separated (fun v : State => v.name.toList) [',', ' '] [])
      (·.head? = some '\x7d') :=
    State.names_delimited (by simp [Leaves]) (by decide) (by decide)
  intro s t h
  have hwritten := congrArg String.toList h
  rw [toList_name, toList_name, List.cons.injEq] at hwritten
  have hst : s.members = t.members := (hmembers rfl rfl hwritten.2).1
  cases s
  cases t
  simpa using hst

end StateSet

end RegexCompiler
