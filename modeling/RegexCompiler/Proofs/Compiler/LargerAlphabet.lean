import RegexCompiler.Proofs.Compiler.Structure

/-!
# Larger alphabets

Symbols that an expression does not use make no difference. A text is read over a larger alphabet as
over the smaller one, unless a foreign character ended the reading, and since no edge of its
automaton reads one of the further symbols, all sets of states are found in the same order.
-/

namespace RegexCompiler

open RegexCompiler.Graph

variable {κ : Type} {small large : Alphabet}

namespace Regex

/-- The second result is the first one, unless that one is a foreign character. -/
def SameUnlessForeign {α : Type} (x y : Except Fault α) : Prop :=
  (∀ c i, x ≠ .error (.foreign c i)) → y = x

namespace SameUnlessForeign

variable {α β : Type}

lemma refl (x : Except Fault α) : SameUnlessForeign x x :=
  fun _ => rfl

lemma foreign {c : Char} {i : Nat} {y : Except Fault α} :
    SameUnlessForeign (.error (.foreign c i)) y :=
  fun h => absurd rfl (h c i)

lemma bind {x y : Except Fault α} {f g : α → Except Fault β} (h : SameUnlessForeign x y)
    (hrest : ∀ a, x = .ok a → SameUnlessForeign (f a) (g a)) :
    SameUnlessForeign (x >>= f) (y >>= g) := by
  intro hx
  cases x with
  | error fault =>
    have hfault : ∀ c i, (.error fault : Except Fault α) ≠ .error (.foreign c i) := by
      rintro c i heq
      cases heq
      exact hx c i rfl
    rw [h hfault]
    rfl
  | ok a =>
    rw [h fun c i heq => by cases heq]
    exact hrest a rfl hx

end SameUnlessForeign

variable {limit : Option Nat}

section

variable (hsub : ∀ c ∈ small, c ∈ large)
include hsub

lemma checkBalance_larger (text : Located) (opened : List Nat) :
    SameUnlessForeign (checkBalance small text opened) (checkBalance large text opened) := by
  fun_induction checkBalance small text opened with
  | case1 => exact .refl _
  | case2 => exact .refl _
  | case3 i rest opened ih => exact ih
  | case4 i rest => exact .refl _
  | case5 i rest j outer ih => exact ih
  | case6 c i rest opened hopen hclose hknown ih =>
    rw [checkBalance_inner hopen hclose (hknown.imp_right (Or.imp_right (hsub c)))]
    exact ih
  | case7 => exact .foreign

lemma step_larger (before : Located) (c : Char) (i : Nat) (s : Scan) :
    SameUnlessForeign (s.step small limit before c i) (s.step large limit before c i) := by
  unfold Scan.step
  split
  · exact .refl _
  · exact .refl _
  · exact .refl _
  · exact .refl _
  · by_cases hc : c ∈ small
    · rw [if_pos hc, if_pos (hsub c hc)]
      exact .refl _
    · rw [if_neg hc]
      exact .foreign

lemma scan_larger (unread : Located) (s : Scan) :
    SameUnlessForeign (scan small limit unread s) (scan large limit unread s) := by
  induction unread generalizing s with
  | nil => exact .refl _
  | cons located before ih => exact (step_larger hsub before _ _ s).bind fun s' _ => ih s'

theorem parse_larger (text : List Char) :
    SameUnlessForeign (parse small limit text) (parse large limit text) := by
  unfold parse
  refine (checkBalance_larger hsub _ _).bind fun _ _ => ?_
  refine (SameUnlessForeign.refl _).bind fun depth _ => ?_
  exact (scan_larger hsub _ _).bind fun s _ => .refl _

end

end Regex

namespace Graph

variable {g : Graph State κ}

variable (hsub : ∀ c ∈ small, c ∈ large)
  (hused : ∀ {v c w}, g.Arrow v (.symbol c) w → c ∈ small)
include hsub hused

/-- The further symbols lead nowhere, and the symbols of both alphabets come in the same order. -/
lemma moves_larger (s : StateSet) : g.moves large s = g.moves small s := by
  have hsymbols : small.symbols = large.symbols.filter (· ∈ small) := by
    apply Ascending.ext small.ascending (large.ascending.filter _)
    intro c
    rw [List.mem_filter, decide_eq_true_iff]
    exact ⟨fun hc => ⟨hsub c hc, hc⟩, And.right⟩
  unfold moves
  rw [hsymbols, List.filterMap_filter]
  apply List.filterMap_congr
  intro c _
  by_cases hc : c ∈ small
  · simp [hc]
  · have hnone : (g.successorSet s c).members = [] := by
      rw [List.eq_nil_iff_forall_not_mem]
      intro v hv
      obtain ⟨u, -, ha⟩ := mem_successorSet.mp hv
      exact hc (hused ha)
    simp [hc, hnone]

theorem determinize_larger : g.determinize large = g.determinize small := by
  have hmoves : g.moves large = g.moves small := funext (moves_larger hsub hused)
  exact determinize_eq_of_moves hmoves rfl rfl

end Graph

lemma Stages.ofRegex_larger (hsub : ∀ c ∈ small, c ∈ large) {r : Regex} (hr : r.WellFormed small) :
    (ofRegex large r : Stages κ) = ofRegex small r := by
  have hsets := determinize_larger hsub fun {_ _ _} =>
    hr.mem_alphabet_of_arrow (coherent_elimination hr) (trim_elimination (κ := κ) hr)
      fun _ => leads_elimination hr
  rw [elimination_ofRegex] at hsets
  unfold ofRegex
  dsimp only
  rw [hsets]

lemma Compiler.compile_larger [Coordinate κ] (hsub : ∀ c ∈ small, c ∈ large) (layout : Bool)
    (limit : Option Nat) (text : String) :
    Regex.SameUnlessForeign (compile ⟨small, layout, limit⟩ κ text)
      (compile ⟨large, layout, limit⟩ κ text) := by
  refine (Regex.parse_larger hsub text.toList).bind fun r hr => ?_
  rw [Stages.ofRegex_larger hsub (Regex.parse_sound hr).1]
  exact .refl _

/-- Symbols that a text does not use make no difference to its compilation. What is compiled over an
alphabet is compiled over every larger one to the same tree and the same automata, with all their
orders and positions, and a fault is the same fault there, unless it is a foreign character. -/
theorem compile_larger_alphabet [Coordinate κ] (small large : Alphabet)
    (hsub : ∀ c ∈ small, c ∈ large) (layout : Bool) (limit : Option Nat) (text : String) :
    (∀ automata, Compiler.compile ⟨small, layout, limit⟩ κ text = .ok automata →
        Compiler.compile ⟨large, layout, limit⟩ κ text = .ok automata) ∧
      ∀ fault, Compiler.compile ⟨small, layout, limit⟩ κ text = .error fault →
        (∀ c i, fault ≠ .foreign c i) →
          Compiler.compile ⟨large, layout, limit⟩ κ text = .error fault := by
  have hsame := Compiler.compile_larger (κ := κ) hsub layout limit text
  constructor
  · intro automata hsmall
    rw [← hsmall]
    apply hsame
    intro c i hforeign
    rw [hsmall] at hforeign
    cases hforeign
  · intro fault hsmall hfault
    rw [← hsmall]
    apply hsame
    intro c i hforeign
    rw [hsmall] at hforeign
    exact hfault c i (Except.error.inj hforeign)

/-- A further symbol between those that are used, in a text with a loop and in a faulty one. -/
theorem compile_larger_alphabet_between :
    ∃ small large : Alphabet, (∀ c ∈ small, c ∈ large) ∧ 'b' ∈ large ∧ 'b' ∉ small ∧
      (∃ automata, Compiler.compile ⟨small, true, none⟩ Rat "(a+c)*a" = .ok automata ∧
        Compiler.compile ⟨large, true, none⟩ Rat "(a+c)*a" = .ok automata) ∧
      Compiler.compile ⟨large, true, none⟩ Rat "a+" = .error (.dangling '+' 1) := by
  have hadmissible : ∀ c ∈ ['a', 'b', 'c'], symbolRefusal c = none := by
    simp [symbolRefusal, reservedCharacters, Text.isBlank, Text.CodeRanges.contains,
      Text.blankRanges]
  have hsub : ∀ c ∈ ['a', 'c'], c ∈ ['a', 'b', 'c'] := by simp
  have hlarge : 'b' ∈ ['a', 'b', 'c'] := by decide
  have hsmall : 'b' ∉ ['a', 'c'] := by decide
  let small : Alphabet :=
    ⟨['a', 'c'], by decide, fun c hc => hadmissible c (hsub c hc), by decide⟩
  let large : Alphabet := ⟨['a', 'b', 'c'], by decide, hadmissible, by decide⟩
  have hparse : (⟨small, true, none⟩ : Compiler).parse "(a+c)*a" =
      .ok (.word [.star (.word [.union (.start 'a') (.letter 'c')]), .letter 'a']) := by
    rfl
  have hfault : Compiler.compile ⟨small, true, none⟩ Rat "a+" = .error (.dangling '+' 1) := by
    rfl
  obtain ⟨automata, hautomata⟩ := Compiler.exists_compile_of_parse (κ := Rat) hparse
  refine ⟨small, large, hsub, hlarge, hsmall, ⟨automata, hautomata, ?_⟩, ?_⟩
  · exact (compile_larger_alphabet small large hsub true none _).1 automata hautomata
  · exact (compile_larger_alphabet small large hsub true none _).2 _ hfault fun c i h => by cases h

end RegexCompiler
