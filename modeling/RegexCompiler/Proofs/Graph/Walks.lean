import Mathlib.Tactic.Common
import RegexCompiler.Graph.Path

/-!
# Walks

Walks are put together and taken apart along their words. The last lemmas follow a walk through a
part of a graph: what the arrows of the part cannot leave except at one vertex is either never left
or left there.
-/

namespace RegexCompiler.Walk

variable {V : Type} {arrows : Arrows V}

lemma single {u v : V} {label : Label} (h : arrows u label v) : Walk arrows u label.word v := by
  have hw : Walk arrows u (label.word ++ []) v := .cons h (.refl v)
  rwa [List.append_nil] at hw

lemma mono {others : Arrows V} (hsub : ∀ u label v, arrows u label v → others u label v)
    {u v : V} {word : List Char} (h : Walk arrows u word v) : Walk others u word v := by
  induction h with
  | refl => exact .refl _
  | cons ha _ ih => exact .cons (hsub _ _ _ ha) ih

/-- Induction on a walk to a fixed vertex, from its end to its beginning. -/
@[elab_as_elim]
theorem head_induction {w : V} {motive : ∀ u word, Walk arrows u word w → Prop}
    (refl : motive w [] (.refl w))
    (cons : ∀ {u v : V} {label : Label} {word : List Char} (ha : arrows u label v)
      (hw : Walk arrows v word w), motive v word hw → motive u (label.word ++ word) (.cons ha hw))
    {u : V} {word : List Char} (h : Walk arrows u word w) : motive u word h := by
  induction h with
  | refl => exact refl
  | cons ha hw ih => exact cons ha hw (ih refl cons)

lemma exists_of_symbol {u w : V} {c : Char} {word : List Char}
    (h : Walk arrows u (c :: word) w) :
    ∃ x y, Walk arrows u [] x ∧ arrows x (.symbol c) y ∧ Walk arrows y word w := by
  generalize hcw : c :: word = whole at h
  induction h with
  | refl => cases hcw
  | @cons u v w label rest ha hrest ih =>
    cases label with
    | symbol d =>
      simp only [Label.word, List.cons_append, List.nil_append, List.cons.injEq] at hcw
      obtain ⟨rfl, rfl⟩ := hcw
      exact ⟨u, v, .refl u, ha, hrest⟩
    | epsilon =>
      obtain ⟨x, y, hx, hxy, hy⟩ := ih hcw
      exact ⟨x, y, .cons ha hx, hxy, hy⟩

theorem symbol_iff {u w : V} {c : Char} {word : List Char} :
    Walk arrows u (c :: word) w ↔
      ∃ x y, Walk arrows u [] x ∧ arrows x (.symbol c) y ∧ Walk arrows y word w := by
  constructor
  · exact exists_of_symbol
  · rintro ⟨x, y, hx, hxy, hy⟩
    exact hx.trans (Walk.cons hxy hy)

lemma eq_of_stuck {t w : V} {word : List Char} (hstuck : ∀ label v, ¬arrows t label v)
    (h : Walk arrows t word w) : word = [] ∧ w = t := by
  cases h with
  | refl => exact ⟨rfl, rfl⟩
  | cons ha _ => exact absurd ha (hstuck _ _)

lemma eq_or_exists_last {u w : V} {word : List Char} (h : Walk arrows u word w) :
    (word = [] ∧ u = w) ∨ ∃ v label, arrows v label w := by
  induction h using head_induction with
  | refl => exact Or.inl ⟨rfl, rfl⟩
  | @cons u v label word ha _ ih =>
    right
    rcases ih with ⟨-, rfl⟩ | hlast
    · exact ⟨u, label, ha⟩
    · exact hlast

/-- A walk from a part that can only be left over the arrows `inner` at `t` comes to `t` over these
arrows, if it does not end inside. -/
lemma exists_leave {inner : Arrows V} {part : V → Prop} {t : V}
    (hinner : ∀ {u label v}, part u → arrows u label v → inner u label v ∧ (part v ∨ v = t))
    {u w : V} {word : List Char} (h : Walk arrows u word w) (hu : part u) (hw : ¬part w) :
    ∃ first rest, word = first ++ rest ∧ Walk inner u first t ∧ Walk arrows t rest w := by
  induction h with
  | refl => exact absurd hu hw
  | @cons u v w label word ha hrest ih =>
    obtain ⟨hi, hv | rfl⟩ := hinner hu ha
    · obtain ⟨first, rest, rfl, hfirst, hlast⟩ := ih hv hw
      exact ⟨label.word ++ first, rest, (List.append_assoc ..).symm, .cons hi hfirst, hlast⟩
    · exact ⟨label.word, word, rfl, single hi, hrest⟩

lemma confined {inner : Arrows V} {part : V → Prop} {t : V}
    (hinner : ∀ {u label v}, part u → arrows u label v → inner u label v ∧ (part v ∨ v = t))
    (hstuck : ∀ label v, ¬arrows t label v) (ht : ¬part t) {u : V} {word : List Char}
    (h : Walk arrows u word t) (hu : part u) : Walk inner u word t := by
  obtain ⟨first, rest, rfl, hfirst, hrest⟩ := exists_leave hinner h hu ht
  obtain ⟨rfl, -⟩ := eq_of_stuck hstuck hrest
  rwa [List.append_nil]

end RegexCompiler.Walk
