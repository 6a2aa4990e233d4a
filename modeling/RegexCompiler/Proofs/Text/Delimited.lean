import Mathlib.Data.List.Basic
import Mathlib.Tactic.Common

/-!
# Delimited texts

A way of writing values is delimited if a written value shows where it ends: what has been written
and what follows it can both be read back. Texts that are put together from delimited parts are
delimited again, so that a whole export can be read back if each of its parts can.
-/

namespace RegexCompiler.Text

variable {α β : Type}

/-- What is written shows the value and where it ends, if what follows it is of the given kind. -/
def Delimited (write : α → List Char) (follows : List Char → Prop) : Prop :=
  ∀ ⦃a b : α⦄ ⦃s t : List Char⦄,
    follows s → follows t → write a ++ s = write b ++ t → a = b ∧ s = t

/-- The text is empty or begins with another character than those described. -/
def Leaves (p : Char → Bool) (s : List Char) : Prop :=
  ∀ c ∈ s.head?, p c = false

@[simp] lemma leaves_cons {p : Char → Bool} {c : Char} {s : List Char} :
    Leaves p (c :: s) ↔ p c = false := by
  simp [Leaves]

lemma leaves_of_head {p : Char → Bool} {c : Char} {s : List Char} (hs : s.head? = some c)
    (hc : p c = false) : Leaves p s := by
  simp [Leaves, hs, hc]

lemma leaves_append {p : Char → Bool} {x s : List Char} (hx : Leaves p x) (hs : Leaves p s) :
    Leaves p (x ++ s) := by
  cases x with
  | nil => exact hs
  | cons c x => exact leaves_cons.mpr (leaves_cons.mp hx)

lemma takeWhile_append_of_leaves {p : Char → Bool} {x s : List Char} (hx : ∀ c ∈ x, p c)
    (hs : Leaves p s) : (x ++ s).takeWhile p = x := by
  rw [List.takeWhile_append_of_pos hx]
  cases s with
  | nil => simp
  | cons c s => simp [leaves_cons.mp hs]

/-- Any number of values with a separator between them; where there are none, a text of its own. -/
def separated (write : α → List Char) (separator none : List Char) : List α → List Char
  | [] => none
  | x :: xs => write x ++ xs.flatMap fun y => separator ++ write y

lemma separated_map (write : β → List Char) (separator none : List Char) (f : α → β)
    (xs : List α) :
    separated write separator none (xs.map f) =
      separated (fun x => write (f x)) separator none xs := by
  cases xs <;> simp [separated, List.flatMap_map]

lemma intercalate_map (write : α → List Char) (separator : List Char) (xs : List α) :
    separator.intercalate (xs.map write) = separated write separator [] xs := by
  cases xs with
  | nil => simp [separated]
  | cons x xs =>
    rw [separated]
    induction xs generalizing x with
    | nil => simp
    | cons y xs ih =>
      rw [List.map_cons, List.map_cons, List.intercalate_cons_cons, ← List.map_cons, ih]
      simp

namespace Delimited

variable {write : α → List Char} {follows stops : List Char → Prop}

lemma of_forall_mem {p : Char → Bool} (hwrite : Function.Injective write)
    (hp : ∀ a, ∀ c ∈ write a, p c) : Delimited write (Leaves p) := by
  intro a b s t hs ht heq
  have hwords : write a = write b := by
    rw [← takeWhile_append_of_leaves (hp a) hs, heq, takeWhile_append_of_leaves (hp b) ht]
  rw [hwords] at heq
  exact ⟨hwrite hwords, List.append_cancel_left heq⟩

lemma comp (h : Delimited write follows) {f : β → α} (hf : Function.Injective f) :
    Delimited (fun b => write (f b)) follows := by
  intro a b s t hs ht heq
  obtain ⟨hab, hst⟩ := h hs ht heq
  exact ⟨hf hab, hst⟩

lemma between (h : Delimited write follows) (opening closing : List Char)
    (hclosing : ∀ s, stops s → follows (closing ++ s)) :
    Delimited (fun a => opening ++ write a ++ closing) stops := by
  intro a b s t hs ht heq
  simp only [List.append_assoc, List.append_cancel_left_eq] at heq
  obtain ⟨hab, hst⟩ := h (hclosing s hs) (hclosing t ht) heq
  exact ⟨hab, List.append_cancel_left hst⟩

lemma append {write' : β → List Char} (h : Delimited write follows) (h' : Delimited write' stops)
    (hnext : ∀ b s, stops s → follows (write' b ++ s)) :
    Delimited (fun pair : α × β => write pair.1 ++ write' pair.2) stops := by
  rintro ⟨a, a'⟩ ⟨b, b'⟩ s t hs ht heq
  simp only [List.append_assoc] at heq
  obtain ⟨rfl, hrest⟩ := h (hnext a' s hs) (hnext b' t ht) heq
  obtain ⟨rfl, hst⟩ := h' hs ht hrest
  exact ⟨rfl, hst⟩

lemma flatMap (h : Delimited write follows) (hnext : ∀ a s, follows (write a ++ s))
    (hlast : ∀ s, stops s → follows s) (hstops : ∀ a s, ¬stops (write a ++ s)) :
    Delimited (fun values : List α => values.flatMap write) stops := by
  intro xs ys s t hs ht heq
  have hrest : ∀ (zs : List α) u, stops u → follows (zs.flatMap write ++ u) := by
    intro zs u hu
    cases zs with
    | nil => exact hlast u hu
    | cons z zs =>
      rw [List.flatMap_cons, List.append_assoc]
      exact hnext z _
  induction xs generalizing ys with
  | nil =>
    cases ys with
    | nil => exact ⟨rfl, heq⟩
    | cons y ys =>
      simp only [List.flatMap_cons, List.flatMap_nil, List.nil_append, List.append_assoc] at heq
      exact absurd (heq ▸ hs) (hstops y _)
  | cons x xs ih =>
    cases ys with
    | nil =>
      simp only [List.flatMap_cons, List.flatMap_nil, List.nil_append, List.append_assoc] at heq
      exact absurd (heq ▸ ht) (hstops x _)
    | cons y ys =>
      simp only [List.flatMap_cons, List.append_assoc] at heq
      obtain ⟨rfl, htail⟩ := h (hrest xs s hs) (hrest ys t ht) heq
      obtain ⟨rfl, hst⟩ := ih htail
      exact ⟨rfl, hst⟩

/-- Values with a separator between them, if neither a separator nor the text for no values can be
taken for something else. -/
lemma separated (h : Delimited write follows) {separator none : List Char}
    (hseparator : ∀ s, follows (separator ++ s)) (hlast : ∀ s, stops s → follows s)
    (hstops : ∀ s, ¬stops (separator ++ s))
    (hnone : ∀ a s t, stops t → write a ++ s ≠ none ++ t) :
    Delimited (separated write separator none) stops := by
  have hmore : Delimited (List.flatMap fun x => separator ++ write x) stops := by
    have hitem : Delimited (fun x => separator ++ write x) follows := by
      intro a b s t hs ht heq
      simp only [List.append_assoc, List.append_cancel_left_eq] at heq
      exact h hs ht heq
    refine hitem.flatMap (fun a s => ?_) hlast fun a s => ?_
    · rw [List.append_assoc]
      exact hseparator _
    · rw [List.append_assoc]
      exact hstops _
  have hsome : Delimited
      (fun pair : α × List α => write pair.1 ++ pair.2.flatMap fun x => separator ++ write x)
      stops := by
    refine h.append hmore fun xs s hs => ?_
    cases xs with
    | nil => exact hlast s hs
    | cons x xs =>
      rw [List.flatMap_cons, List.append_assoc, List.append_assoc]
      exact hseparator _
  intro xs ys s t hs ht heq
  cases xs with
  | nil =>
    cases ys with
    | nil => exact ⟨rfl, List.append_cancel_left heq⟩
    | cons y ys =>
      rw [Text.separated, Text.separated, List.append_assoc] at heq
      exact absurd heq.symm (hnone y _ s hs)
  | cons x xs =>
    cases ys with
    | nil =>
      rw [Text.separated, Text.separated, List.append_assoc] at heq
      exact absurd heq (hnone x _ t ht)
    | cons y ys =>
      obtain ⟨hpairs, hst⟩ := @hsome (x, xs) (y, ys) s t hs ht heq
      cases hpairs
      exact ⟨rfl, hst⟩

end Delimited

end RegexCompiler.Text
