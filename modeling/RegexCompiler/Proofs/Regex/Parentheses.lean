import Mathlib.Data.Nat.SuccPred
import Mathlib.Order.Nat
import RegexCompiler.Proofs.Regex.Completeness
import RegexCompiler.Regex.Refusal

/-!
# The first pass

After any number of characters the first pass keeps the positions of the parentheses that are open
there, the innermost first. The parenthesis that is closed next is the first of them, and what
stands between the two is balanced. So the pass finds the leftmost character that is out of place,
and otherwise the last parenthesis that is not closed.
-/

namespace RegexCompiler.Regex

variable {alphabet : Alphabet} {text : List Char}

lemma between_self {i : Nat} : between text i i = [] := by
  simp [between]

lemma between_succ {i k : Nat} {c : Char} (hc : text[k]? = some c) (hik : i ≤ k) :
    between text i (k + 1) = between text i k ++ [c] := by
  obtain ⟨hk, -⟩ := List.getElem?_eq_some_iff.mp hc
  have hlength : i ≤ (text.take k).length := by
    rw [List.length_take]
    omega
  rw [between, List.take_add_one, hc, Option.toList_some, List.drop_append_of_le_length hlength]
  rfl

lemma between_of_length_le {i k : Nat} (hk : text.length ≤ k) :
    between text i (k + 1) = between text i k := by
  rw [between, between, List.take_of_length_le hk, List.take_of_length_le (Nat.le_succ_of_le hk)]

lemma between_append {i j k : Nat} (hij : i ≤ j) (hjk : j ≤ k) :
    between text i j ++ between text j k = between text i k := by
  induction k, hjk using Nat.le_induction with
  | base => rw [between_self, List.append_nil]
  | succ k hjk ih =>
    cases hc : text[k]? with
    | none =>
      have hk : text.length ≤ k := List.getElem?_eq_none_iff.mp hc
      rw [between_of_length_le hk, between_of_length_le hk, ih]
    | some c =>
      rw [between_succ hc hjk, between_succ hc (Nat.le_trans hij hjk), ← List.append_assoc, ih]

lemma between_group {i q k : Nat} (hopen : text[q]? = some '(') (hclose : text[k]? = some ')')
    (hiq : i ≤ q) (hqk : q < k) :
    between text i (k + 1) =
      between text i q ++ ('(' :: between text (q + 1) k ++ [')']) := by
  have hqk' : q ≤ k := Nat.le_of_lt hqk
  have hfirst : between text q (q + 1) = ['('] := by
    rw [between_succ hopen (Nat.le_refl q), between_self, List.nil_append]
  rw [between_succ hclose (Nat.le_trans hiq hqk'), ← between_append hiq hqk',
    ← between_append (Nat.le_succ q) hqk, hfirst, List.append_assoc, List.append_assoc]
  rfl

lemma length_between {i j : Nat} (hj : j ≤ text.length) : (between text i j).length = j - i := by
  rw [between, List.length_drop, List.length_take, Nat.min_eq_left hj]

lemma drop_eq_between_append {i j : Nat} (hij : i ≤ j) :
    text.drop i = between text i j ++ text.drop j := by
  rcases Nat.le_total j text.length with hj | hj
  · have hlength : i ≤ (text.take j).length := by
      rw [List.length_take]
      omega
    rw [between, ← List.drop_append_of_le_length hlength, List.take_append_drop]
  · rw [between, List.take_of_length_le hj, List.drop_eq_nil_of_le hj, List.append_nil]

lemma drop_eq_cons {i : Nat} {c : Char} {rest : List Char} (h : text.drop i = c :: rest) :
    text[i]? = some c ∧ text.drop (i + 1) = rest := by
  constructor
  · rw [← List.head?_drop, h, List.head?_cons]
  · rw [← List.drop_drop, h, List.drop_one, List.tail_cons]

lemma drop_eq_append {i : Nat} {first rest : List Char} (h : text.drop i = first ++ rest) :
    text.drop (i + first.length) = rest := by
  rw [← List.drop_drop, h, List.drop_left]

/-! ### Open parentheses -/

/-- The positions of the parentheses that are open after some characters, the innermost first. -/
def opened (text : List Char) : Nat → List Nat
  | 0 => []
  | k + 1 =>
    match text[k]? with
    | some '(' => k :: opened text k
    | some ')' => (opened text k).tail
    | _ => opened text k

lemma opened_open {k : Nat} (hc : text[k]? = some '(') :
    opened text (k + 1) = k :: opened text k := by
  simp only [opened, hc]

lemma opened_close {k : Nat} (hc : text[k]? = some ')') :
    opened text (k + 1) = (opened text k).tail := by
  simp only [opened, hc]

lemma opened_plain {k : Nat} (hopen : text[k]? ≠ some '(') (hclose : text[k]? ≠ some ')') :
    opened text (k + 1) = opened text k := by
  rw [opened]
  split
  · exact absurd ‹_› hopen
  · exact absurd ‹_› hclose
  · rfl

lemma opened_other {k : Nat} {c : Char} (hc : text[k]? = some c) (hopen : c ≠ '(')
    (hclose : c ≠ ')') : opened text (k + 1) = opened text k :=
  opened_plain (by simpa [hc] using hopen) (by simpa [hc] using hclose)

lemma mem_opened_succ {i k : Nat} (h : i ∈ opened text (k + 1)) :
    i ∈ opened text k ∨ i = k ∧ text[k]? = some '(' := by
  by_cases hopen : text[k]? = some '('
  · rw [opened_open hopen, List.mem_cons] at h
    exact h.symm.imp id fun hik => ⟨hik, hopen⟩
  by_cases hclose : text[k]? = some ')'
  · rw [opened_close hclose] at h
    exact Or.inl (List.mem_of_mem_tail h)
  · rw [opened_plain hopen hclose] at h
    exact Or.inl h

lemma mem_opened {i k : Nat} (h : i ∈ opened text k) : i < k ∧ text[i]? = some '(' := by
  induction k with
  | zero => cases h
  | succ k ih =>
    rcases mem_opened_succ h with h | ⟨rfl, hopen⟩
    · exact ⟨Nat.lt_succ_of_lt (ih h).1, (ih h).2⟩
    · exact ⟨Nat.lt_succ_self i, hopen⟩

lemma opened_descending (text : List Char) (k : Nat) : (opened text k).Pairwise (· > ·) := by
  induction k with
  | zero => exact List.Pairwise.nil
  | succ k ih =>
    by_cases hopen : text[k]? = some '('
    · rw [opened_open hopen]
      exact List.Pairwise.cons (fun i hi => (mem_opened hi).1) ih
    by_cases hclose : text[k]? = some ')'
    · rw [opened_close hclose]
      exact ih.tail
    · rwa [opened_plain hopen hclose]

lemma not_mem_opened {i k m : Nat} (hik : i < k) (h : i ∉ opened text k) (hkm : k ≤ m) :
    i ∉ opened text m := by
  induction m, hkm using Nat.le_induction with
  | base => exact h
  | succ m hkm ih =>
    intro hm
    rcases mem_opened_succ hm with hm | ⟨rfl, -⟩
    · exact ih hm
    · omega

lemma Balanced.append {first rest : List Char} (hfirst : Balanced first) (hrest : Balanced rest) :
    Balanced (first ++ rest) := by
  induction hfirst with
  | empty => exact hrest
  | plain hopen hclose _ ih => exact .plain hopen hclose ih
  | @group inner text hinner _ _ ih =>
    rw [List.append_assoc, List.cons_append]
    exact .group hinner ih

lemma Balanced.of_group {inner : List Char} (h : Balanced inner) :
    Balanced ('(' :: inner ++ [')']) :=
  .group h .empty

lemma opened_of_balanced {segment : List Char} (h : Balanced segment) :
    ∀ {i : Nat} {rest : List Char}, text.drop i = segment ++ rest →
      opened text (i + segment.length) = opened text i := by
  induction h with
  | empty => exact fun _ => rfl
  | @plain c segment hopen hclose _ ih =>
    intro i rest hdrop
    obtain ⟨hc, htail⟩ := drop_eq_cons hdrop
    rw [List.length_cons, ← Nat.add_assoc, Nat.add_right_comm, ih htail]
    exact opened_other hc hopen hclose
  | @group inner segment _ _ ihinner ih =>
    intro i rest hdrop
    simp only [List.append_assoc, List.cons_append] at hdrop
    obtain ⟨hopen, hinner⟩ := drop_eq_cons hdrop
    have hbefore : opened text (i + 1 + inner.length) = i :: opened text i := by
      rw [ihinner hinner, opened_open hopen]
    obtain ⟨hclose, hsegment⟩ := drop_eq_cons (drop_eq_append hinner)
    have hlength : i + ('(' :: inner ++ ')' :: segment).length =
        i + 1 + inner.length + 1 + segment.length := by
      simp only [List.length_append, List.length_cons]
      omega
    rw [hlength, ih hsegment, opened_close hclose, hbefore, List.tail_cons]

lemma balanced_of_opened {k : Nat} : ∀ {i : Nat} {outer : List Nat}, opened text k = i :: outer →
    Balanced (between text (i + 1) k) ∧ opened text i = outer := by
  induction k using Nat.strongRecOn with
  | ind k ih =>
  intro i outer h
  cases k with
  | zero => cases h
  | succ k =>
  have hstill (hbefore : opened text k = i :: outer) : i + 1 ≤ k :=
    (mem_opened (hbefore ▸ List.mem_cons_self)).1
  cases hc : text[k]? with
  | none =>
    have hplain : opened text (k + 1) = opened text k := opened_plain (by simp [hc]) (by simp [hc])
    rw [hplain] at h
    rw [between_of_length_le (List.getElem?_eq_none_iff.mp hc)]
    exact ih k (Nat.lt_succ_self k) h
  | some c =>
  by_cases hopen : c = '('
  · subst hopen
    rw [opened_open hc, List.cons.injEq] at h
    obtain ⟨rfl, rfl⟩ := h
    rw [between_self]
    exact ⟨.empty, rfl⟩
  by_cases hclose : c = ')'
  · -- the group that ends here, and what stands between it and the parenthesis
    subst hclose
    rw [opened_close hc] at h
    obtain ⟨q, inner, hk⟩ : ∃ q inner, opened text k = q :: inner := by
      cases hk : opened text k with
      | nil => simp [hk] at h
      | cons q inner => exact ⟨q, inner, rfl⟩
    rw [hk, List.tail_cons] at h
    subst h
    obtain ⟨hq, hqopen⟩ := mem_opened (hk ▸ List.mem_cons_self)
    obtain ⟨hgroup, hbefore⟩ := ih k (Nat.lt_succ_self k) hk
    obtain ⟨hbalanced, houter⟩ := ih q (Nat.lt_succ_of_lt hq) hbefore
    have hi : i + 1 ≤ q := (mem_opened (hbefore ▸ List.mem_cons_self)).1
    rw [between_group hqopen hc hi hq]
    exact ⟨hbalanced.append hgroup.of_group, houter⟩
  · rw [opened_other hc hopen hclose] at h
    obtain ⟨hbalanced, houter⟩ := ih k (Nat.lt_succ_self k) h
    rw [between_succ hc (hstill h)]
    exact ⟨hbalanced.append (.plain hopen hclose .empty), houter⟩

/-- A closing parenthesis closes the first of those that are open before it. -/
theorem closes_iff {i j : Nat} :
    Closes text i j ↔ text[j]? = some ')' ∧ ∃ outer, opened text j = i :: outer := by
  constructor
  · rintro ⟨hij, hopen, hclose, hbalanced⟩
    refine ⟨hclose, opened text i, ?_⟩
    have hj : j < text.length := (List.getElem?_eq_some_iff.mp hclose).1
    have hinner := opened_of_balanced hbalanced (drop_eq_between_append hij)
    rw [length_between (Nat.le_of_lt hj), Nat.add_sub_cancel' hij] at hinner
    rw [hinner, opened_open hopen]
  · rintro ⟨hclose, outer, houter⟩
    obtain ⟨hij, hopen⟩ := mem_opened (houter ▸ List.mem_cons_self)
    exact ⟨hij, hopen, hclose, (balanced_of_opened houter).1⟩

lemma Closes.opened_succ {i j : Nat} (h : Closes text i j) : i ∉ opened text (j + 1) := by
  obtain ⟨hclose, outer, houter⟩ := closes_iff.mp h
  have hdescending := opened_descending text j
  rw [houter, List.pairwise_cons] at hdescending
  rw [opened_close hclose, houter, List.tail_cons]
  exact fun hi => Nat.lt_irrefl i (hdescending.1 i hi)

lemma Closes.unique {i j j' : Nat} (h : Closes text i j) (h' : Closes text i j') : j = j' := by
  have hnot {a b : Nat} (ha : Closes text i a) (hb : Closes text i b) : ¬a < b := by
    intro hab
    obtain ⟨-, outer, houter⟩ := closes_iff.mp hb
    refine not_mem_opened (Nat.lt_succ_of_lt ha.1) ha.opened_succ hab ?_
    rw [houter]
    exact List.mem_cons_self
  exact Nat.le_antisymm (Nat.not_lt.mp (hnot h' h)) (Nat.not_lt.mp (hnot h h'))

lemma opened_ne_nil_of_not_misplaced {k : Nat} (hclose : text[k]? = some ')')
    (h : ¬Misplaced alphabet text k) : opened text k ≠ [] := by
  intro hnil
  refine h (Or.inr ⟨hclose, fun j hj => ?_⟩)
  obtain ⟨-, outer, houter⟩ := closes_iff.mp hj
  rw [hnil] at houter
  cases houter

lemma unclosed_iff {i : Nat} : Unclosed text i ↔ i ∈ opened text text.length := by
  constructor
  · rintro ⟨hopen, hnever⟩
    have hi : i < text.length := (List.getElem?_eq_some_iff.mp hopen).1
    have hstill : ∀ k, i + 1 ≤ k → i ∈ opened text k := by
      intro k hk
      induction k, hk using Nat.le_induction with
      | base => simp [opened_open hopen]
      | succ k hk ih =>
        by_cases hc : text[k]? = some '('
        · rw [opened_open hc]
          exact List.mem_cons_of_mem _ ih
        by_cases hclose : text[k]? = some ')'
        · rw [opened_close hclose]
          cases hk : opened text k with
          | nil => simp [hk] at ih
          | cons q outer =>
            rw [hk, List.mem_cons] at ih
            refine ih.resolve_left ?_
            rintro rfl
            exact hnever k (closes_iff.mpr ⟨hclose, outer, hk⟩)
        · rwa [opened_plain hc hclose]
    exact hstill _ hi
  · intro hi
    refine ⟨(mem_opened hi).2, fun j hj => ?_⟩
    have hlt : j < text.length := (List.getElem?_eq_some_iff.mp hj.2.2.1).1
    exact not_mem_opened (Nat.lt_succ_of_lt hj.1) hj.opened_succ hlt hi

lemma mem_alphabet_of_not_misplaced {k : Nat} {c : Char} (h : ¬Misplaced alphabet text k)
    (hc : text[k]? = some c) (hordinary : c ∉ ['(', ')', '*', '+']) : c ∈ alphabet := by
  by_contra hforeign
  exact h (Or.inl ⟨c, hc, hforeign, hordinary⟩)

/-! ### The pass -/

lemma drop_zipIdx {k : Nat} {c : Char} (hc : text[k]? = some c) :
    text.zipIdx.drop k = (c, k) :: text.zipIdx.drop (k + 1) := by
  obtain ⟨hk, rfl⟩ := List.getElem?_eq_some_iff.mp hc
  have hlt : k < text.zipIdx.length := by simpa using hk
  rw [List.drop_eq_getElem_cons hlt]
  simp

lemma checkBalance_next {k : Nat} {c : Char} (hc : text[k]? = some c)
    (hplace : ¬Misplaced alphabet text k) :
    checkBalance alphabet (text.zipIdx.drop k) (opened text k) =
      checkBalance alphabet (text.zipIdx.drop (k + 1)) (opened text (k + 1)) := by
  rw [drop_zipIdx hc]
  by_cases hopen : c = '('
  · subst hopen
    rw [checkBalance, opened_open hc]
  by_cases hclose : c = ')'
  · subst hclose
    have hne := opened_ne_nil_of_not_misplaced hc hplace
    rw [opened_close hc]
    cases hk : opened text k with
    | nil => exact absurd hk hne
    | cons q outer => rw [checkBalance, List.tail_cons]
  · have hknown : c = '*' ∨ c = '+' ∨ c ∈ alphabet := by
      by_contra hnot
      push Not at hnot
      exact hnot.2.2 (mem_alphabet_of_not_misplaced hplace hc (by simp [*]))
    rw [checkBalance_inner hopen hclose hknown, opened_other hc hopen hclose]

lemma checkBalance_misplaced {k : Nat} {c : Char} (hc : text[k]? = some c)
    (hplace : Misplaced alphabet text k) :
    checkBalance alphabet (text.zipIdx.drop k) (opened text k) =
      .error (if c = ')' then .unopened k else .foreign c k) := by
  rw [drop_zipIdx hc]
  rcases hplace with ⟨d, hd, hforeign, hordinary⟩ | ⟨hclose, hnever⟩
  · obtain rfl : c = d := Option.some.inj (hc.symm.trans hd)
    simp only [List.mem_cons, List.not_mem_nil, or_false, not_or] at hordinary
    obtain ⟨hopen, hclose, hstar, hplus⟩ := hordinary
    rw [if_neg hclose, checkBalance]
    · exact if_neg (by simp [hstar, hplus, hforeign])
    · exact fun h => absurd h hopen
    · exact fun h => absurd h hclose
  · obtain rfl : c = ')' := Option.some.inj (hc.symm.trans hclose)
    rw [if_pos rfl]
    cases hk : opened text k with
    | nil => rw [checkBalance]
    | cons q outer => exact absurd (closes_iff.mpr ⟨hclose, outer, hk⟩) (hnever q)

lemma checkBalance_upto {k : Nat} (hk : k ≤ text.length)
    (hplace : ∀ i < k, ¬Misplaced alphabet text i) :
    checkBalance alphabet text.zipIdx [] =
      checkBalance alphabet (text.zipIdx.drop k) (opened text k) := by
  induction k with
  | zero => rfl
  | succ k ih =>
    have hc := List.getElem?_eq_getElem (Nat.lt_of_succ_le hk)
    rw [ih (Nat.le_of_succ_le hk) fun i hi => hplace i (Nat.lt_succ_of_lt hi),
      checkBalance_next hc (hplace k (Nat.lt_succ_self k))]

lemma Misplaced.exists_char {i : Nat} (h : Misplaced alphabet text i) :
    ∃ c, text[i]? = some c := by
  rcases h with ⟨c, hc, -⟩ | ⟨hc, -⟩
  · exact ⟨c, hc⟩
  · exact ⟨')', hc⟩

theorem checkBalance_of_isLeast {i : Nat} {c : Char}
    (h : IsLeast {i | Misplaced alphabet text i} i) (hc : text[i]? = some c) :
    checkBalance alphabet text.zipIdx [] =
      .error (if c = ')' then .unopened i else .foreign c i) := by
  have hi : i < text.length := (List.getElem?_eq_some_iff.mp hc).1
  have hbefore : ∀ j < i, ¬Misplaced alphabet text j := fun j hj hplace =>
    Nat.not_le.mpr hj (h.2 hplace)
  rw [checkBalance_upto (Nat.le_of_lt hi) hbefore, checkBalance_misplaced hc h.1]

lemma checkBalance_of_placed (h : ∀ i, ¬Misplaced alphabet text i) :
    checkBalance alphabet text.zipIdx [] = checkBalance alphabet [] (opened text text.length) := by
  rw [checkBalance_upto (Nat.le_refl _) fun i _ => h i, List.drop_eq_nil_of_le (by simp)]

theorem checkBalance_of_isGreatest (hplace : ∀ i, ¬Misplaced alphabet text i) {i : Nat}
    (h : IsGreatest {i | Unclosed text i} i) :
    checkBalance alphabet text.zipIdx [] = .error (.unclosed i) := by
  rw [checkBalance_of_placed hplace]
  have hi := unclosed_iff.mp h.1
  cases hopened : opened text text.length with
  | nil => simp [hopened] at hi
  | cons j outer =>
    have hj : Unclosed text j := unclosed_iff.mpr (by simp [hopened])
    have hdescending := opened_descending text text.length
    rw [hopened, List.pairwise_cons] at hdescending
    rw [hopened, List.mem_cons] at hi
    have hle : j ≤ i := h.2 hj
    rcases hi with rfl | hi
    · rfl
    · exact absurd (hdescending.1 i hi) (Nat.not_lt.mpr hle)

lemma exists_isLeast_misplaced (h : ∃ i, Misplaced alphabet text i) :
    ∃ i c, IsLeast {i | Misplaced alphabet text i} i ∧ text[i]? = some c := by
  classical
  have hleast := Nat.isLeast_find h
  obtain ⟨c, hc⟩ := hleast.1.exists_char
  exact ⟨Nat.find h, c, hleast, hc⟩

lemma checkBalance_eq_ok_iff : checkBalance alphabet text.zipIdx [] = .ok () ↔
    (∀ i, ¬Misplaced alphabet text i) ∧ opened text text.length = [] := by
  constructor
  · intro h
    have hplace : ∀ i, ¬Misplaced alphabet text i := by
      by_contra hnot
      push Not at hnot
      obtain ⟨i, c, hleast, hc⟩ := exists_isLeast_misplaced hnot
      rw [checkBalance_of_isLeast hleast hc] at h
      cases h
    refine ⟨hplace, ?_⟩
    rw [checkBalance_of_placed hplace] at h
    cases hopened : opened text text.length with
    | nil => rfl
    | cons j outer =>
      rw [hopened, checkBalance] at h
      cases h
  · rintro ⟨hplace, hopened⟩
    rw [checkBalance_of_placed hplace, hopened, checkBalance]

/-- The characters before a position, the last one first. -/
def front (text : List Char) (k : Nat) : Located :=
  (text.zipIdx.take k).reverse

@[simp] lemma front_zero : front text 0 = [] :=
  rfl

lemma front_succ {k : Nat} {c : Char} (hc : text[k]? = some c) :
    front text (k + 1) = (c, k) :: front text k := by
  have hlocated : text.zipIdx[k]? = some (c, k) := by simp [hc]
  rw [front, List.take_add_one, hlocated, Option.toList_some, List.reverse_append]
  rfl

lemma front_length : front text text.length = text.zipIdx.reverse := by
  rw [front, List.take_of_length_le (by simp)]

lemma parse_eq_scan (limit : Option Nat) (h : checkBalance alphabet text.zipIdx [] = .ok ()) :
    parse alphabet limit text = (do
      let depth ← enter limit 0 ')' text.length
      scan alphabet limit (front text text.length) ⟨⟨text.length, [], []⟩, [], depth⟩) >>=
        Scan.result := by
  rw [parse, h, front_length]
  cases enter limit 0 ')' text.length with
  | error fault => rfl
  | ok depth => rfl

lemma lacksOperand_front {k : Nat} (hk : k ≤ text.length) :
    lacksOperand (front text k) ↔ LacksLeft text k := by
  cases k with
  | zero => simp [lacksOperand, LacksLeft]
  | succ k =>
    have hc := List.getElem?_eq_getElem (Nat.lt_of_succ_le hk)
    rw [front_succ hc]
    simp [lacksOperand, LacksLeft, hc]

end RegexCompiler.Regex
