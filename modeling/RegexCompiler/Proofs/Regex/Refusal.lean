import RegexCompiler.Proofs.Regex.Parentheses

/-!
# Which fault is reported

Without a limit, every step of the scan agrees with what the text shows at its position: the open
groups are the open parentheses, operators only wait in front of something that can be an operand,
and a group has no children exactly at its end. So a step fails exactly at an operator without an
operand, and the scan reports the rightmost of them.
-/

namespace RegexCompiler.Regex

variable {alphabet : Alphabet} {text : List Char} {k : Nat} {s : Scan}

lemma dangles_star (hc : text[k]? = some '*') : Dangles text k ↔ LacksLeft text k := by
  simp [Dangles, hc]

lemma dangles_plus (hc : text[k]? = some '+') :
    Dangles text k ↔ LacksLeft text k ∨ LacksRight text k := by
  simp [Dangles, hc]

lemma not_dangles {c : Char} (hc : text[k]? = some c) (hstar : c ≠ '*') (hplus : c ≠ '+') :
    ¬Dangles text k := by
  simp [Dangles, hc, hstar, hplus]

/-- What the text shows about a scan that has read everything from position `k` on. -/
structure Scan.Regular (text : List Char) (k : Nat) (s : Scan) : Prop where
  outer : s.outer.length = (opened text k).length
  awaiting : s.group.pending ≠ [] → ¬LacksLeft text k
  children : s.group.pending = [] →
    (s.group.children = [] ↔ k = text.length ∨ text[k]? = some ')')

/-- One step keeps what the text shows, unless the operator that it reads lacks an operand. -/
def Scan.Steps (alphabet : Alphabet) (text : List Char) (k : Nat) (c : Char) (s : Scan) : Prop :=
  Dangles text k ∧ s.step alphabet none (front text k) c k = .error (.dangling c k) ∨
    ¬Dangles text k ∧
      ∃ s', s.step alphabet none (front text k) c k = .ok s' ∧ s'.Regular text k

lemma applyPending_none (pending : List Pending) (depth : Nat) (operand : Regex) :
    ∃ child left, applyPending none pending depth operand = .ok (child, left) := by
  induction pending generalizing depth operand with
  | nil => exact ⟨operand, depth, rfl⟩
  | cons operator pending ih =>
    cases operator with
    | star => exact ih (depth - 1) (.star operand)
    | union i right => exact ih (depth - 1) (.union operand right)

lemma Scan.exists_add_none (s : Scan) {c : Char} (hc : text[k]? = some c) (hclose : c ≠ ')')
    (houter : s.outer.length = (opened text k).length) (operand : Regex) :
    ∃ s', s.add none operand = .ok s' ∧ s'.Regular text k := by
  obtain ⟨child, left, hchild⟩ := applyPending_none s.group.pending s.depth operand
  refine ⟨⟨⟨s.group.close, child :: s.group.children, []⟩, s.outer, left⟩,
    by rw [Scan.add, hchild]; rfl, houter, fun hne => absurd rfl hne, fun _ => ?_⟩
  have hk : k ≠ text.length := Nat.ne_of_lt (List.getElem?_eq_some_iff.mp hc).1
  simp [hc, hclose, hk]

lemma Scan.Regular.pending_eq_nil (hs : s.Regular text k) (hlacks : LacksLeft text k) :
    s.group.pending = [] := by
  by_contra hne
  exact hs.awaiting hne hlacks

lemma Scan.Regular.step_star (hs : s.Regular text (k + 1)) (hc : text[k]? = some '*') :
    s.Steps alphabet text k '*' := by
  have hk : k ≤ text.length := Nat.le_of_lt (List.getElem?_eq_some_iff.mp hc).1
  have hopened : opened text (k + 1) = opened text k := opened_other hc (by decide) (by decide)
  rw [Scan.Steps, dangles_star hc, ← lacksOperand_front hk]
  by_cases hlacks : lacksOperand (front text k)
  · exact Or.inl ⟨hlacks, by simp only [Scan.step, enter, hlacks]; rfl⟩
  · refine Or.inr ⟨hlacks, _, by simp only [Scan.step, enter, hlacks]; rfl, ?_, ?_, ?_⟩
    · rw [← hopened]
      exact hs.outer
    · rw [← lacksOperand_front hk]
      exact fun _ => hlacks
    · exact fun hnil => absurd hnil (List.cons_ne_nil _ _)

lemma Scan.Regular.step_plus (hs : s.Regular text (k + 1)) (hc : text[k]? = some '+') :
    s.Steps alphabet text k '+' := by
  have hk : k ≤ text.length := Nat.le_of_lt (List.getElem?_eq_some_iff.mp hc).1
  have hopened : opened text (k + 1) = opened text k := opened_other hc (by decide) (by decide)
  have hpending : s.group.pending = [] := hs.pending_eq_nil (by simp [LacksLeft, hc])
  have hright : s.group.children = [] ↔ LacksRight text k := hs.children hpending
  rw [Scan.Steps, dangles_plus hc, ← lacksOperand_front hk, ← hright]
  cases hchildren : s.group.children with
  | nil => exact Or.inl ⟨Or.inr rfl, by simp [Scan.step, hchildren]⟩
  | cons right children =>
    by_cases hlacks : lacksOperand (front text k)
    · exact Or.inl ⟨Or.inl hlacks, by simp only [Scan.step, enter, hchildren, hlacks]; rfl⟩
    · refine Or.inr ⟨by simp [hlacks], _,
        by simp only [Scan.step, enter, hchildren, hlacks]; rfl, ?_, ?_, ?_⟩
      · rw [← hopened]
        exact hs.outer
      · rw [← lacksOperand_front hk]
        exact fun _ => hlacks
      · exact fun hnil => absurd hnil (List.cons_ne_nil _ _)

lemma Scan.Regular.step_close (hs : s.Regular text (k + 1)) (hc : text[k]? = some ')')
    (hplace : ¬Misplaced alphabet text k) : s.Steps alphabet text k ')' := by
  refine Or.inr ⟨not_dangles hc (by decide) (by decide), _, rfl, ?_, ?_, ?_⟩
  · have houter := hs.outer
    rw [opened_close hc] at houter
    cases hopened : opened text k with
    | nil => exact absurd hopened (opened_ne_nil_of_not_misplaced hc hplace)
    | cons q outer =>
      rw [hopened] at houter
      simp [houter]
  · exact fun hne => absurd rfl hne
  · exact fun _ => iff_of_true rfl (Or.inr hc)

lemma Scan.Regular.step_open (hs : s.Regular text (k + 1)) (hc : text[k]? = some '(') :
    s.Steps alphabet text k '(' := by
  have houter := hs.outer
  rw [opened_open hc, List.length_cons] at houter
  cases hgroups : s.outer with
  | nil => simp [hgroups] at houter
  | cons group outer =>
    have hlength : outer.length = (opened text k).length := by simpa [hgroups] using houter
    obtain ⟨s', hadd, hs'⟩ := Scan.exists_add_none ⟨group, outer, s.depth - 1⟩ hc (by decide)
      hlength (.word s.group.children)
    exact Or.inr ⟨not_dangles hc (by decide) (by decide), s',
      by simp only [Scan.step, hgroups]; exact hadd, hs'⟩

lemma Scan.Regular.step_symbol (hs : s.Regular text (k + 1)) {c : Char} (hc : text[k]? = some c)
    (hknown : c ∈ alphabet) : s.Steps alphabet text k c := by
  have hopen : c ≠ '(' := ne_of_mem_alphabet hknown (by decide)
  have hclose : c ≠ ')' := ne_of_mem_alphabet hknown (by decide)
  have hopened : opened text (k + 1) = opened text k :=
    opened_other hc hopen hclose
  have houter := hs.outer
  rw [hopened] at houter
  obtain ⟨s', hadd, hs'⟩ := Scan.exists_add_none _ hc hclose houter
    (if isEntry (front text k) then .start c else .letter c)
  refine Or.inr ⟨?_, s', ?_, hs'⟩
  · exact not_dangles hc (ne_of_mem_alphabet hknown (by decide))
      (ne_of_mem_alphabet hknown (by decide))
  · rw [Scan.step_symbol hknown, hadd]

theorem Scan.Regular.step (hs : s.Regular text (k + 1)) {c : Char} (hc : text[k]? = some c)
    (hplace : ¬Misplaced alphabet text k) : s.Steps alphabet text k c := by
  by_cases hstar : c = '*'
  · subst hstar
    exact hs.step_star hc
  by_cases hplus : c = '+'
  · subst hplus
    exact hs.step_plus hc
  by_cases hclose : c = ')'
  · subst hclose
    exact hs.step_close hc hplace
  by_cases hopen : c = '('
  · subst hopen
    exact hs.step_open hc
  · exact hs.step_symbol hc (mem_alphabet_of_not_misplaced hplace hc (by simp [*]))

theorem Scan.Regular.run (hs : s.Regular text k) (hk : k ≤ text.length)
    (hplace : ∀ i, ¬Misplaced alphabet text i) {m : Nat} (hm : m ≤ k)
    (hoperands : ∀ i, m ≤ i → i < k → ¬Dangles text i) :
    ∃ s', scan alphabet none (front text k) s = scan alphabet none (front text m) s' ∧
      s'.Regular text m := by
  induction k, hm using Nat.le_induction generalizing s with
  | base => exact ⟨s, rfl, hs⟩
  | succ k hm ih =>
    have hc := List.getElem?_eq_getElem (Nat.lt_of_succ_le hk)
    rcases hs.step hc (hplace k) with ⟨hdangles, -⟩ | ⟨-, next, hstep, hnext⟩
    · exact absurd hdangles (hoperands k hm (Nat.lt_succ_self k))
    · obtain ⟨s', hscan, hs'⟩ := ih hnext (Nat.le_of_succ_le hk) fun i hmi hik =>
        hoperands i hmi (Nat.lt_succ_of_lt hik)
      refine ⟨s', ?_, hs'⟩
      rw [front_succ hc, scan, hstep]
      exact hscan

lemma regular_initial (hclosed : opened text text.length = []) :
    Scan.Regular text text.length ⟨⟨text.length, [], []⟩, [], 1⟩ where
  outer := by rw [hclosed]; rfl
  awaiting hne := absurd rfl hne
  children _ := iff_of_true rfl (Or.inl rfl)

section Reading

variable (hplace : ∀ i, ¬Misplaced alphabet text i) (hclosed : opened text text.length = [])
include hplace hclosed

lemma parse_eq_scan_initial :
    parse alphabet none text = (scan alphabet none (front text text.length)
      ⟨⟨text.length, [], []⟩, [], 1⟩ >>= Scan.result) :=
  parse_eq_scan none (checkBalance_eq_ok_iff.mpr ⟨hplace, hclosed⟩)

lemma parse_of_isGreatest {i : Nat} {c : Char} (h : IsGreatest {i | Dangles text i} i)
    (hc : text[i]? = some c) : parse alphabet none text = .error (.dangling c i) := by
  have hi : i < text.length := (List.getElem?_eq_some_iff.mp hc).1
  have hlater : ∀ j, i + 1 ≤ j → j < text.length → ¬Dangles text j := fun j hij _ hj =>
    Nat.not_lt.mpr (h.2 hj) hij
  obtain ⟨s, hscan, hs⟩ := (regular_initial hclosed).run (Nat.le_refl _) hplace hi hlater
  rw [parse_eq_scan_initial hplace hclosed, hscan, front_succ hc, scan]
  rcases hs.step hc (hplace i) with ⟨-, hstep⟩ | ⟨hnot, -⟩
  · rw [hstep]
    rfl
  · exact absurd h.1 hnot

lemma exists_parse_of_operands (h : ∀ i, ¬Dangles text i) :
    ∃ r, parse alphabet none text = .ok r := by
  obtain ⟨s, hscan, hs⟩ := (regular_initial hclosed).run (Nat.le_refl _) hplace (Nat.zero_le _)
    fun i _ _ => h i
  rw [parse_eq_scan_initial hplace hclosed, hscan, front_zero, scan]
  have houter : s.outer = [] := List.length_eq_zero_iff.mp hs.outer
  exact ⟨.word s.group.children, by
    change s.result = _
    rw [Scan.result, houter]⟩

end Reading

/-- Every text is refused for the first of three grounds that applies to it, or it is read. The
leftmost character that is out of place is reported, under any limit. Otherwise the last parenthesis
that is not closed is reported, under any limit. Otherwise, without a limit, the rightmost operator
that lacks an operand is reported. Otherwise, without a limit, the text is read. -/
theorem parse_refuses_first_ground (alphabet : Alphabet) (text : List Char) :
    ((∃ i, Misplaced alphabet text i) →
      ∃ i c, IsLeast {i | Misplaced alphabet text i} i ∧ text[i]? = some c ∧
        ∀ limit, parse alphabet limit text =
          .error (if c = ')' then .unopened i else .foreign c i)) ∧
      ((∀ i, ¬Misplaced alphabet text i) →
        ((∃ i, Unclosed text i) →
          ∃ i, IsGreatest {i | Unclosed text i} i ∧
            ∀ limit, parse alphabet limit text = .error (.unclosed i)) ∧
          ((∀ i, ¬Unclosed text i) →
            ((∃ i, Dangles text i) →
              ∃ i c, IsGreatest {i | Dangles text i} i ∧ text[i]? = some c ∧
                parse alphabet none text = .error (.dangling c i)) ∧
              ((∀ i, ¬Dangles text i) → ∃ r, parse alphabet none text = .ok r))) := by
  refine ⟨fun hmisplaced => ?_, fun hplace => ⟨fun hunclosed => ?_, fun hclosed => ?_⟩⟩
  · obtain ⟨i, c, hleast, hc⟩ := exists_isLeast_misplaced hmisplaced
    refine ⟨i, c, hleast, hc, fun limit => ?_⟩
    rw [parse, checkBalance_of_isLeast hleast hc]
    rfl
  · have hbounded : BddAbove {i | Unclosed text i} :=
      ⟨text.length, fun i hi => Nat.le_of_lt (List.getElem?_eq_some_iff.mp hi.1).1⟩
    obtain ⟨i, hgreatest⟩ := hbounded.exists_isGreatest_of_nonempty hunclosed
    refine ⟨i, hgreatest, fun limit => ?_⟩
    rw [parse, checkBalance_of_isGreatest hplace hgreatest]
    rfl
  · have hopened : opened text text.length = [] :=
      List.eq_nil_iff_forall_not_mem.mpr fun i hi => hclosed i (unclosed_iff.mpr hi)
    refine ⟨fun hdangles => ?_, exists_parse_of_operands hplace hopened⟩
    have hchar : ∀ i, Dangles text i → ∃ c, text[i]? = some c := by
      rintro i (⟨hc | hc, -⟩ | ⟨hc, -⟩) <;> exact ⟨_, hc⟩
    have hbounded : BddAbove {i | Dangles text i} := by
      refine ⟨text.length, fun i hi => ?_⟩
      obtain ⟨c, hc⟩ := hchar i hi
      exact Nat.le_of_lt (List.getElem?_eq_some_iff.mp hc).1
    obtain ⟨i, hgreatest⟩ := hbounded.exists_isGreatest_of_nonempty hdangles
    obtain ⟨c, hc⟩ := hchar i hgreatest.1
    exact ⟨i, c, hgreatest, hc, parse_of_isGreatest hplace hopened hgreatest hc⟩

/-- Of two operators without an operand the one that is further to the right is reported. -/
theorem parse_refuses_first_ground_rightmost :
    parse .standard none "(*a+)+b".toList = .error (.dangling '+' 3) := by
  have hbalance : checkBalance .standard "(*a+)+b".toList.zipIdx [] = .ok () := by rfl
  obtain ⟨hplace, hopened⟩ := checkBalance_eq_ok_iff.mp hbalance
  have hclosed : ∀ i, ¬Unclosed "(*a+)+b".toList i := by
    intro i hi
    rw [unclosed_iff, hopened] at hi
    cases hi
  have hdangles : Dangles "(*a+)+b".toList 3 := by decide
  obtain ⟨i, c, hgreatest, hc, hparse⟩ :=
    (((parse_refuses_first_ground .standard "(*a+)+b".toList).2 hplace).2 hclosed).1 ⟨3, hdangles⟩
  have hlast : ∀ j < 7, Dangles "(*a+)+b".toList j → j ≤ 3 := by decide
  have hi : i < 7 := (List.getElem?_eq_some_iff.mp hc).1
  obtain rfl : i = 3 := Nat.le_antisymm (hlast i hi hgreatest.1) (hgreatest.2 hdangles)
  obtain rfl : '+' = c := Option.some.inj hc
  exact hparse

end RegexCompiler.Regex
