import RegexCompiler.Proofs.Regex.Pairs

/-!
# The descent reads like the scan

What waits on the stack of the scan waits in the calls of the descent. So a step of the descent,
from whatever state of the scan it is seen, takes the scan to the place where the expression of the
step is added, and a group takes it to the `(` that is innermost there. By induction on the number
of unread characters every step comes to an end with a budget of two for each of them, stops only
with a fault of the scan, and keeps the account of the cursor. What must not happen does not happen,
because the position of the cursor tells which character is next.
-/

namespace RegexCompiler.Regex.Descent

variable {alphabet : Alphabet} {limit : Option Nat} {text : List Char} {k : Nat}

section Ends

variable {α β : Type} {x : Reading α} {f : α → Reading β} {cursor middle final : Cursor} {a : α}

/-- A computation comes to an end with an outcome, and where it leaves the cursor. -/
def Ends (x : Reading α) (cursor : Cursor) (outcome : Except Stop α) (final : Cursor) : Prop :=
  x.run.run cursor = some (outcome, final)

lemma Ends.bind {outcome : Except Stop β} (hx : Ends x cursor (.ok a) middle)
    (hf : Ends (f a) middle outcome final) : Ends (x >>= f) cursor outcome final := by
  change (x.run.run cursor).bind _ = _
  rw [hx]
  exact hf

lemma Ends.bind_error {stop : Stop} (hx : Ends x cursor (.error stop) middle) :
    Ends (x >>= f) cursor (.error stop) middle := by
  change (x.run.run cursor).bind _ = _
  rw [hx]
  rfl

lemma get_ends : Ends get cursor (.ok cursor) cursor :=
  rfl

variable {chars : List Char} {m : Nat}

lemma peek_ends (hm : cursor.remaining = m + 1) {c : Char} (hc : chars[m]? = some c) :
    Ends (peek chars) cursor (.ok (some c)) cursor := by
  have hne : cursor.remaining ≠ 0 := by rw [hm]; exact Nat.succ_ne_zero m
  have hnext : chars[cursor.remaining - 1]? = some c := by rw [hm]; exact hc
  refine Ends.bind get_ends ?_
  simp only [hne, if_false, hnext]
  rfl

lemma advance_ends (hm : cursor.remaining = m + 1) :
    Ends advance cursor (.ok m) (cursor.moved m) := by
  refine Ends.bind get_ends ?_
  simp only [hm]
  rfl

lemma slice_ends {first last : Nat} (hfirst : first ≤ last) (hlast : last ≤ chars.length) :
    Ends (slice chars first last) cursor (.ok (between chars first last)) cursor := by
  rw [slice, if_pos ⟨hfirst, hlast⟩]
  rfl

end Ends

/-- A computation goes along with a computation of the scan. It ends where the scan can go on from,
or both stop with the same fault. -/
inductive Mirrors (text : List Char) {α σ : Type} (x : Reading α) (cursor : Cursor)
    (y : Except Fault σ) (next : α → Cursor → Except Fault σ → Prop) : Prop where
  | ends {a : α} {final : Cursor} :
      Ends x cursor (.ok a) final → next a final y → Mirrors text x cursor y next
  | stops {fault : Fault} {final : Cursor} :
      Ends x cursor (.error (.refused fault)) final → final.Accounts text → y = .error fault →
      Mirrors text x cursor y next

section Mirrors

variable {α β σ : Type} {x : Reading α} {f : α → Reading β} {cursor middle : Cursor} {a : α}
  {y : Except Fault σ} {next : α → Cursor → Except Fault σ → Prop}
  {after : β → Cursor → Except Fault σ → Prop}

lemma Mirrors.of_ends (hx : Ends x cursor (.ok a) middle)
    (hf : Mirrors text (f a) middle y after) : Mirrors text (x >>= f) cursor y after := by
  cases hf with
  | ends hends hafter => exact .ends (hx.bind hends) hafter
  | stops hends haccounts hy => exact .stops (hx.bind hends) haccounts hy

lemma Mirrors.bind (hx : Mirrors text x cursor y next)
    (hf : ∀ a final, next a final y → Mirrors text (f a) final y after) :
    Mirrors text (x >>= f) cursor y after := by
  cases hx with
  | ends hends hnext => exact .of_ends hends (hf _ _ hnext)
  | stops hends haccounts hy => exact .stops hends.bind_error haccounts hy

lemma Mirrors.pure (h : next a cursor y) : Mirrors text (pure a) cursor y next :=
  .ends rfl h

lemma Mirrors.check (haccounts : cursor.Accounts text) {e : Except Fault α}
    {g : α → Except Fault σ}
    (hf : ∀ a, e = .ok a → Mirrors text (f a) cursor (g a) after) :
    Mirrors text (check e >>= f) cursor (e >>= g) after := by
  cases e with
  | ok a => exact .of_ends rfl (hf a rfl)
  | error fault => exact .stops (Ends.bind_error rfl) haccounts rfl

end Mirrors

/-! ### The scan at a position -/

section Scan

variable {s : Scan}

/-- The scan with other expressions read of its innermost group. -/
def having (s : Scan) (children : List Regex) : Scan :=
  { s with group := { s.group with children := children } }

lemma add_await_union {left right : Regex} {depth : Nat} {children : List Regex} :
    (s.await (.union k right) children (depth + 1)).add limit left = (do
      checkUnion limit depth (.union left right) k
      Scan.add limit { having s children with depth := depth } (.union left right)) := by
  simp only [Scan.add, Scan.await, applyPending, Nat.add_sub_cancel]
  cases checkUnion limit depth (.union left right) k with
  | error fault => rfl
  | ok _ => rfl

end Scan

/-- The index of the `(` that is innermost before a position, in the frame. -/
def opening (text : List Char) (k : Nat) : Nat :=
  match opened text k with
  | [] => 1
  | q :: _ => q + 2

lemma opening_congr {m : Nat} (h : opened text m = opened text k) :
    opening text m = opening text k := by
  rw [opening, opening, h]

lemma opening_cases (hk : k ≤ text.length) :
    opening text k = k + 1 ∨ ∃ j c, k = j + 1 ∧ text[j]? = some c ∧ c ≠ '(' := by
  cases k with
  | zero => exact Or.inl rfl
  | succ j =>
    have hc := List.getElem?_eq_getElem (Nat.lt_of_succ_le hk)
    by_cases hopen : text[j] = '('
    · rw [hopen] at hc
      exact Or.inl (by rw [opening, opened_open hc])
    · exact Or.inr ⟨j, _, rfl, hc, hopen⟩

lemma frame_opening : (frame text)[opening text k]? = some '(' := by
  cases hopened : opened text k with
  | nil =>
    simp only [opening, hopened]
    exact frame_first
  | cons q outer =>
    simp only [opening, hopened]
    exact frame_inner (mem_opened (hopened ▸ List.mem_cons_self)).2

/-- The cursor is at an index and a depth, and its account is right. -/
structure Stands (text : List Char) (index depth : Nat) (cursor : Cursor) : Prop where
  remaining : cursor.remaining = index
  depth : cursor.depth = depth
  accounts : cursor.Accounts text

section Moves

variable {index depth : Nat} {c : Char} {cursor : Cursor}

lemma depth_of_enter {depth' : Nat} (h : enter limit depth c k = .ok depth') :
    depth' = depth + 1 := by
  unfold enter at h
  split at h
  · exact (Except.ok.inj h).symm
  · split at h
    · cases h
    · exact (Except.ok.inj h).symm

lemma Stands.moved (h : Stands text (index + 1) depth cursor)
    (hc : (frame text)[index]? = some c) (hopen : c ≠ '(') :
    Stands text index depth (cursor.moved index) :=
  ⟨rfl, h.depth, h.accounts.moved h.remaining (by simpa [hc] using hopen)⟩

lemma Stands.withDepth (h : Stands text index depth cursor) {new depth' : Nat}
    (hdepth : new = depth') : Stands text index depth' { cursor with depth := new } :=
  ⟨h.remaining, hdepth, h.accounts.bounded, h.accounts.consumed, h.accounts.closed⟩

variable {α σ : Type} {f : Unit → Reading α} {after : α → Cursor → Except Fault σ → Prop}

lemma Stands.mirrors_goDown (h : Stands text index depth cursor) {g : Nat → Except Fault σ}
    (hf : ∀ middle, Stands text index (depth + 1) middle →
      Mirrors text (f ()) middle (g (depth + 1)) after) :
    Mirrors text (goDown limit c (k + 2) >>= f) cursor (enter limit depth c k >>= g) after := by
  have hcheck : enter limit cursor.depth c (textPosition (k + 2)) = enter limit depth c k := by
    rw [h.depth]
    rfl
  rw [goDown, bind_assoc]
  refine .of_ends get_ends ?_
  rw [bind_assoc, hcheck]
  refine .check h.accounts fun depth' he => ?_
  obtain rfl := depth_of_enter he
  exact .of_ends rfl (hf _ (h.withDepth rfl))

lemma Stands.mirrors_goUp (h : Stands text index (depth + 1) cursor) {y : Except Fault σ}
    (hf : ∀ middle, Stands text index depth middle → Mirrors text (f ()) middle y after) :
    Mirrors text (goUp >>= f) cursor y after :=
  .of_ends rfl (hf _ (h.withDepth (by rw [h.depth, Nat.add_sub_cancel])))

lemma Stands.mirrors_limitUnion (h : Stands text index depth cursor) {union : Regex}
    {g : Unit → Except Fault σ} (hf : Mirrors text (f ()) cursor (g ()) after) :
    Mirrors text (limitUnion limit union (k + 2) >>= f) cursor
      (checkUnion limit depth union k >>= g) after := by
  have hcheck : checkUnion limit cursor.depth union (textPosition (k + 2)) =
      checkUnion limit depth union k := by
    rw [h.depth]
    rfl
  rw [limitUnion, bind_assoc]
  refine .of_ends get_ends ?_
  rw [hcheck]
  exact .check h.accounts fun _ _ => hf

end Moves

/-! ### Steps, groups and operands -/

section Steps

variable (alphabet limit text k)

/-- An expression has been read where the scan was in some state. The cursor is further to the left
in the same group, and the scan goes on by adding the expression. -/
def Added (s : Scan) (r : Regex) (siblings : List Regex) (final : Cursor)
    (y : Except Fault Scan) : Prop :=
  ∃ m, m < k ∧ opened text m = opened text k ∧ Stands text (m + 2) s.depth final ∧
    y = ((having s siblings).add limit r >>= scan alphabet limit (front text m))

/-- The outcome of a step is such an expression, not the mark. -/
def Walked (s : Scan) (result : Parsed × List Regex) (final : Cursor) (y : Except Fault Scan) :
    Prop :=
  ∃ r, result.1 = .node r ∧ Added alphabet limit text k s r result.2 final y

/-- A step goes along with the scan in one state. -/
def WalksFrom (budget : Nat) (s : Scan) (cursor : Cursor) : Prop :=
  Mirrors text (walk alphabet limit (frame text) budget s.group.children) cursor
    (scan alphabet limit (front text k) s) (Walked alphabet limit text k s)

/-- A step to the left of a position reads an expression, whatever the state of the scan is. -/
def Walks : Prop :=
  ∀ ⦃s : Scan⦄ ⦃cursor : Cursor⦄ ⦃j : Nat⦄ ⦃c : Char⦄ ⦃budget : Nat⦄,
    k = j + 1 → text[j]? = some c → c ≠ '(' → Stands text (k + 2) s.depth cursor →
      2 * k ≤ budget → WalksFrom alphabet limit text k budget s cursor

/-- A group that is open at a position is read up to the innermost `(`. -/
def Groups : Prop :=
  ∀ ⦃s : Scan⦄ ⦃cursor : Cursor⦄ ⦃closing budget : Nat⦄,
    s.group.pending = [] → (closing, opening text k) ∈ pairs text → k ≤ text.length →
      Stands text (k + 2) s.depth cursor → 2 * k ≤ budget →
        Mirrors text (group alphabet limit (frame text) (budget + 1) closing s.group.children)
          cursor (scan alphabet limit (front text k) s)
          fun r final y => ∃ children, r = .word children ∧
            Stands text (opening text k) s.depth final ∧
              y = scan alphabet limit (front text (opening text k - 1)) (having s children)

variable {alphabet limit text k}
variable {s : Scan} {cursor : Cursor} {budget : Nat}

lemma Walks.mirrors_operand (hwalks : Walks alphabet limit text k) (hk : k ≤ text.length)
    (hstands : Stands text (k + 2) s.depth cursor) (hbudget : 2 * k ≤ budget) (operator : Char) :
    Mirrors text
      (operand alphabet limit (frame text) (budget + 1) operator (k + 2) s.group.children) cursor
      (if lacksOperand (front text k) then .error (.dangling operator k)
        else scan alphabet limit (front text k) s)
      fun result final y => Added alphabet limit text k s result.1 result.2 final y := by
  rw [operand]
  cases k with
  | zero =>
    refine .of_ends (peek_ends hstands.remaining frame_first) ?_
    exact .stops rfl hstands.accounts rfl
  | succ j =>
    have hc := List.getElem?_eq_getElem (Nat.lt_of_succ_le hk)
    refine .of_ends (peek_ends hstands.remaining (frame_inner hc)) ?_
    rw [front_succ hc]
    by_cases hopen : text[j] = '('
    · rw [hopen]
      exact .stops rfl hstands.accounts rfl
    by_cases hplus : text[j] = '+'
    · rw [hplus]
      exact .stops rfl hstands.accounts rfl
    · have hpresent : lacksOperand ((text[j], j) :: front text j) = false := by
        simp [lacksOperand, hopen, hplus]
      rw [hpresent, ← front_succ hc, if_neg Bool.false_ne_true]
      split
      · exact absurd ‹_› (by simp)
      · exact absurd (Option.some.inj ‹_›) hopen
      · exact absurd (Option.some.inj ‹_›) hplus
      refine .bind (hwalks rfl hc hopen hstands hbudget) ?_
      rintro ⟨parsed, siblings⟩ final ⟨r, rfl, hadded⟩
      exact .pure hadded

lemma Walks.mirrors_star (hwalks : Walks alphabet limit text k) (hc : text[k]? = some '*')
    (hstands : Stands text (k + 3) s.depth cursor) (hbudget : 2 * k ≤ budget) :
    WalksFrom alphabet limit text (k + 1) (budget + 2) s cursor := by
  have hk : k < text.length := (List.getElem?_eq_some_iff.mp hc).1
  have hopened : opened text (k + 1) = opened text k := opened_other hc (by decide) (by decide)
  have hchar := frame_inner hc
  rw [WalksFrom, walk, front_succ hc, scan_star_eq]
  refine .of_ends (peek_ends hstands.remaining hchar) ?_
  refine .of_ends (advance_ends hstands.remaining) ?_
  refine (hstands.moved hchar (by decide)).mirrors_goDown fun middle hmiddle => ?_
  refine .bind (hwalks.mirrors_operand (s := s.await .star s.group.children (s.depth + 1))
    (Nat.le_of_lt hk) hmiddle hbudget '*') ?_
  rintro ⟨child, siblings⟩ final ⟨m, hm, hleft, hfinal, hy⟩
  rw [hy]
  refine hfinal.mirrors_goUp fun final hfinal => .pure ⟨.star child, rfl, m, ?_⟩
  refine ⟨Nat.lt_succ_of_lt hm, hleft.trans hopened.symm, hfinal, ?_⟩
  exact congrArg (· >>= _) (Scan.add_await_star (s := having s siblings))

lemma Walks.mirrors_plus (hwalks : Walks alphabet limit text k) (hc : text[k]? = some '+')
    (hstands : Stands text (k + 3) s.depth cursor) (hbudget : 2 * k ≤ budget) :
    WalksFrom alphabet limit text (k + 1) (budget + 2) s cursor := by
  have hk : k < text.length := (List.getElem?_eq_some_iff.mp hc).1
  have hopened : opened text (k + 1) = opened text k := opened_other hc (by decide) (by decide)
  have hchar := frame_inner hc
  rw [WalksFrom, walk]
  refine .of_ends (peek_ends hstands.remaining hchar) ?_
  refine .of_ends (advance_ends hstands.remaining) ?_
  cases hchildren : s.group.children with
  | nil =>
    rw [front_succ hc, scan_plus_eq_error hchildren]
    exact .stops rfl (hstands.moved hchar (by decide)).accounts rfl
  | cons right children =>
    rw [front_succ hc, scan_plus_eq hchildren]
    refine (hstands.moved hchar (by decide)).mirrors_goDown fun middle hmiddle => ?_
    refine .bind (hwalks.mirrors_operand (s := s.await (.union k right) children (s.depth + 1))
      (Nat.le_of_lt hk) hmiddle hbudget '+') ?_
    rintro ⟨left, siblings⟩ final ⟨m, hm, hleft, hfinal, hy⟩
    have hadd : (having (s.await (.union k right) children (s.depth + 1)) siblings).add limit left =
        (checkUnion limit s.depth (.union left right) k >>= fun _ =>
          (having s siblings).add limit (.union left right)) :=
      add_await_union (s := having s siblings)
    rw [hy, hadd, bind_assoc]
    refine hfinal.mirrors_goUp fun final hfinal => ?_
    refine hfinal.mirrors_limitUnion (.pure ⟨.union left right, rfl, m, ?_⟩)
    exact ⟨Nat.lt_succ_of_lt hm, hleft.trans hopened.symm, hfinal, rfl⟩

lemma Groups.mirrors_close (hgroups : Groups alphabet limit text k) (hc : text[k]? = some ')')
    (hplace : ¬Misplaced alphabet text k) (hstands : Stands text (k + 3) s.depth cursor)
    (hbudget : 2 * k ≤ budget) : WalksFrom alphabet limit text (k + 1) (budget + 2) s cursor := by
  have hk : k < text.length := (List.getElem?_eq_some_iff.mp hc).1
  have hchar := frame_inner hc
  have hne := opened_ne_nil_of_not_misplaced hc hplace
  obtain ⟨q, outer, hopened⟩ := List.exists_cons_of_ne_nil hne
  obtain ⟨hq, hqopen⟩ := mem_opened (hopened ▸ List.mem_cons_self)
  have hopening : opening text k = q + 2 := by rw [opening, hopened]
  have hpair : (k + 2, opening text k) ∈ pairs text := by
    rw [hopening]
    exact mem_pairs.mpr (Or.inr ⟨q, k, closes_iff.mpr ⟨hc, outer, hopened⟩, rfl, rfl⟩)
  rw [WalksFrom, walk, front_succ hc, scan_close_eq]
  refine .of_ends (peek_ends hstands.remaining hchar) ?_
  refine .of_ends (advance_ends hstands.remaining) ?_
  refine (hstands.moved hchar (by decide)).mirrors_goDown fun middle hmiddle => ?_
  refine .bind (hgroups (s := ⟨⟨k, [], []⟩, s.group :: s.outer, s.depth + 1⟩) rfl hpair
    (Nat.le_of_lt hk) hmiddle hbudget) ?_
  rintro r final ⟨children, rfl, hfinal, hy⟩
  rw [hopening] at hfinal hy
  rw [hy]
  refine hfinal.mirrors_goUp fun final hfinal => .pure ⟨.word children, rfl, q, ?_⟩
  refine ⟨Nat.lt_succ_of_lt hq, ?_, hfinal, ?_⟩
  · rw [opened_close hc, hopened, List.tail_cons]
    exact (balanced_of_opened hopened).2
  · -- the `(` adds the group where the scan found its `)`
    change scan alphabet limit (front text (q + 1)) _ = _
    rw [front_succ hqopen, scan_open rfl]
    rfl

/-- Looking back for the mark tells whether a symbol is the one where the expression is entered,
because the sign of the mark is not in the text. -/
lemma followsMark_ends (hplace : ∀ i, ¬Misplaced alphabet text i) (hk : k ≤ text.length) :
    Ends (followsMark (frame text) (k + 2)) cursor (.ok (isEntry (front text k))) cursor := by
  have hlookback : ((between (frame text) 0 (k + 2)).reverse.find? (· ≠ '(') == some '$') =
      isEntry (front text k) := by
    induction k with
    | zero => rfl
    | succ k ih =>
      have hc := List.getElem?_eq_getElem (Nat.lt_of_succ_le hk)
      have hsign : text[k] ≠ '$' := by
        intro hsign
        have hknown := mem_alphabet_of_not_misplaced (hplace k) hc (by simp [hsign])
        exact ne_of_mem_alphabet hknown (by decide) hsign
      rw [between_succ (frame_inner hc) (Nat.zero_le _), front_succ hc]
      by_cases hopen : text[k] = '('
      · simpa [hopen, isEntry] using ih (Nat.le_of_succ_le hk)
      · simp [hopen, isEntry, hsign]
  rw [← hlookback]
  exact (slice_ends (Nat.zero_le _) (by rw [length_frame]; omega)).bind rfl

lemma mirrors_symbol (hplace : ∀ i, ¬Misplaced alphabet text i) {c : Char}
    (hc : text[k]? = some c) (hknown : c ∈ alphabet)
    (hstands : Stands text (k + 3) s.depth cursor) :
    WalksFrom alphabet limit text (k + 1) (budget + 2) s cursor := by
  have hk : k < text.length := (List.getElem?_eq_some_iff.mp hc).1
  have hchar := frame_inner hc
  have hopen : c ≠ '(' := ne_of_mem_alphabet hknown (by decide)
  have hclose : c ≠ ')' := ne_of_mem_alphabet hknown (by decide)
  have hsign : c ≠ '$' := ne_of_mem_alphabet hknown (by decide)
  have hopened : opened text (k + 1) = opened text k :=
    opened_other hc hopen hclose
  rw [WalksFrom, walk, front_succ hc, scan_symbol hknown]
  refine .of_ends (peek_ends hstands.remaining hchar) ?_
  refine .of_ends (advance_ends hstands.remaining) ?_
  split
  · exact absurd rfl (ne_of_mem_alphabet hknown (by decide))
  · exact absurd rfl (ne_of_mem_alphabet hknown (by decide))
  · exact absurd rfl hclose
  · rw [if_neg (fun h => hsign h.1), if_pos hknown]
    refine .of_ends (followsMark_ends hplace (Nat.le_of_lt hk)) ?_
    have hadded (r : Regex) : Added alphabet limit text (k + 1) s r s.group.children
        (cursor.moved (k + 2)) (s.add limit r >>= scan alphabet limit (front text k)) :=
      ⟨k, Nat.lt_succ_self k, hopened.symm, hstands.moved hchar hopen, rfl⟩
    split
    · exact .pure ⟨_, rfl, hadded _⟩
    · exact .pure ⟨_, rfl, hadded _⟩

lemma walks_of_lower (hplace : ∀ i, ¬Misplaced alphabet text i)
    (hlower : ∀ m < k, Walks alphabet limit text m ∧ Groups alphabet limit text m) :
    Walks alphabet limit text k := by
  intro s cursor j c budget hj hc hopen hstands hbudget
  subst hj
  obtain ⟨hwalks, hgroups⟩ := hlower j (Nat.lt_succ_self j)
  -- one for the step and one for the operand or the group that it reads
  obtain ⟨rest, rfl⟩ : ∃ rest, budget = rest + 2 := Nat.exists_eq_add_of_le' (by omega)
  have hrest : 2 * j ≤ rest := by omega
  by_cases hstar : c = '*'
  · subst hstar
    exact hwalks.mirrors_star hc hstands hrest
  by_cases hplus : c = '+'
  · subst hplus
    exact hwalks.mirrors_plus hc hstands hrest
  by_cases hclose : c = ')'
  · subst hclose
    exact hgroups.mirrors_close hc (hplace j) hstands hrest
  · have hknown := mem_alphabet_of_not_misplaced (hplace j) hc (by simp [*])
    exact mirrors_symbol hplace hc hknown hstands

lemma Walks.groups (hwalks : Walks alphabet limit text k)
    (hlower : ∀ m < k, Groups alphabet limit text m) : Groups alphabet limit text k := by
  intro s cursor closing budget hpending hpair hk hstands hbudget
  have hnext : (frame text)[opening text k]? = some '(' := frame_opening
  rw [group]
  rcases opening_cases hk with hopening | ⟨j, c, hj, hc, hopen⟩
  · rw [hopening] at hnext hpair ⊢
    refine .of_ends (peek_ends hstands.remaining hnext) ?_
    refine .of_ends (advance_ends hstands.remaining) ?_
    refine .of_ends (a := ()) rfl (.pure ⟨s.group.children, rfl, ⟨rfl, hstands.depth, ?_⟩, rfl⟩)
    exact hstands.accounts.closed_moved hstands.remaining hpair
  · have hchar := frame_inner hc
    refine .of_ends (peek_ends hstands.remaining (c := c) (by rw [hj]; exact hchar)) ?_
    split
    · exact absurd (Option.some.inj ‹_›) hopen
    · refine .bind (hwalks hj hc hopen hstands hbudget) ?_
      rintro ⟨parsed, siblings⟩ final ⟨r, rfl, m, hm, hleft, hfinal, hy⟩
      have hadd : (having s siblings).add limit r = .ok (having s (r :: siblings)) :=
        Scan.add_of_pending_eq_nil (s := having s siblings) hpending
      dsimp only at hy
      rw [hy, hadd, ← opening_congr hleft]
      rw [← opening_congr hleft] at hpair
      obtain ⟨rest, rfl⟩ : ∃ rest, budget = rest + 1 := Nat.exists_eq_add_of_le' (by omega)
      exact hlower m hm (s := having s (r :: siblings)) hpending hpair (by omega) hfinal
        (by omega)
    · exact absurd ‹_› (by simp)

/-- Every step and every group comes to an end and goes along with the scan. -/
theorem walks_and_groups (hplace : ∀ i, ¬Misplaced alphabet text i) (k : Nat) :
    Walks alphabet limit text k ∧ Groups alphabet limit text k := by
  -- a step reads a character before it calls, a group begins with a step where it is
  induction k using Nat.strongRecOn with
  | ind k hlower =>
    have hwalks := walks_of_lower hplace hlower
    exact ⟨hwalks, hwalks.groups fun m hm => (hlower m hm).2⟩

end Steps

/-! ### The whole frame -/

section Frame

variable {cursor : Cursor} {siblings : List Regex} {budget : Nat}

lemma walk_mark (hcursor : cursor.remaining = 1) :
    Ends (walk alphabet limit (frame text) (budget + 1) siblings) cursor
      (.ok (.mark, siblings)) (cursor.moved 0) := by
  rw [walk]
  exact (peek_ends hcursor frame_mark).bind ((advance_ends hcursor).bind rfl)

variable (hplace : ∀ i, ¬Misplaced alphabet text i) (hclosed : opened text text.length = [])
include hplace hclosed

lemma mirrors_frame (hbudget : 2 * text.length ≤ budget) :
    Mirrors text (walk alphabet limit (frame text) (budget + 2) []) (.start text) (do
        let depth ← enter limit 0 ')' text.length
        scan alphabet limit (front text text.length) ⟨⟨text.length, [], []⟩, [], depth⟩)
      fun result final y => ∃ children, result = (.node (.word children), []) ∧
        Stands text 1 0 final ∧ y = .ok ⟨⟨text.length, children, []⟩, [], 1⟩ := by
  have hstart : Stands text (text.length + 3) 0 (.start text) :=
    ⟨length_frame, rfl, Cursor.Accounts.start⟩
  have hopening : opening text text.length = 1 := by rw [opening, hclosed]
  have hpair : (text.length + 2, opening text text.length) ∈ pairs text := by
    rw [hopening]
    exact mem_pairs.mpr (Or.inl ⟨rfl, rfl⟩)
  rw [walk]
  refine .of_ends (peek_ends hstart.remaining frame_last) ?_
  refine .of_ends (advance_ends hstart.remaining) ?_
  refine (hstart.moved frame_last (by decide)).mirrors_goDown fun middle hmiddle => ?_
  refine .bind ((walks_and_groups hplace text.length).2 (s := ⟨⟨text.length, [], []⟩, [], 1⟩) rfl
    hpair (Nat.le_refl _) hmiddle hbudget) ?_
  rintro r final ⟨children, rfl, hfinal, hy⟩
  rw [hopening] at hfinal hy
  exact hfinal.mirrors_goUp fun final hfinal => .pure ⟨children, rfl, hfinal, hy⟩

lemma mirrors_roots (hbudget : 2 * text.length ≤ budget) :
    Mirrors text (roots alphabet limit (frame text) (budget + 3) []) (.start text) (do
        let depth ← enter limit 0 ')' text.length
        scan alphabet limit (front text text.length) ⟨⟨text.length, [], []⟩, [], depth⟩)
      fun top final y => ∃ children, top = [.word children] ∧
        Stands text 0 0 final ∧ y = .ok ⟨⟨text.length, children, []⟩, [], 1⟩ := by
  rw [roots]
  refine .of_ends get_ends ?_
  rw [if_neg (by simp [Cursor.start])]
  refine .bind (mirrors_frame hplace hclosed hbudget) ?_
  rintro result final ⟨children, rfl, hfinal, hy⟩
  dsimp only
  rw [roots]
  refine .of_ends get_ends ?_
  rw [if_neg (by simp [hfinal.remaining])]
  refine .of_ends (walk_mark hfinal.remaining) ?_
  dsimp only
  rw [roots]
  refine .of_ends get_ends (.pure ⟨children, rfl, ?_, hy⟩)
  exact hfinal.moved frame_mark (by decide)

end Frame

lemma slice_text : Ends (slice (frame text) 2 ((frame text).length - 1)) (.start text) (.ok text)
    (.start text) := by
  have hslice : Ends (slice (frame text) 2 ((frame text).length - 1)) (.start text)
      (.ok (between (frame text) 2 ((frame text).length - 1))) (.start text) :=
    slice_ends (by rw [length_frame]; omega) (Nat.sub_le _ _)
  rwa [between_frame] at hslice

lemma read_of_checkBalance_error {budget : Nat} {fault : Fault}
    (h : checkBalance alphabet text.zipIdx [] = .error fault) :
    Ends (read alphabet limit (frame text) budget) (.start text) (.error (.refused fault))
      (.start text) := by
  refine slice_text.bind (Ends.bind_error ?_)
  rw [h]
  rfl

lemma read_of_roots {budget : Nat} (h : checkBalance alphabet text.zipIdx [] = .ok ())
    {outcome : Except Stop Regex} {final : Cursor}
    (hroots : Ends (roots alphabet limit (frame text) budget [] >>= onlyRoot) (.start text)
      outcome final) :
    Ends (read alphabet limit (frame text) budget) (.start text) outcome final := by
  refine slice_text.bind (Ends.bind (a := ()) ?_ hroots)
  rw [h]
  rfl

/-- Reading by descent comes to an end with every budget from twice the length of the text and three
on, so calls and rounds of loops are not nested deeper than that. It yields what the parser yields,
and nothing else: it takes no step without input, asks for no character out of range, does not move
beyond the beginning, takes no arm that only stands there for safety and is left with one root. The
groups that it closes are the pairs that the first pass matches, and if the text is read, every
character of the frame has been read once. -/
theorem run_eq_parse (alphabet : Alphabet) (limit : Option Nat) (text : List Char) (spare : Nat) :
    ∃ cursor,
      run alphabet limit text (2 * text.length + 3 + spare) =
          some ((parse alphabet limit text).mapError .refused, cursor) ∧
        cursor.Accounts text ∧
          ∀ r, parse alphabet limit text = .ok r →
            cursor.remaining = 0 ∧ cursor.consumed = List.range (frame text).length := by
  cases hbalance : checkBalance alphabet text.zipIdx [] with
  | error fault =>
    have hparse : parse alphabet limit text = .error fault := by
      rw [parse, hbalance]
      rfl
    rw [hparse]
    exact ⟨.start text, read_of_checkBalance_error hbalance, .start, fun r hr => by cases hr⟩
  | ok _ =>
    obtain ⟨hplace, hclosed⟩ := checkBalance_eq_ok_iff.mp hbalance
    have hbudget : 2 * text.length + 3 + spare = 2 * text.length + spare + 3 :=
      Nat.add_right_comm _ _ _
    rw [parse_eq_scan limit hbalance, hbudget]
    cases mirrors_roots hplace hclosed (Nat.le_add_right (2 * text.length) spare) with
    | @ends top final hends hnext =>
      obtain ⟨children, rfl, hfinal, hy⟩ := hnext
      rw [hy]
      refine ⟨final, read_of_roots hbalance (hends.bind rfl), hfinal.accounts, fun _ _ => ?_⟩
      rw [hfinal.accounts.consumed, hfinal.remaining, List.range_eq_range', Nat.sub_zero]
      exact ⟨rfl, rfl⟩
    | @stops fault final hends haccounts hy =>
      rw [hy]
      exact ⟨final, read_of_roots hbalance hends.bind_error, haccounts, fun r hr => by cases hr⟩

end RegexCompiler.Regex.Descent
