import RegexCompiler.Proofs.Regex.Soundness

/-!
# Reading spellings

The scan over the spelling of a readable tree adds this tree to the innermost group and applies the
waiting operators to it, if the limit has room for all that the tree needs. If it has not, the
nesting is found too deep, at whichever character the limit is met. So a well-formed tree is read
from its spelling under exactly those limits that have room for its need.
-/

namespace RegexCompiler.Regex

variable {alphabet : Alphabet} {limit : Option Nat}

mutual

lemma need_le_depth : ∀ r : Regex, r.need ≤ r.depth
  | letter _ => Nat.zero_le 1
  | start _ => Nat.zero_le 1
  | word children => by
    rw [need, depth]
    have hchildren := greatestNeed_le_greatestDepth children
    omega
  | union _ _ => Nat.le_refl _
  | star child => by
    rw [need, depth]
    have hchild := need_le_depth child
    omega

lemma greatestNeed_le_greatestDepth :
    ∀ children : List Regex, greatestNeed children ≤ greatestDepth children
  | [] => Nat.le_refl 0
  | child :: children => by
    rw [greatestNeed, greatestDepth]
    have hchild := need_le_depth child
    have hchildren := greatestNeed_le_greatestDepth children
    omega

end

/-- The limit has room for this depth. -/
def Fits : Option Nat → Nat → Prop
  | none, _ => True
  | some bound, depth => depth ≤ bound

lemma Fits.unlimited (depth : Nat) : Fits none depth :=
  trivial

lemma Fits.mono {shallow deep : Nat} (h : Fits limit deep) (hle : shallow ≤ deep) :
    Fits limit shallow := by
  cases limit with
  | none => trivial
  | some bound => exact Nat.le_trans hle h

def TooDeep {α : Type} (x : Except Fault α) : Prop :=
  ∃ c i, x = .error (.tooDeep c i)

lemma TooDeep.bind {α β : Type} {x : Except Fault α} (h : TooDeep x) (f : α → Except Fault β) :
    TooDeep (x >>= f) := by
  obtain ⟨c, i, rfl⟩ := h
  exact ⟨c, i, rfl⟩

/-- The first result is the second one if the limit has room for the depth, and otherwise it says
that the nesting is too deep. -/
structure SameWithin (limit : Option Nat) (depth : Nat) {α : Type} (x y : Except Fault α) :
    Prop where
  same : Fits limit depth → x = y
  tooDeep : ¬Fits limit depth → TooDeep x

namespace SameWithin

variable {α β : Type} {x y z : Except Fault α} {depth shallow deep : Nat}

lemma refl (h : Fits limit depth) (x : Except Fault α) : SameWithin limit depth x x :=
  ⟨fun _ => rfl, fun hnot => absurd h hnot⟩

lemma bind (h : SameWithin limit depth x y) (f : α → Except Fault β) :
    SameWithin limit depth (x >>= f) (y >>= f) :=
  ⟨fun hfits => by rw [h.same hfits], fun hnot => (h.tooDeep hnot).bind f⟩

lemma trans (hxy : SameWithin limit shallow x y)
    (hyz : Fits limit shallow → SameWithin limit deep y z) (hdepth : depth = max shallow deep) :
    SameWithin limit depth x z := by
  subst hdepth
  constructor
  · intro hfits
    have hshallow := hfits.mono (Nat.le_max_left _ _)
    rw [hxy.same hshallow, (hyz hshallow).same (hfits.mono (Nat.le_max_right _ _))]
  · intro hnot
    by_cases hshallow : Fits limit shallow
    · rw [hxy.same hshallow]
      apply (hyz hshallow).tooDeep
      intro hdeep
      rcases Nat.le_total shallow deep with hle | hle
      · rw [Nat.max_eq_right hle] at hnot
        exact hnot hdeep
      · rw [Nat.max_eq_left hle] at hnot
        exact hnot hshallow
    · exact hxy.tooDeep hshallow

/-- Refusing what has no room is the same as not looking at the limit where there is room. -/
lemma of_check {bound depth : Nat} {p : Prop} [Decidable p] (hp : p ↔ bound < depth) (c : Char)
    (i : Nat) (a : α) :
    SameWithin (some bound) depth (if p then .error (.tooDeep c i) else .ok a) (.ok a) := by
  split
  · rename_i hdeep
    exact ⟨fun hfits => absurd (hp.mp hdeep) (Nat.not_lt.mpr hfits), fun _ => ⟨c, i, rfl⟩⟩
  · rename_i hdeep
    have hfits : Fits (some bound) depth := Nat.not_lt.mp fun hlt => hdeep (hp.mpr hlt)
    exact refl hfits _

end SameWithin

/-! ### Single steps -/

/-- The scan after trees without waiting operators. -/
def Scan.extended (s : Scan) (rs : List Regex) : Scan :=
  { s with group := { s.group with children := rs ++ s.group.children } }

variable {before : Located} {i : Nat} {s s' : Scan}

lemma enter_within {depth : Nat} {c : Char} :
    SameWithin limit (depth + 1) (enter limit depth c i) (.ok (depth + 1)) := by
  cases limit with
  | none => exact .refl (Fits.unlimited _) _
  | some bound => exact .of_check Nat.lt_succ_iff.symm c i _

lemma checkUnion_within {depth : Nat} {r : Regex} :
    SameWithin limit (depth + r.depth) (checkUnion limit depth r i) (.ok ()) := by
  cases limit with
  | none => exact .refl (Fits.unlimited _) _
  | some bound => exact .of_check Iff.rfl '+' i _

lemma Scan.add_of_pending_eq_nil (hpending : s.group.pending = []) {operand : Regex} :
    s.add limit operand = .ok (s.extended [operand]) := by
  obtain ⟨⟨close, children, pending⟩, outer, depth⟩ := s
  cases hpending
  rfl

lemma Scan.add_await_star {operand : Regex} :
    (s.await .star s.group.children (s.depth + 1)).add limit operand =
      s.add limit (.star operand) := by
  simp [Scan.add, Scan.await, applyPending]

lemma Scan.add_await_union (hpending : s.group.pending = []) (limit : Option Nat) (i : Nat)
    (left right : Regex) :
    SameWithin limit (s.depth + (union left right).depth)
      ((s.await (.union i right) s.group.children (s.depth + 1)).add limit left)
      (.ok (s.extended [.union left right])) := by
  obtain ⟨⟨close, children, pending⟩, outer, depth⟩ := s
  cases hpending
  exact (checkUnion_within.bind _).bind _

lemma bind_of_operand {enter : Except Fault Nat} {missing : Bool} {fault : Fault}
    {f : Nat → Scan} {g : Scan → Except Fault Scan} :
    (do let depth ← enter; if missing then .error fault else return f depth) >>= g =
      (do let depth ← enter; if missing then .error fault else g (f depth)) := by
  cases enter with
  | error fault => rfl
  | ok depth => cases missing <;> rfl

lemma scan_star_eq :
    scan alphabet limit (('*', i) :: before) s = (do
      let depth ← enter limit s.depth '*' i
      if lacksOperand before then .error (.dangling '*' i)
      else scan alphabet limit before (s.await .star s.group.children depth)) := by
  rw [scan, Scan.step]
  exact bind_of_operand

lemma scan_plus_eq {right : Regex} {children : List Regex}
    (hchildren : s.group.children = right :: children) :
    scan alphabet limit (('+', i) :: before) s = (do
      let depth ← enter limit s.depth '+' i
      if lacksOperand before then .error (.dangling '+' i)
      else scan alphabet limit before (s.await (.union i right) children depth)) := by
  rw [scan, Scan.step]
  simp only [hchildren]
  exact bind_of_operand

lemma scan_plus_eq_error (hchildren : s.group.children = []) :
    scan alphabet limit (('+', i) :: before) s = .error (.dangling '+' i) := by
  rw [scan, Scan.step]
  simp only [hchildren]
  rfl

lemma scan_close_eq :
    scan alphabet limit ((')', i) :: before) s = (do
      let depth ← enter limit s.depth ')' i
      scan alphabet limit before ⟨⟨i, [], []⟩, s.group :: s.outer, depth⟩) := by
  rw [scan, Scan.step]
  cases enter limit s.depth ')' i with
  | error fault => rfl
  | ok depth => rfl

lemma scan_star (hbefore : lacksOperand before = false) :
    SameWithin limit (s.depth + 1) (scan alphabet limit (('*', i) :: before) s)
      (scan alphabet limit before (s.await .star s.group.children (s.depth + 1))) := by
  simp only [scan_star_eq, hbefore]
  exact enter_within.bind _

lemma scan_union {right : Regex} (hbefore : lacksOperand before = false) :
    SameWithin limit (s.depth + 1) (scan alphabet limit (('+', i) :: before) (s.extended [right]))
      (scan alphabet limit before
        (s.await (.union i right) s.group.children (s.depth + 1))) := by
  rw [scan_plus_eq (s := s.extended [right]) rfl, hbefore]
  exact enter_within.bind _

lemma scan_close :
    SameWithin limit (s.depth + 1) (scan alphabet limit ((')', i) :: before) s)
      (scan alphabet limit before
        { group := ⟨i, [], []⟩, outer := s.group :: s.outer, depth := s.depth + 1 }) := by
  rw [scan_close_eq]
  exact enter_within.bind _

lemma scan_open {group : Group} {outer : List Group} (houter : s.outer = group :: outer) :
    scan alphabet limit (('(', i) :: before) s =
      (Scan.add limit { group := group, outer := outer, depth := s.depth - 1 }
        (.word s.group.children) >>= scan alphabet limit before) := by
  simp only [scan, Scan.step, houter]

lemma Scan.step_symbol {c : Char} (hc : c ∈ alphabet) :
    s.step alphabet limit before c i =
      s.add limit (if isEntry before then .start c else .letter c) := by
  have hreserved := not_reserved hc
  unfold Scan.step
  split
  · exact absurd (by decide) hreserved
  · exact absurd (by decide) hreserved
  · exact absurd (by decide) hreserved
  · exact absurd (by decide) hreserved
  · rw [if_pos hc]

lemma scan_symbol {c : Char} (hc : c ∈ alphabet) :
    scan alphabet limit ((c, i) :: before) s =
      (s.add limit (if isEntry before then .start c else .letter c) >>=
        scan alphabet limit before) := by
  rw [scan, Scan.step_symbol hc]

lemma exists_of_unreadText_append {segment : Located} {first rest : List Char}
    (h : unreadText segment = first ++ rest) :
    ∃ left right, segment = right ++ left ∧ unreadText left = first ∧ unreadText right = rest := by
  have hmap : segment.map Prod.fst = rest.reverse ++ first.reverse := by
    rw [← List.reverse_append, ← h, unreadText, List.reverse_reverse]
  obtain ⟨right, left, rfl, hright, hleft⟩ := List.map_eq_append_iff.mp hmap
  exact ⟨left, right, rfl, by simp [unreadText, hleft], by simp [unreadText, hright]⟩

lemma unreadText_append {left right : Located} :
    unreadText (right ++ left) = unreadText left ++ unreadText right := by
  simp [unreadText]

lemma exists_of_unreadText_singleton {segment : Located} {c : Char}
    (h : unreadText segment = [c]) : ∃ i, segment = [(c, i)] := by
  have hmap : segment.map Prod.fst = [c] := by
    rw [← List.reverse_inj]
    exact h
  obtain ⟨⟨d, i⟩, hsegment, rfl⟩ := List.map_eq_singleton_iff.mp hmap
  exact ⟨i, hsegment⟩

lemma lacksOperand_spell {segment : Located} {r : Regex} {text : List Char}
    (hsegment : unreadText segment = r.spell) (hr : r.Readable alphabet text) :
    lacksOperand (segment ++ before) = false := by
  obtain ⟨init, c, hspell, hopen, hplus⟩ := exists_spell_eq_concat r hr
  rw [hspell] at hsegment
  obtain ⟨left, right, rfl, -, hright⟩ := exists_of_unreadText_append hsegment
  obtain ⟨i, rfl⟩ := exists_of_unreadText_singleton hright
  simp [lacksOperand, hopen, hplus]

/-! ### Spellings of trees -/

mutual

/-- Reading the spelling of a tree adds it to the innermost group. Operators can only wait for it if
it is no alternative. -/
lemma scan_spell (r : Regex) (segment before : Located) (s : Scan)
    (hsegment : unreadText segment = r.spell) (hr : r.Readable alphabet (unreadText before))
    (hpending : s.group.pending = [] ∨ r.IsOperand) (hfits : Fits limit s.depth) :
    SameWithin limit (s.depth + r.need) (scan alphabet limit (segment ++ before) s)
      (s.add limit r >>= scan alphabet limit before) :=
  match r with
  | .letter c => by
    obtain ⟨i, rfl⟩ := exists_of_unreadText_singleton hsegment
    obtain ⟨hc, hmarked⟩ := readable_letter.mp hr
    have hentry : ¬isEntry before := fun h => hmarked (isEntry_iff.mp h)
    rw [List.singleton_append, scan_symbol hc, if_neg hentry]
    exact .refl hfits _
  | .start c => by
    obtain ⟨i, rfl⟩ := exists_of_unreadText_singleton hsegment
    obtain ⟨hc, hmarked⟩ := readable_start.mp hr
    have hentry : isEntry before := isEntry_iff.mpr hmarked
    rw [List.singleton_append, scan_symbol hc, if_pos hentry]
    exact .refl hfits _
  | .word children => by
    obtain ⟨inner, last, rfl, hinner, hlast⟩ := exists_of_unreadText_append hsegment
    obtain ⟨i, rfl⟩ := exists_of_unreadText_singleton hlast
    have hfront : unreadText inner = ['('] ++ spellAll children := hinner
    obtain ⟨first, middle, rfl, hfirst, hmiddle⟩ := exists_of_unreadText_append hfront
    obtain ⟨j, rfl⟩ := exists_of_unreadText_singleton hfirst
    have hchildren : ReadableAll alphabet (unreadText (('(', j) :: before)) children := by
      rw [unreadText_cons]
      exact readable_word.mp hr
    have hsplit : [(')', i)] ++ (middle ++ [('(', j)]) ++ before =
        (')', i) :: (middle ++ (('(', j) :: before)) := by simp
    have hread (hfits : Fits limit (s.depth + 1)) := scan_spellAll children middle
      (('(', j) :: before)
      { group := ⟨i, [], []⟩, outer := s.group :: s.outer, depth := s.depth + 1 }
      hmiddle hchildren rfl hfits
    rw [scan_open rfl] at hread
    simp only [Scan.extended, List.append_nil, Nat.add_sub_cancel] at hread
    rw [hsplit]
    exact scan_close.trans hread (by rw [need]; omega)
  | .union left right => by
    have hnone : s.group.pending = [] := hpending.resolve_right id
    obtain ⟨hoperand, hleft, hright⟩ := readable_union.mp hr
    have hspell : unreadText segment = left.spell ++ (['+'] ++ right.spell) := hsegment
    obtain ⟨first, rest, rfl, hfirst, hrest⟩ := exists_of_unreadText_append hspell
    obtain ⟨operator, last, rfl, hoperator, hlast⟩ := exists_of_unreadText_append hrest
    obtain ⟨i, rfl⟩ := exists_of_unreadText_singleton hoperator
    have hbefore : unreadText (('+', i) :: (first ++ before)) =
        unreadText before ++ left.spell ++ ['+'] := by
      rw [unreadText_cons, unreadText_append, hfirst]
    rw [← hbefore] at hright
    have hplus : lacksOperand (first ++ before) = false := lacksOperand_spell hfirst hleft
    have hsplit : last ++ [('+', i)] ++ first ++ before =
        last ++ (('+', i) :: (first ++ before)) := by simp
    have hsecond := scan_spell right last (('+', i) :: (first ++ before)) s hlast hright
      (Or.inl hnone) hfits
    have hleading (hfits : Fits limit (s.depth + 1)) := scan_spell left first before
      (s.await (.union i right) s.group.children (s.depth + 1)) hfirst hleft (Or.inr hoperand) hfits
    have hboth := (Scan.add_await_union hnone limit i left right).bind (scan alphabet limit before)
    rw [Scan.add_of_pending_eq_nil hnone] at hsecond ⊢
    have hneeds : right.need ≤ right.depth ∧ left.need ≤ left.depth :=
      ⟨need_le_depth right, need_le_depth left⟩
    rw [hsplit]
    -- the right operand, the operator, the left operand, and the depth of both together
    refine hsecond.trans (fun _ => (scan_union hplus).trans (fun hfits => (hleading hfits).trans
      (fun _ => hboth) rfl) rfl) ?_
    simp only [need, depth, Scan.await]
    omega
  | .star child => by
    obtain ⟨hoperand, hchild⟩ := readable_star.mp hr
    obtain ⟨inner, last, rfl, hinner, hlast⟩ := exists_of_unreadText_append hsegment
    obtain ⟨i, rfl⟩ := exists_of_unreadText_singleton hlast
    have hsplit : [('*', i)] ++ inner ++ before = ('*', i) :: (inner ++ before) := rfl
    rw [hsplit, ← Scan.add_await_star]
    have hread (hfits : Fits limit (s.depth + 1)) := scan_spell child inner before
      (s.await .star s.group.children (s.depth + 1)) hinner hchild (Or.inr hoperand) hfits
    refine (scan_star (lacksOperand_spell hinner hchild)).trans hread ?_
    simp only [need, Scan.await]
    omega

lemma scan_spellAll (rs : List Regex) (segment before : Located) (s : Scan)
    (hsegment : unreadText segment = spellAll rs)
    (hr : ReadableAll alphabet (unreadText before) rs) (hpending : s.group.pending = [])
    (hfits : Fits limit s.depth) :
    SameWithin limit (s.depth + greatestNeed rs) (scan alphabet limit (segment ++ before) s)
      (scan alphabet limit before (s.extended rs)) :=
  match rs with
  | [] => by
    have hempty : segment = [] := by simpa [unreadText, spellAll] using hsegment
    rw [hempty]
    exact .refl hfits _
  | r :: rs => by
    obtain ⟨hfirst, hrest⟩ := readableAll_cons.mp hr
    obtain ⟨first, rest, rfl, hfirstText, hrestText⟩ := exists_of_unreadText_append hsegment
    rw [← hfirstText, ← unreadText_append] at hrest
    rw [List.append_assoc]
    have hread := scan_spellAll rs rest (first ++ before) s hrestText hrest hpending hfits
    have hnext := scan_spell r first before (s.extended rs) hfirstText hfirst (Or.inl hpending)
      hfits
    have hnone : (s.extended rs).group.pending = [] := hpending
    rw [Scan.add_of_pending_eq_nil hnone] at hnext
    refine hread.trans (fun _ => hnext) ?_
    simp only [greatestNeed, Scan.extended]
    omega

end

/-! ### The first pass -/

lemma checkBalance_inner {c : Char} {i : Nat} {rest : Located} {opened : List Nat}
    (hopen : c ≠ '(') (hclose : c ≠ ')') (hc : c = '*' ∨ c = '+' ∨ c ∈ alphabet) :
    checkBalance alphabet ((c, i) :: rest) opened = checkBalance alphabet rest opened := by
  rw [checkBalance]
  · exact if_pos hc
  · exact fun h => absurd h hopen
  · exact fun h => absurd h hclose

lemma checkBalance_symbol {c : Char} {i : Nat} {rest : Located} {opened : List Nat}
    (hc : c ∈ alphabet) :
    checkBalance alphabet ((c, i) :: rest) opened = checkBalance alphabet rest opened := by
  apply checkBalance_inner
  · exact ne_of_mem_alphabet hc (by decide)
  · exact ne_of_mem_alphabet hc (by decide)
  · exact Or.inr (Or.inr hc)

mutual

lemma checkBalance_spell (r : Regex) (segment rest : Located) (opened : List Nat)
    {before : List Char} (hsegment : segment.map Prod.fst = r.spell)
    (hr : r.Readable alphabet before) :
    checkBalance alphabet (segment ++ rest) opened = checkBalance alphabet rest opened :=
  match r with
  | .letter c => by
    obtain ⟨⟨_, i⟩, rfl, rfl⟩ := List.map_eq_singleton_iff.mp hsegment
    exact checkBalance_symbol (readable_letter.mp hr).1
  | .start c => by
    obtain ⟨⟨_, i⟩, rfl, rfl⟩ := List.map_eq_singleton_iff.mp hsegment
    exact checkBalance_symbol (readable_start.mp hr).1
  | .word children => by
    obtain ⟨front, last, rfl, hfront, hlast⟩ := List.map_eq_append_iff.mp hsegment
    obtain ⟨⟨_, i⟩, rfl, rfl⟩ := List.map_eq_singleton_iff.mp hlast
    obtain ⟨⟨_, j⟩, middle, rfl, rfl, hmiddle⟩ := List.map_eq_cons_iff.mp hfront
    rw [List.append_assoc, List.cons_append, checkBalance,
      checkBalance_spellAll children middle _ _ hmiddle (readable_word.mp hr)]
    rfl
  | .union left right => by
    obtain ⟨-, hleft, hright⟩ := readable_union.mp hr
    obtain ⟨first, back, rfl, hfirst, hback⟩ := List.map_eq_append_iff.mp hsegment
    obtain ⟨⟨_, i⟩, last, rfl, rfl, hlast⟩ := List.map_eq_cons_iff.mp hback
    rw [List.append_assoc, checkBalance_spell left first _ _ hfirst hleft, List.cons_append,
      checkBalance_inner (by decide) (by decide) (Or.inr (Or.inl rfl)),
      checkBalance_spell right last _ _ hlast hright]
  | .star child => by
    obtain ⟨first, last, rfl, hfirst, hlast⟩ := List.map_eq_append_iff.mp hsegment
    obtain ⟨⟨_, i⟩, rfl, rfl⟩ := List.map_eq_singleton_iff.mp hlast
    rw [List.append_assoc, checkBalance_spell child first _ _ hfirst (readable_star.mp hr).2]
    exact checkBalance_inner (by simp) (by simp) (Or.inl rfl)

lemma checkBalance_spellAll (rs : List Regex) (segment rest : Located) (opened : List Nat)
    {before : List Char} (hsegment : segment.map Prod.fst = spellAll rs)
    (hr : ReadableAll alphabet before rs) :
    checkBalance alphabet (segment ++ rest) opened = checkBalance alphabet rest opened :=
  match rs with
  | [] => by
    rw [List.map_eq_nil_iff.mp hsegment]
    rfl
  | r :: rs => by
    obtain ⟨hfirst, hrest⟩ := readableAll_cons.mp hr
    obtain ⟨first, last, rfl, hfirstText, hlast⟩ := List.map_eq_append_iff.mp hsegment
    rw [List.append_assoc, checkBalance_spell r first _ _ hfirstText hfirst,
      checkBalance_spellAll rs last _ _ hlast hrest]

end

/-- A well-formed tree is read from its spelling if the limit has room for its need, and otherwise
its nesting is found too deep. -/
theorem parse_spelled {r : Regex} (h : r.WellFormed alphabet) :
    SameWithin limit r.need (parse alphabet limit r.spellRoot) (.ok r) := by
  obtain ⟨children, rfl, hchildren⟩ := exists_of_wellFormed h
  have hbalance := checkBalance_spellAll children (spellAll children).zipIdx [] []
    (List.zipIdx_map_fst _ _) hchildren
  have hscan (hfits : Fits limit 1) := scan_spellAll children (spellAll children).zipIdx.reverse []
    ⟨⟨(spellAll children).length, [], []⟩, [], 1⟩ unreadText_zipIdx hchildren rfl hfits
  rw [List.append_nil] at hbalance
  simp only [List.append_nil] at hscan
  have hresult (hfits : Fits limit 1) := (hscan hfits).bind Scan.result
  simp only [scan, Scan.extended, List.append_nil] at hresult
  rw [spellRoot, parse, hbalance]
  exact (enter_within.bind _).trans hresult (by rw [need]; omega)

lemma parse_complete {r : Regex} (h : r.WellFormed alphabet) :
    parse alphabet none r.spellRoot = .ok r :=
  (parse_spelled h).same (Fits.unlimited _)

end RegexCompiler.Regex
