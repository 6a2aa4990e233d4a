import RegexCompiler.Proofs.Regex.Readable
import RegexCompiler.Regex.Parser

/-!
# What a scan has read

At any time of the scan from right to left, the open groups and the waiting operators spell out what
has been read, in front of which the unread characters stand. Every step moves one character from
the one side to the other and keeps all trees readable where they stand. So whatever is read in the
end is well formed and has the text for its spelling, under any limit.
-/

namespace RegexCompiler.Regex

variable {alphabet : Alphabet} {limit : Option Nat}

lemma bind_eq_ok {ε α β : Type} {x : Except ε α} {f : α → Except ε β} {b : β} :
    (x >>= f) = .ok b ↔ ∃ a, x = .ok a ∧ f a = .ok b := by
  cases x with
  | error e =>
    constructor
    · intro h
      cases h
    · rintro ⟨a, h, -⟩
      cases h
  | ok a =>
    constructor
    · exact fun h => ⟨a, rfl, h⟩
    · rintro ⟨value, hvalue, h⟩
      rw [Except.ok.inj hvalue]
      exact h

/-- The unread characters from left to right. -/
def unreadText (unread : Located) : List Char :=
  (unread.map Prod.fst).reverse

@[simp] lemma unreadText_cons {c : Char} {i : Nat} {unread : Located} :
    unreadText ((c, i) :: unread) = unreadText unread ++ [c] := by
  simp [unreadText]

/-- What is written behind the operand that the operators wait for. -/
def pendingText : List Pending → List Char
  | [] => []
  | .star :: pending => '*' :: pendingText pending
  | .union _ right :: pending => '+' :: right.spell ++ pendingText pending

/-- What has been read of a group. -/
def Group.text (group : Group) : List Char :=
  pendingText group.pending ++ spellAll group.children

/-- What has been read of the groups around the innermost one. -/
def outerText : List Group → List Char
  | [] => []
  | group :: outer => ')' :: group.text ++ outerText outer

/-- What has been read. -/
def Scan.text (s : Scan) : List Char :=
  s.group.text ++ outerText s.outer

/-- An alternative can only be the last operator that waits, since it cannot be repeated. -/
def PendingReadable (alphabet : Alphabet) (before : List Char) : List Pending → Prop
  | [] => True
  | .star :: pending => PendingReadable alphabet (before ++ ['*']) pending
  | .union _ right :: pending => pending = [] ∧ right.Readable alphabet (before ++ ['+'])

structure Group.Readable (alphabet : Alphabet) (before : List Char) (group : Group) : Prop where
  pending : PendingReadable alphabet before group.pending
  children : ReadableAll alphabet (before ++ pendingText group.pending) group.children

def OuterReadable (alphabet : Alphabet) (before : List Char) : List Group → Prop
  | [] => True
  | group :: outer =>
    group.Readable alphabet (before ++ [')']) ∧
      OuterReadable alphabet (before ++ ')' :: group.text) outer

/-- No character of the text is lost, and all trees are readable where they stand. -/
structure Scan.Sound (alphabet : Alphabet) (text : List Char) (unread : Located) (s : Scan) :
    Prop where
  complete : unreadText unread ++ s.text = text
  group : s.group.Readable alphabet (unreadText unread)
  outer : OuterReadable alphabet (unreadText unread ++ s.group.text) s.outer
  operand : s.group.pending ≠ [] → lacksOperand unread = false

lemma Scan.Sound.pending_eq_nil {text : List Char} {unread : Located} {s : Scan}
    (hs : s.Sound alphabet text unread) (hunread : lacksOperand unread) :
    s.group.pending = [] := by
  by_contra hne
  rw [hs.operand hne] at hunread
  cases hunread

lemma applyPending_readable {pending : List Pending} {before : List Char} {operand child : Regex}
    {depth left : Nat} (hoperand : operand.IsOperand) (hreadable : operand.Readable alphabet before)
    (hpending : PendingReadable alphabet (before ++ operand.spell) pending)
    (h : applyPending limit pending depth operand = .ok (child, left)) :
    child.Readable alphabet before ∧ child.spell = operand.spell ++ pendingText pending := by
  induction pending generalizing operand depth with
  | nil =>
    rw [applyPending, Except.ok.injEq, Prod.mk.injEq] at h
    obtain ⟨rfl, -⟩ := h
    exact ⟨hreadable, (List.append_nil _).symm⟩
  | cons operator pending ih =>
    cases operator with
    | star =>
      rw [applyPending] at h
      have hstar : (star operand).Readable alphabet before :=
        readable_star.mpr ⟨hoperand, hreadable⟩
      rw [PendingReadable, List.append_assoc] at hpending
      have htight : (star operand).IsOperand := trivial
      obtain ⟨hchild, hspell⟩ := ih htight hstar hpending h
      refine ⟨hchild, ?_⟩
      rw [hspell, spell, List.append_assoc]
      rfl
    | union i right =>
      obtain ⟨rfl, hright⟩ := hpending
      rw [applyPending, bind_eq_ok] at h
      obtain ⟨-, -, h⟩ := h
      rw [applyPending, Except.ok.injEq, Prod.mk.injEq] at h
      obtain ⟨rfl, -⟩ := h
      refine ⟨readable_union.mpr ⟨hoperand, hreadable, hright⟩, ?_⟩
      rw [spell, pendingText, pendingText, List.append_nil]

lemma Scan.add_sound {text : List Char} {unread : Located} {s s' : Scan} {operand : Regex}
    (hoperand : operand.IsOperand) (hreadable : operand.Readable alphabet (unreadText unread))
    (hcomplete : unreadText unread ++ operand.spell ++ s.text = text)
    (hgroup : s.group.Readable alphabet (unreadText unread ++ operand.spell))
    (houter : OuterReadable alphabet (unreadText unread ++ operand.spell ++ s.group.text) s.outer)
    (h : s.add limit operand = .ok s') : s'.Sound alphabet text unread := by
  unfold Scan.add at h
  obtain ⟨⟨child, depth⟩, hchild, h⟩ := bind_eq_ok.mp h
  obtain ⟨hchildReadable, hspell⟩ := applyPending_readable hoperand hreadable hgroup.pending hchild
  have htext : child.spell ++ spellAll s.group.children = operand.spell ++ s.group.text := by
    rw [hspell, List.append_assoc, Group.text]
  have hs' : s' = { s with
      group := { s.group with children := child :: s.group.children, pending := [] }
      depth := depth } := (Except.ok.inj h).symm
  subst hs'
  refine ⟨?_, ⟨trivial, ?_⟩, ?_, fun hne => absurd rfl hne⟩
  · rw [← hcomplete]
    simp only [Scan.text, Group.text, pendingText, spellAll, List.nil_append]
    rw [htext]
    simp [Group.text]
  · rw [pendingText, List.append_nil, readableAll_cons, hspell, ← List.append_assoc]
    exact ⟨hchildReadable, hgroup.children⟩
  · simp only [Group.text, pendingText, spellAll, List.nil_append]
    rw [htext, ← List.append_assoc]
    exact houter

lemma isEntry_iff {before : Located} : isEntry before ↔ OnlyOpened (unreadText before) := by
  unfold isEntry OnlyOpened unreadText
  simp

variable {text : List Char} {before : Located} {i : Nat} {s s' : Scan}

lemma sound_star (hs : s.Sound alphabet text (('*', i) :: before))
    (hbefore : lacksOperand before = false) {depth : Nat} :
    (s.await .star s.group.children depth).Sound alphabet text before where
  complete := by
    rw [← hs.complete]
    simp [Scan.text, Group.text, Scan.await, pendingText]
  group := by
    have hgroup := hs.group
    rw [unreadText_cons] at hgroup
    refine ⟨hgroup.pending, ?_⟩
    have hchildren := hgroup.children
    rwa [List.append_assoc] at hchildren
  outer := by
    have houter := hs.outer
    rw [unreadText_cons, List.append_assoc] at houter
    exact houter
  operand _ := hbefore

lemma sound_union (hs : s.Sound alphabet text (('+', i) :: before))
    (hbefore : lacksOperand before = false) {right : Regex} {children : List Regex}
    (hchildren : s.group.children = right :: children) {depth : Nat} :
    (s.await (.union i right) children depth).Sound alphabet text before := by
  have hpending : s.group.pending = [] := hs.pending_eq_nil (by simp [lacksOperand])
  have hgroup := hs.group.children
  rw [hpending, hchildren, pendingText, List.append_nil, readableAll_cons,
    unreadText_cons] at hgroup
  have htext : s.group.text = right.spell ++ spellAll children := by
    rw [Group.text, hpending, hchildren, pendingText, spellAll, List.nil_append]
  refine ⟨?_, ⟨⟨hpending, hgroup.1⟩, ?_⟩, ?_, fun _ => hbefore⟩
  · rw [← hs.complete]
    simp [Scan.text, Group.text, Scan.await, pendingText, hpending, hchildren, spellAll]
  · have hrest := hgroup.2
    simpa [Scan.await, pendingText, hpending] using hrest
  · have houter := hs.outer
    rw [unreadText_cons, htext] at houter
    simpa [Scan.await, Group.text, pendingText, hpending] using houter

lemma sound_close (hs : s.Sound alphabet text ((')', i) :: before)) {depth : Nat} :
    Scan.Sound alphabet text before
      { group := ⟨i, [], []⟩, outer := s.group :: s.outer, depth := depth } where
  complete := by
    rw [← hs.complete]
    simp [Scan.text, Group.text, outerText, pendingText, spellAll]
  group := ⟨trivial, readableAll_nil⟩
  outer := by
    have hgroup := hs.group
    have houter := hs.outer
    rw [unreadText_cons] at hgroup houter
    rw [List.append_assoc] at houter
    have hempty : (Group.mk i [] []).text = [] := rfl
    rw [hempty, List.append_nil]
    exact ⟨hgroup, houter⟩
  operand h := absurd rfl h

lemma sound_open (hs : s.Sound alphabet text (('(', i) :: before)) {group : Group}
    {outer : List Group} (houter : s.outer = group :: outer) {depth : Nat}
    (h : Scan.add limit { group := group, outer := outer, depth := depth }
      (.word s.group.children) = .ok s') : s'.Sound alphabet text before := by
  have hpending : s.group.pending = [] := hs.pending_eq_nil (by simp [lacksOperand])
  have htext : s.group.text = spellAll s.group.children := by
    rw [Group.text, hpending, pendingText, List.nil_append]
  have hchildren := hs.group.children
  rw [hpending, pendingText, List.append_nil, unreadText_cons] at hchildren
  have hout := hs.outer
  rw [houter, unreadText_cons, htext] at hout
  obtain ⟨hgroup, hout⟩ := hout
  have hoperand : (word s.group.children).IsOperand := trivial
  refine Scan.add_sound hoperand (readable_word.mpr hchildren) ?_ ?_ ?_ h
  · rw [← hs.complete]
    simp [Scan.text, htext, houter, outerText, spell]
  · simpa [spell] using hgroup
  · simpa [spell] using hout

lemma sound_symbol {c : Char} (hs : s.Sound alphabet text ((c, i) :: before)) (hc : c ∈ alphabet)
    (h : s.add limit (if isEntry before then .start c else .letter c) = .ok s') :
    s'.Sound alphabet text before := by
  have hcomplete := hs.complete
  have hgroup := hs.group
  have houter := hs.outer
  rw [unreadText_cons] at hcomplete hgroup houter
  by_cases hentry : isEntry before
  · rw [if_pos hentry] at h
    have hoperand : (start c).IsOperand := trivial
    exact Scan.add_sound hoperand (readable_start.mpr ⟨hc, isEntry_iff.mp hentry⟩) hcomplete
      hgroup houter h
  · rw [if_neg hentry] at h
    have hoperand : (letter c).IsOperand := trivial
    have hread := readable_letter.mpr ⟨hc, fun ho => hentry (isEntry_iff.mpr ho)⟩
    exact Scan.add_sound hoperand hread hcomplete hgroup houter h

theorem Scan.step_sound {c : Char} (hs : s.Sound alphabet text ((c, i) :: before))
    (h : s.step alphabet limit before c i = .ok s') : s'.Sound alphabet text before := by
  unfold Scan.step at h
  split at h
  · obtain ⟨depth, -, h⟩ := bind_eq_ok.mp h
    split at h
    · cases h
    · rename_i hbefore
      cases h
      exact sound_star hs (by simpa using hbefore)
  · split at h
    · cases h
    · rename_i right children hchildren
      obtain ⟨depth, -, h⟩ := bind_eq_ok.mp h
      split at h
      · cases h
      · rename_i hbefore
        cases h
        exact sound_union hs (by simpa using hbefore) hchildren
  · obtain ⟨depth, -, h⟩ := bind_eq_ok.mp h
    cases h
    exact sound_close hs
  · split at h
    · cases h
    · rename_i group outer houter
      exact sound_open hs houter h
  · split at h
    · rename_i hc
      exact sound_symbol hs hc h
    · cases h

theorem scan_sound {unread : Located} (hs : s.Sound alphabet text unread)
    (h : scan alphabet limit unread s = .ok s') : s'.Sound alphabet text [] := by
  induction unread generalizing s with
  | nil =>
    rw [scan, Except.ok.injEq] at h
    rwa [← h]
  | cons located before ih =>
    obtain ⟨c, i⟩ := located
    rw [scan] at h
    obtain ⟨next, hstep, h⟩ := bind_eq_ok.mp h
    exact ih (Scan.step_sound hs hstep) h

lemma unreadText_zipIdx : unreadText text.zipIdx.reverse = text := by
  unfold unreadText
  rw [List.map_reverse, List.reverse_reverse, List.zipIdx_map_fst]

/-- Whatever is read is well formed and has the text for its spelling. -/
theorem parse_sound {r : Regex} (h : parse alphabet limit text = .ok r) :
    r.WellFormed alphabet ∧ r.spellRoot = text := by
  unfold parse at h
  obtain ⟨-, -, h⟩ := bind_eq_ok.mp h
  obtain ⟨depth, -, h⟩ := bind_eq_ok.mp h
  obtain ⟨s, hscan, hresult⟩ := bind_eq_ok.mp h
  have hinitial : Scan.Sound alphabet text text.zipIdx.reverse
      ⟨⟨text.length, [], []⟩, [], depth⟩ := by
    refine ⟨?_, ⟨trivial, readableAll_nil⟩, trivial, fun hne => absurd rfl hne⟩
    rw [unreadText_zipIdx]
    exact List.append_nil _
  have hs := scan_sound hinitial hscan
  have hpending : s.group.pending = [] := hs.pending_eq_nil (by simp [lacksOperand])
  unfold Scan.result at hresult
  split at hresult
  · rename_i houter
    cases hresult
    have hchildren := hs.group.children
    have hcomplete := hs.complete
    rw [hpending] at hchildren
    rw [Scan.text, Group.text, hpending, houter] at hcomplete
    refine ⟨wellFormed_word.mpr hchildren, ?_⟩
    simpa [unreadText, pendingText, outerText, spellRoot] using hcomplete
  · cases hresult

end RegexCompiler.Regex
