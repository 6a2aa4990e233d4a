import RegexCompiler.Proofs.Regex.Readable
import RegexCompiler.Regex.Entry
import RegexCompiler.Regex.Language

/-!
# Entries and symbols of readable trees

A readable tree has at most one marked symbol, and it stands where a match begins: something other
than an opening parenthesis is written before every other symbol. The words that a tree matches are
written with its symbols.
-/

namespace RegexCompiler.Regex

variable {alphabet : Alphabet}

lemma not_onlyOpened_append {before rest : List Char} (h : ¬OnlyOpened before) :
    ¬OnlyOpened (before ++ rest) :=
  fun hall => h fun c hc => hall c (List.mem_append_left _ hc)

lemma not_onlyOpened_of_mem {before : List Char} {c : Char} (hc : c ∈ before) (hne : c ≠ '(') :
    ¬OnlyOpened before :=
  fun hall => hne (hall c hc)

mutual

lemma marks_eq_zero {before : List Char} (hbefore : ¬OnlyOpened before) (r : Regex)
    (h : r.Marked before) : r.marks = 0 :=
  match r with
  | .letter _ => rfl
  | .start _ => absurd h hbefore
  | .word children => marksOf_eq_zero (not_onlyOpened_append hbefore) children h
  | .union left right => by
    have hright : ¬OnlyOpened (before ++ left.spell ++ ['+']) :=
      not_onlyOpened_append (not_onlyOpened_append hbefore)
    rw [marks, marks_eq_zero hbefore left h.1, marks_eq_zero hright right h.2]
  | .star child => marks_eq_zero hbefore child h

lemma marksOf_eq_zero {before : List Char} (hbefore : ¬OnlyOpened before) (rs : List Regex)
    (h : MarkedAll before rs) : marksOf rs = 0 :=
  match rs with
  | [] => rfl
  | r :: rs => by
    rw [marksOf, marks_eq_zero hbefore r h.1,
      marksOf_eq_zero (not_onlyOpened_append hbefore) rs h.2]

end

lemma Readable.marks_right {before : List Char} {left right : Regex}
    (h : (union left right).Readable alphabet before) : right.marks = 0 := by
  have hplus : ¬OnlyOpened (before ++ left.spell ++ ['+']) :=
    not_onlyOpened_of_mem (List.mem_append_right _ List.mem_cons_self) (by decide)
  exact marks_eq_zero hplus right (readable_union.mp h).2.2.marked

lemma ReadableAll.marks_rest {before : List Char} {r : Regex} {rs : List Regex}
    (h : ReadableAll alphabet before (r :: rs)) : marksOf rs = 0 := by
  obtain ⟨hr, hrest⟩ := readableAll_cons.mp h
  obtain ⟨init, c, hspell, hc, -⟩ := exists_spell_eq_concat r hr
  have hmem : c ∈ before ++ r.spell := by
    rw [hspell]
    simp
  exact marksOf_eq_zero (not_onlyOpened_of_mem hmem hc) rs hrest.marked

mutual

lemma Readable.markedAtEntry {before : List Char} (r : Regex) (hr : r.Readable alphabet before) :
    r.marks ≤ 1 ∧ r.MarkedAtEntry :=
  match r with
  | .letter _ => ⟨Nat.zero_le 1, trivial⟩
  | .start _ => ⟨Nat.le_refl 1, trivial⟩
  | .word children => ReadableAll.firstMarkedAtEntry children (readable_word.mp hr)
  | .union left right => by
    obtain ⟨hmarks, hentry⟩ := Readable.markedAtEntry left (readable_union.mp hr).2.1
    have hnone := hr.marks_right
    refine ⟨?_, hentry, markedAtEntry_of_unmarked right hnone⟩
    rw [marks, hnone]
    exact hmarks
  | .star child => Readable.markedAtEntry child (readable_star.mp hr).2

lemma ReadableAll.firstMarkedAtEntry {before : List Char} (rs : List Regex)
    (hrs : ReadableAll alphabet before rs) : marksOf rs ≤ 1 ∧ FirstMarkedAtEntry rs :=
  match rs with
  | [] => ⟨Nat.zero_le 1, trivial⟩
  | r :: rs => by
    obtain ⟨hmarks, hentry⟩ := Readable.markedAtEntry r (readableAll_cons.mp hrs).1
    have hnone := hrs.marks_rest
    refine ⟨?_, hentry, hnone⟩
    rw [marksOf, hnone]
    exact hmarks

end

theorem WellFormed.markedAtEntry {r : Regex} (hr : r.WellFormed alphabet) :
    r.marks ≤ 1 ∧ r.MarkedAtEntry := by
  obtain ⟨children, rfl, hchildren⟩ := exists_of_wellFormed hr
  exact hchildren.firstMarkedAtEntry

/-- Behind the parentheses that open a text there is a symbol and the tree is entered at it, or
there is a closing one and the tree has no marked symbol. -/
inductive Opens (alphabet : Alphabet) (r : Regex) (text : List Char) : Prop where
  | symbol (c : Char) (rest : List Char) : c ∈ alphabet → text.dropWhile (· = '(') = c :: rest →
      r.marks = 1 → r.EnteredFirst c → Opens alphabet r text
  | close (rest : List Char) : text.dropWhile (· = '(') = ')' :: rest → r.marks = 0 →
      Opens alphabet r text

namespace Opens

variable {r r' : Regex} {text : List Char}

lemma parenthesis (h : Opens alphabet r text) : Opens alphabet r ('(' :: text) := by
  have hdrop : ('(' :: text).dropWhile (· = '(') = text.dropWhile (· = '(') := rfl
  cases h with
  | symbol c rest hc htext => exact .symbol c rest hc (hdrop.trans htext) ‹_› ‹_›
  | close rest htext => exact .close rest (hdrop.trans htext) ‹_›

lemma append (h : Opens alphabet r text) (hmarks : r'.marks = r.marks)
    (hfirst : ∀ c, r.EnteredFirst c → r'.EnteredFirst c) (more : List Char) :
    Opens alphabet r' (text ++ more) := by
  cases h with
  | symbol c rest hc htext hone hentered =>
    refine .symbol c (rest ++ more) hc ?_ (hmarks.trans hone) (hfirst c hentered)
    rw [List.dropWhile_append, htext]
    rfl
  | close rest htext hzero =>
    refine .close (rest ++ more) ?_ (hmarks.trans hzero)
    rw [List.dropWhile_append, htext]
    rfl

end Opens

mutual

lemma Readable.opens {before : List Char} (hbefore : OnlyOpened before) (r : Regex)
    (hr : r.Readable alphabet before) : Opens alphabet r r.spell :=
  match r with
  | .letter c => absurd hbefore (readable_letter.mp hr).2
  | .start c => by
    have hc := (readable_start.mp hr).1
    have hopen : c ≠ '(' := ne_of_mem_alphabet hc (by decide)
    exact .symbol c [] hc (List.dropWhile_cons_of_neg (by simpa using hopen)) rfl .start
  | .word [] => .close [] rfl rfl
  | .word (child :: children) => by
    have hgroup : OnlyOpened (before ++ ['(']) :=
      List.forall_mem_append.mpr ⟨hbefore, List.forall_mem_singleton.mpr rfl⟩
    have hinner := ReadableAll.opens hgroup child children (readable_word.mp hr)
    exact hinner.parenthesis.append rfl (fun _ h => h) [')']
  | .union left right => by
    have hmarks : (union left right).marks = left.marks := by
      rw [marks, hr.marks_right, Nat.add_zero]
    have hleft := Readable.opens hbefore left (readable_union.mp hr).2.1
    exact hleft.append hmarks (fun _ h => .union h) _
  | .star child => by
    have hmarks : (star child).marks = child.marks := rfl
    have hchild := Readable.opens hbefore child (readable_star.mp hr).2
    exact hchild.append hmarks (fun _ h => .star h) _

lemma ReadableAll.opens {before : List Char} (hbefore : OnlyOpened before) (r : Regex)
    (rs : List Regex) (hrs : ReadableAll alphabet before (r :: rs)) :
    Opens alphabet (word (r :: rs)) (spellAll (r :: rs)) := by
  have hmarks : (word (r :: rs)).marks = r.marks := by
    rw [marks, marksOf, hrs.marks_rest, Nat.add_zero]
  have hfirst := Readable.opens hbefore r (readableAll_cons.mp hrs).1
  exact hfirst.append hmarks (fun _ h => .word h) (spellAll rs)

end

lemma forall_mem_of_repeated {L : List Char → Prop} {p : Char → Prop}
    (hL : ∀ word, L word → ∀ c ∈ word, p c) {word : List Char} (h : Repeated L word) :
    ∀ c ∈ word, p c := by
  induction h with
  | none => exact fun c hc => absurd hc List.not_mem_nil
  | more hfirst _ ih => exact List.forall_mem_append.mpr ⟨hL _ hfirst, ih⟩

mutual

lemma mem_leaves_of_matches (r : Regex) (word : List Char) (h : r.Matches word) :
    ∀ c ∈ word, c ∈ r.leaves :=
  match r with
  | .letter a => by
    rw [show word = [a] from h]
    exact fun c hc => hc
  | .start a => by
    rw [show word = [a] from h]
    exact fun c hc => hc
  | .word children => mem_leavesOf_of_matches children word h
  | .union left right => by
    intro c hc
    rcases h with h | h
    · exact List.mem_append_left _ (mem_leaves_of_matches left word h c hc)
    · exact List.mem_append_right _ (mem_leaves_of_matches right word h c hc)
  | .star child => forall_mem_of_repeated (mem_leaves_of_matches child) h

lemma mem_leavesOf_of_matches (rs : List Regex) (word : List Char)
    (h : MatchesInOrder rs word) : ∀ c ∈ word, c ∈ leavesOf rs :=
  match rs with
  | [] => by
    rw [show word = [] from h]
    exact fun c hc => hc
  | r :: rs => by
    obtain ⟨first, rest, hfirst, hrest, rfl⟩ := h
    refine List.forall_mem_append.mpr ⟨fun c hc => ?_, fun c hc => ?_⟩
    · exact List.mem_append_left _ (mem_leaves_of_matches r first hfirst c hc)
    · exact List.mem_append_right _ (mem_leavesOf_of_matches rs rest hrest c hc)

end

lemma WellFormed.mem_alphabet {r : Regex} (hr : r.WellFormed alphabet) {word : List Char}
    (h : r.Matches word) : ∀ c ∈ word, c ∈ alphabet := by
  obtain ⟨children, rfl, hchildren⟩ := exists_of_wellFormed hr
  exact fun c hc => hchildren.known c (mem_leaves_of_matches _ word h c hc)

end RegexCompiler.Regex
