import RegexCompiler.Proofs.Regex.Completeness
import RegexCompiler.Regex.Language

/-!
# Reading and the grammar

A derivation of a text is a readable tree with this spelling that matches the derived language, and
such a tree is a derivation. Since a text has at most one such tree, it has at most one language,
and the scan finds exactly this tree.
-/

namespace RegexCompiler

open Regex

variable {alphabet : Alphabet}

/-- The text has no other characters than the symbols of the alphabet and those of the notation. -/
def WrittenOver (alphabet : Alphabet) (text : List Char) : Prop :=
  ∀ c ∈ text, c ∈ alphabet ∨ c ∈ reservedCharacters

lemma writtenOver_append {first rest : List Char} :
    WrittenOver alphabet (first ++ rest) ↔ WrittenOver alphabet first ∧ WrittenOver alphabet rest :=
  List.forall_mem_append

lemma writtenOver_cons {c : Char} {text : List Char} :
    WrittenOver alphabet (c :: text) ↔
      (c ∈ alphabet ∨ c ∈ reservedCharacters) ∧ WrittenOver alphabet text :=
  List.forall_mem_cons

mutual

lemma AtomText.exists_tree {text : List Char} {L : List Char → Prop} (h : AtomText text L)
    (before : List Char) (hwritten : WrittenOver alphabet text) :
    ∃ r : Regex, r.IsOperand ∧ r.Readable alphabet before ∧ r.spell = text ∧ r.Matches = L :=
  match h with
  | .symbol c hc => by
    have hknown : c ∈ alphabet := (hwritten c (List.mem_singleton_self c)).resolve_right hc
    by_cases hbefore : OnlyOpened before
    · exact ⟨.start c, trivial, readable_start.mpr ⟨hknown, hbefore⟩, rfl, rfl⟩
    · exact ⟨.letter c, trivial, readable_letter.mpr ⟨hknown, hbefore⟩, rfl, rfl⟩
  | .group hword => by
    have hinner := (writtenOver_append.mp hwritten).1
    obtain ⟨children, hchildren, rfl, rfl⟩ :=
      hword.exists_trees (before ++ ['(']) (writtenOver_cons.mp hinner).2
    exact ⟨.word children, trivial, readable_word.mpr hchildren, rfl, rfl⟩
  | .repetition hatom => by
    obtain ⟨child, hoperand, hchild, rfl, rfl⟩ :=
      hatom.exists_tree before (writtenOver_append.mp hwritten).1
    exact ⟨.star child, trivial, readable_star.mpr ⟨hoperand, hchild⟩, rfl, rfl⟩

lemma ItemText.exists_tree {text : List Char} {L : List Char → Prop} (h : ItemText text L)
    (before : List Char) (hwritten : WrittenOver alphabet text) :
    ∃ r : Regex, r.Readable alphabet before ∧ r.spell = text ∧ r.Matches = L :=
  match h with
  | .atom hatom => by
    obtain ⟨r, -, hr⟩ := hatom.exists_tree before hwritten
    exact ⟨r, hr⟩
  | .choice hatom hitem => by
    obtain ⟨hfirst, hrest⟩ := writtenOver_append.mp hwritten
    obtain ⟨left, hoperand, hleft, rfl, rfl⟩ := hatom.exists_tree before hfirst
    obtain ⟨right, hright, rfl, rfl⟩ :=
      hitem.exists_tree (before ++ left.spell ++ ['+']) (writtenOver_cons.mp hrest).2
    exact ⟨.union left right, readable_union.mpr ⟨hoperand, hleft, hright⟩, rfl, rfl⟩

lemma WordText.exists_trees {text : List Char} {L : List Char → Prop} (h : WordText text L)
    (before : List Char) (hwritten : WrittenOver alphabet text) :
    ∃ rs, ReadableAll alphabet before rs ∧ spellAll rs = text ∧ MatchesInOrder rs = L :=
  match h with
  | .empty => ⟨[], readableAll_nil, rfl, rfl⟩
  | .cons hitem hword => by
    obtain ⟨hfirst, hrest⟩ := writtenOver_append.mp hwritten
    obtain ⟨r, hr, rfl, rfl⟩ := hitem.exists_tree before hfirst
    obtain ⟨rs, hrs, rfl, rfl⟩ := hword.exists_trees (before ++ r.spell) hrest
    exact ⟨r :: rs, readableAll_cons.mpr ⟨hr, hrs⟩, rfl, rfl⟩

end

namespace Regex

mutual

/-- A readable tree is a derivation of its spelling, of an atom unless it is an alternative. -/
lemma derivation {before : List Char} (r : Regex) (hr : r.Readable alphabet before) :
    ItemText r.spell r.Matches ∧ (r.IsOperand → AtomText r.spell r.Matches) :=
  match r with
  | .letter c => by
    have hatom : AtomText [c] (· = [c]) := .symbol c (not_reserved (readable_letter.mp hr).1)
    exact ⟨.atom hatom, fun _ => hatom⟩
  | .start c => by
    have hatom : AtomText [c] (· = [c]) := .symbol c (not_reserved (readable_start.mp hr).1)
    exact ⟨.atom hatom, fun _ => hatom⟩
  | .word children => by
    have hatom := AtomText.group (derivationAll children (readable_word.mp hr))
    exact ⟨.atom hatom, fun _ => hatom⟩
  | .union left right => by
    obtain ⟨hoperand, hleft, hright⟩ := readable_union.mp hr
    have hatom := (derivation left hleft).2 hoperand
    exact ⟨.choice hatom (derivation right hright).1, fun h => absurd h id⟩
  | .star child => by
    obtain ⟨hoperand, hchild⟩ := readable_star.mp hr
    have hatom := AtomText.repetition ((derivation child hchild).2 hoperand)
    exact ⟨.atom hatom, fun _ => hatom⟩

lemma derivationAll {before : List Char} (rs : List Regex)
    (hrs : ReadableAll alphabet before rs) : WordText (spellAll rs) (MatchesInOrder rs) :=
  match rs with
  | [] => .empty
  | r :: rs => by
    obtain ⟨hr, hrest⟩ := readableAll_cons.mp hrs
    exact .cons (derivation r hr).1 (derivationAll rs hrest)

end

mutual

lemma writtenOver_spell (r : Regex) (h : ∀ c ∈ r.leaves, c ∈ alphabet) :
    WrittenOver alphabet r.spell :=
  match r with
  | .letter _ => fun c hc => Or.inl (h c hc)
  | .start _ => fun c hc => Or.inl (h c hc)
  | .word children => by
    have hinner := writtenOver_spellAll children h
    refine writtenOver_append.mpr ⟨writtenOver_cons.mpr ⟨Or.inr (by decide), hinner⟩, ?_⟩
    exact List.forall_mem_singleton.mpr (Or.inr (by decide))
  | .union left right => by
    have hleft := writtenOver_spell left fun c hc => h c (List.mem_append_left _ hc)
    have hright := writtenOver_spell right fun c hc => h c (List.mem_append_right _ hc)
    exact writtenOver_append.mpr ⟨hleft, writtenOver_cons.mpr ⟨Or.inr (by decide), hright⟩⟩
  | .star child => by
    refine writtenOver_append.mpr ⟨writtenOver_spell child h, ?_⟩
    exact List.forall_mem_singleton.mpr (Or.inr (by decide))

lemma writtenOver_spellAll (rs : List Regex) (h : ∀ c ∈ leavesOf rs, c ∈ alphabet) :
    WrittenOver alphabet (spellAll rs) :=
  match rs with
  | [] => fun _ hc => absurd hc List.not_mem_nil
  | r :: rs => by
    have hfirst := writtenOver_spell r fun c hc => h c (List.mem_append_left _ hc)
    have hrest := writtenOver_spellAll rs fun c hc => h c (List.mem_append_right _ hc)
    exact writtenOver_append.mpr ⟨hfirst, hrest⟩

end

variable {limit : Option Nat} {text : List Char} {r : Regex}

theorem parse_none_iff :
    parse alphabet none text = .ok r ↔ r.WellFormed alphabet ∧ r.spellRoot = text := by
  constructor
  · exact parse_sound
  · rintro ⟨hr, rfl⟩
    exact parse_complete hr

lemma parse_none_of_parse (h : parse alphabet limit text = .ok r) :
    parse alphabet none text = .ok r :=
  parse_none_iff.mpr (parse_sound h)

theorem inLanguage_iff_matches (h : parse alphabet limit text = .ok r) {word : List Char} :
    InLanguage text word ↔ r.Matches word := by
  obtain ⟨hr, hspell⟩ := parse_sound h
  obtain ⟨children, rfl, hchildren⟩ := exists_of_wellFormed hr
  have hwritten : WrittenOver alphabet text := by
    rw [← hspell]
    exact writtenOver_spellAll children hchildren.known
  constructor
  · rintro ⟨L, htext, hword⟩
    obtain ⟨others, hothers, hspells, rfl⟩ := htext.exists_trees [] hwritten
    have hother := parse_none_iff.mpr ⟨wellFormed_word.mpr hothers, hspells⟩
    rw [parse_none_of_parse h, Except.ok.injEq, Regex.word.injEq] at hother
    rw [hother]
    exact hword
  · intro hword
    exact ⟨_, hspell ▸ derivationAll children hchildren, hword⟩

/-- Reading inverts spelling: a text is read as a tree exactly if the tree is well formed and spells
it. The texts that are read are those of the grammar over the alphabet, each with a single tree. -/
theorem parse_inverts_spelling (alphabet : Alphabet) (text : List Char) :
    (∀ r, parse alphabet none text = .ok r ↔ r.WellFormed alphabet ∧ r.spellRoot = text) ∧
      ((∃ L, WordText text L) ∧ (∀ c ∈ text, c ∈ alphabet ∨ c ∈ reservedCharacters) ↔
        ∃! r : Regex, r.WellFormed alphabet ∧ r.spellRoot = text) := by
  refine ⟨fun r => parse_none_iff, ?_, ?_⟩
  · rintro ⟨⟨L, htext⟩, hwritten⟩
    obtain ⟨children, hchildren, hspell, -⟩ := htext.exists_trees [] hwritten
    refine ⟨.word children, ⟨wellFormed_word.mpr hchildren, hspell⟩, fun other hother => ?_⟩
    have hread := parse_none_iff.mpr hother
    rw [parse_none_iff.mpr ⟨wellFormed_word.mpr hchildren, hspell⟩] at hread
    exact (Except.ok.inj hread).symm
  · rintro ⟨r, ⟨hr, hspell⟩, -⟩
    obtain ⟨children, rfl, hchildren⟩ := exists_of_wellFormed hr
    rw [← hspell]
    exact ⟨⟨_, derivationAll children hchildren⟩, writtenOver_spellAll children hchildren.known⟩

end Regex

end RegexCompiler
