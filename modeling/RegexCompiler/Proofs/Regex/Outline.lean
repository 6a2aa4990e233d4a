import Mathlib.Data.Set.List
import RegexCompiler.Proofs.Text.Delimited
import RegexCompiler.Regex.Outline
import RegexCompiler.Regex.Spelling

/-!
# Reading outlines back

No two trees have the same outline. The lines of the text are told apart by the line breaks, and the
margin of a line by its first letter, so that the text determines the headings of all nodes and
their depths. The lines of a subtree end where a line is not deeper than its root. From this the
tree is read back node by node.
-/

namespace RegexCompiler

namespace Text

lemma flatMap_lines_injective {lines lines' : List (List Char)} (hlines : ∀ l ∈ lines, '\n' ∉ l)
    (hlines' : ∀ l ∈ lines', '\n' ∉ l)
    (heq : lines.flatMap (· ++ ['\n']) = lines'.flatMap (· ++ ['\n'])) : lines = lines' := by
  have hline : Delimited (fun l : { l : List Char // '\n' ∉ l } => l.1 ++ ['\n'])
      (fun _ => True) := by
    have hwords : Delimited (fun l : { l : List Char // '\n' ∉ l } => l.1)
        (Leaves (· != '\n')) := by
      refine Delimited.of_forall_mem Subtype.val_injective fun l c hc => ?_
      rw [bne_iff_ne]
      rintro rfl
      exact l.2 hc
    exact hwords.between [] ['\n'] fun s _ => by simp
  have hall : Delimited (List.flatMap fun l : { l : List Char // '\n' ∉ l } => l.1 ++ ['\n'])
      (· = []) :=
    hline.flatMap (fun _ _ => trivial) (fun _ _ => trivial) fun l s => by simp
  -- whether a line has a break inside is part of its type from here on
  lift lines to List { l : List Char // '\n' ∉ l } using hlines
  lift lines' to List { l : List Char // '\n' ∉ l } using hlines'
  rw [List.flatMap_map, List.flatMap_map] at heq
  obtain ⟨rfl, -⟩ := @hall lines lines' [] [] rfl rfl (congrArg (· ++ []) heq)
  rfl

end Text

/-- The palette has no line break in its codes. -/
def Palette.OneLine (palette : Palette) : Prop :=
  '\n' ∉ palette.symbol.toList ∧ '\n' ∉ palette.muted.toList ∧ '\n' ∉ palette.reset.toList

namespace Regex

variable {palette : Palette} {depth : Nat} {r r' : Regex}

/-- What an outline shows of a node besides its depth. -/
inductive Heading where
  | letter (c : Char)
  | start (c : Char)
  | nothing
  | word
  | union
  | star

namespace Heading

def text (palette : Palette) : Heading → String
  | letter c => "Letter " ++ palette.symbol ++ c.toString ++ palette.reset
  | start c => "Start " ++ palette.symbol ++ c.toString ++ palette.reset
  | nothing => "Word " ++ palette.muted ++ "∅" ++ palette.reset
  | word => "Word"
  | union => "Union"
  | star => "Star"

/-- The symbol in the heading, if there is one, is not a line break. -/
def OneLine : Heading → Prop
  | letter c => c ≠ '\n'
  | start c => c ≠ '\n'
  | _ => True

lemma text_injective (palette : Palette) : Function.Injective (text palette) := by
  intro h h' heq
  rw [← String.toList_inj] at heq
  cases h <;> cases h' <;> simp_all [text]

lemma leaves_text (h : Heading) : Text.Leaves (· == ' ') (h.text palette).toList := by
  cases h <;> simp [text]

end Heading

/-- A line for a node at some depth. -/
def line (palette : Palette) (entry : Nat × Heading) : String :=
  margin entry.1 ++ entry.2.text palette

lemma Heading.OneLine.line {entry : Nat × Heading} (h : entry.2.OneLine)
    (hpalette : palette.OneLine) : '\n' ∉ (line palette entry).toList := by
  obtain ⟨hsymbol, hmuted, hreset⟩ := hpalette
  obtain ⟨depth, heading⟩ := entry
  cases heading <;> simp_all [Regex.line, margin, Heading.text, OneLine, eq_comm]

lemma line_injective (palette : Palette) : Function.Injective (line palette) := by
  have hmargin : Text.Delimited (fun depth => (margin depth).toList) (Text.Leaves (· == ' ')) := by
    refine Text.Delimited.of_forall_mem (fun depth depth' heq => ?_) (by simp [margin])
    have hlength := congrArg List.length heq
    simp only [margin, String.toList_ofList, List.length_replicate] at hlength
    omega
  rintro ⟨depth, h⟩ ⟨depth', h'⟩ heq
  rw [← String.toList_inj, line, line, String.toList_append, String.toList_append] at heq
  obtain ⟨rfl, htext⟩ := hmargin h.leaves_text h'.leaves_text heq
  rw [Heading.text_injective palette (String.toList_inj.mp htext)]

/-! ### Headings -/

def heading : Regex → Heading
  | letter c => .letter c
  | start c => .start c
  | word [] => .nothing
  | word (_ :: _) => .word
  | union _ _ => .union
  | star _ => .star

/-- The trees directly below the root. -/
def parts : Regex → List Regex
  | letter _ => []
  | start _ => []
  | word children => children
  | union left right => [left, right]
  | star child => [child]

/-- The node with a heading and with trees below it. -/
def Heading.tree : Heading → List Regex → Regex
  | letter c, _ => .letter c
  | start c, _ => .start c
  | union, [left, right] => .union left right
  | star, [child] => .star child
  | _, children => .word children

lemma tree_heading (r : Regex) : r.heading.tree r.parts = r := by
  cases r with
  | word children => cases children <;> rfl
  | _ => rfl

mutual

/-- The headings of a tree in the order of the outline, with their depths. -/
def headings (depth : Nat) : Regex → List (Nat × Heading)
  | letter c => [(depth, .letter c)]
  | start c => [(depth, .start c)]
  | word [] => [(depth, .nothing)]
  | word (child :: children) => (depth, .word) :: headingsOf (depth + 1) (child :: children)
  | union left right =>
    (depth, .union) :: (headings (depth + 1) left ++ headings (depth + 1) right)
  | star child => (depth, .star) :: headings (depth + 1) child

def headingsOf (depth : Nat) : List Regex → List (Nat × Heading)
  | [] => []
  | child :: children => headings depth child ++ headingsOf depth children

end

lemma headings_eq (depth : Nat) (r : Regex) :
    headings depth r = (depth, r.heading) :: headingsOf (depth + 1) r.parts := by
  cases r with
  | word children => cases children <;> simp [headings, headingsOf, heading, parts]
  | _ => simp [headings, headingsOf, heading, parts]

mutual

lemma outlineLines_eq (palette : Palette) (depth : Nat) : ∀ r : Regex,
    outlineLines palette depth r = (headings depth r).map (line palette)
  | letter _ => by
    simp only [outlineLines, headings, List.map_singleton, line, Heading.text, String.append_assoc]
  | start _ => by
    simp only [outlineLines, headings, List.map_singleton, line, Heading.text, String.append_assoc]
  | word [] => by
    simp only [outlineLines, headings, List.map_singleton, line, Heading.text, String.append_assoc]
  | word (child :: children) => by
    rw [outlineLines, headings, outlineLinesOf_eq palette (depth + 1) (child :: children)]
    rfl
  | union left right => by
    rw [outlineLines, headings, outlineLines_eq palette (depth + 1) left,
      outlineLines_eq palette (depth + 1) right, List.map_cons, List.map_append]
    rfl
  | star child => by
    rw [outlineLines, headings, outlineLines_eq palette (depth + 1) child]
    rfl

lemma outlineLinesOf_eq (palette : Palette) (depth : Nat) : ∀ rs : List Regex,
    outlineLinesOf palette depth rs = (headingsOf depth rs).map (line palette)
  | [] => rfl
  | child :: children => by
    rw [outlineLinesOf, headingsOf, outlineLines_eq palette depth child,
      outlineLinesOf_eq palette depth children, List.map_append]

end

mutual

lemma oneLine_of_mem_headings {depth : Nat} : ∀ {r : Regex}, '\n' ∉ r.leaves →
    ∀ entry ∈ headings depth r, entry.2.OneLine
  | letter c, h => by simpa [headings, Heading.OneLine, leaves, eq_comm] using h
  | start c, h => by simpa [headings, Heading.OneLine, leaves, eq_comm] using h
  | word [], _ => by simp [headings, Heading.OneLine]
  | word (child :: children), h => by
    rw [headings, List.forall_mem_cons]
    exact ⟨trivial, oneLine_of_mem_headingsOf h⟩
  | union left right, h => by
    rw [leaves, List.mem_append, not_or] at h
    rw [headings, List.forall_mem_cons, List.forall_mem_append]
    exact ⟨trivial, oneLine_of_mem_headings h.1, oneLine_of_mem_headings h.2⟩
  | star child, h => by
    rw [headings, List.forall_mem_cons]
    exact ⟨trivial, oneLine_of_mem_headings h⟩

lemma oneLine_of_mem_headingsOf {depth : Nat} : ∀ {rs : List Regex}, '\n' ∉ leavesOf rs →
    ∀ entry ∈ headingsOf depth rs, entry.2.OneLine
  | [], _ => by simp [headingsOf]
  | child :: children, h => by
    rw [leavesOf, List.mem_append, not_or] at h
    rw [headingsOf, List.forall_mem_append]
    exact ⟨oneLine_of_mem_headings h.1, oneLine_of_mem_headingsOf h.2⟩

end

/-! ### Trees -/

/-- What follows is nothing that belongs below a node of the given depth. -/
def Ends (depth : Nat) (rest : List (Nat × Heading)) : Prop :=
  ∀ entry ∈ rest.head?, entry.1 ≤ depth

/-- The headings of a tree show the tree and where it ends. -/
def Legible (r : Regex) : Prop :=
  ∀ ⦃r' depth rest rest'⦄, Ends depth rest → Ends depth rest' →
    headings depth r ++ rest = headings depth r' ++ rest' → r = r' ∧ rest = rest'

/-- So do the headings of the trees below a node. -/
def LegibleParts (rs : List Regex) : Prop :=
  ∀ ⦃rs' depth rest rest'⦄, Ends depth rest → Ends depth rest' →
    headingsOf (depth + 1) rs ++ rest = headingsOf (depth + 1) rs' ++ rest' →
      rs = rs' ∧ rest = rest'

lemma headingsOf_cons_ne_of_ends {rest rest' : List (Nat × Heading)} (h : Ends depth rest)
    (r : Regex) (rs : List Regex) : rest ≠ headingsOf (depth + 1) (r :: rs) ++ rest' := by
  rintro rfl
  rw [headingsOf, headings_eq] at h
  have hle := h _ rfl
  dsimp only at hle
  omega

/-- A tree ends where the next one begins, or else where all of them end. -/
lemma ends_headingsOf_append {rest : List (Nat × Heading)} (h : Ends depth rest) (rs : List Regex) :
    Ends (depth + 1) (headingsOf (depth + 1) rs ++ rest) := by
  cases rs with
  | nil => exact fun entry hentry => Nat.le_succ_of_le (h entry hentry)
  | cons r rs =>
    rw [headingsOf, headings_eq]
    intro entry hentry
    cases hentry
    exact Nat.le_refl _

lemma LegibleParts.nil : LegibleParts [] := by
  intro rs' depth rest rest' hrest hrest' heq
  cases rs' with
  | nil => exact ⟨rfl, heq⟩
  | cons r' rs' => exact absurd heq (headingsOf_cons_ne_of_ends hrest r' rs')

lemma LegibleParts.cons {rs : List Regex} (hr : Legible r) (hrs : LegibleParts rs) :
    LegibleParts (r :: rs) := by
  intro rs' depth rest rest' hrest hrest' heq
  cases rs' with
  | nil => exact absurd heq.symm (headingsOf_cons_ne_of_ends hrest' r rs)
  | cons r' rs' =>
    rw [headingsOf, headingsOf, List.append_assoc, List.append_assoc] at heq
    obtain ⟨rfl, htail⟩ :=
      hr (ends_headingsOf_append hrest rs) (ends_headingsOf_append hrest' rs') heq
    obtain ⟨rfl, hend⟩ := hrs hrest hrest' htail
    exact ⟨rfl, hend⟩

lemma legible_of_parts (r : Regex) (h : LegibleParts r.parts) : Legible r := by
  intro r' depth rest rest' hrest hrest' heq
  rw [headings_eq, headings_eq, List.cons_append, List.cons_append, List.cons.injEq,
    Prod.mk.injEq] at heq
  obtain ⟨⟨-, hheading⟩, hparts⟩ := heq
  obtain ⟨hparts, heq⟩ := h hrest hrest' hparts
  exact ⟨by rw [← tree_heading r, hheading, hparts, tree_heading], heq⟩

mutual

lemma legible : ∀ r : Regex, Legible r
  | letter c => legible_of_parts (letter c) .nil
  | start c => legible_of_parts (start c) .nil
  | word children => legible_of_parts (word children) (legibleParts children)
  | union left right =>
    legible_of_parts (union left right) (.cons (legible left) (.cons (legible right) .nil))
  | star child => legible_of_parts (star child) (.cons (legible child) .nil)

lemma legibleParts : ∀ rs : List Regex, LegibleParts rs
  | [] => .nil
  | r :: rs => .cons (legible r) (legibleParts rs)

end

lemma headings_injective (depth : Nat) : Function.Injective (headings depth) := by
  intro r r' heq
  have hends : Ends depth [] := by simp [Ends]
  exact (legible r hends hends (congrArg (· ++ []) heq)).1

lemma eq_of_outline_eq (hpalette : palette.OneLine) (h : '\n' ∉ r.leaves) (h' : '\n' ∉ r'.leaves)
    (heq : outline palette r = outline palette r') : r = r' := by
  have htext : ∀ r, (outline palette r).toList =
      ((headings 0 r).map fun entry => (line palette entry).toList).flatMap (· ++ ['\n']) := by
    intro r
    simp [outline, outlineLines_eq, String.toList_join, List.flatMap_map]
  have hlines : ∀ r : Regex, '\n' ∉ r.leaves →
      ∀ l ∈ (headings 0 r).map fun entry => (line palette entry).toList, '\n' ∉ l := by
    intro r h l hl
    obtain ⟨entry, hentry, rfl⟩ := List.mem_map.mp hl
    exact (oneLine_of_mem_headings h entry hentry).line hpalette
  rw [← String.toList_inj, htext, htext] at heq
  have hsame := Text.flatMap_lines_injective (hlines r h) (hlines r' h') heq
  have hline : Function.Injective fun entry => (line palette entry).toList :=
    fun _ _ h => line_injective palette (String.toList_inj.mp h)
  exact headings_injective 0 (List.map_injective_iff.mpr hline hsame)

/-- Equal outlines show equal trees: the indentation gives back the shape of a tree, the number and
order of the operands and the difference between nothing and a concatenation, even where symbols
look like something else in the outline. -/
theorem outline_injective (r r' : Regex) (h : '\n' ∉ r.leaves) (h' : '\n' ∉ r'.leaves) :
    r.outline .plain = r'.outline .plain ↔ r = r' := by
  have hpalette : Palette.plain.OneLine := by simp [Palette.OneLine, Palette.plain]
  exact ⟨eq_of_outline_eq hpalette h h', congrArg _⟩

/-- A group around a symbol that looks like the mark of an empty concatenation. -/
theorem outline_injective_group :
    (word [star (word [letter '∅']), word []]).outline .plain ≠
      (word [star (letter '∅'), word []]).outline .plain := by
  have hleaves : '\n' ∉ (word [star (word [letter '∅']), word []]).leaves := by decide
  have hleaves' : '\n' ∉ (word [star (letter '∅'), word []]).leaves := by decide
  rw [Ne, outline_injective _ _ hleaves hleaves']
  simp

end Regex

end RegexCompiler
