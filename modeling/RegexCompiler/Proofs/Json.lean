import RegexCompiler.Json
import RegexCompiler.Proofs.Decimal
import RegexCompiler.Proofs.Text.Delimited

/-!
# What written JSON tells

A quoted text and a list show where they end. The two forms of a value only differ in blanks and
line breaks outside of quoted texts, so the form for readers tells no less than the one without
spaces.
-/

namespace RegexCompiler.Json

open Text

/-- The characters that are not written as they are inside a JSON text. -/
def escaped : List Char :=
  '"' :: '\\' :: (List.range 32).map Char.ofNat

lemma escape_eq_self {c : Char} (h : c ∉ escaped) : escape c = [c] := by
  have hprintable : ¬c.toNat < 32 := by
    intro hlt
    apply h
    simp only [escaped, List.mem_cons, List.mem_map, List.mem_range]
    exact Or.inr (Or.inr ⟨c.toNat, hlt, Char.ofNat_toNat c⟩)
  unfold escape
  split
  case h_8 => rw [if_neg (by omega), if_neg (by omega)]
  all_goals exact absurd (by decide) h

lemma exists_escape_eq {c : Char} (h : c ∈ escaped) :
    ∃ d x, escape c = '\\' :: d :: x ∧ ∀ e ∈ x, e ≠ '"' ∧ e ≠ '\\' := by
  have hall : escaped.all fun c => (escape c).head? == some '\\' && 2 ≤ (escape c).length &&
      ((escape c).drop 2).all fun e => e != '"' && e != '\\' := by
    decide
  have hc := List.all_eq_true.mp hall c h
  simp only [Bool.and_eq_true, List.all_eq_true, bne_iff_ne, beq_iff_eq] at hc
  obtain ⟨⟨hhead, hlength⟩, hrest⟩ := hc
  match hx : escape c with
  | [] => simp [hx] at hlength
  | [d] => simp [hx] at hlength
  | b :: d :: x =>
    rw [hx] at hhead hrest
    obtain rfl := Option.some.inj hhead
    exact ⟨d, x, rfl, hrest⟩

lemma head_escape {c : Char} (h : c ∈ escaped) : (escape c).head? = some '\\' := by
  obtain ⟨d, x, hx, -⟩ := exists_escape_eq h
  rw [hx]
  rfl

lemma prefixFree_escape {c d : Char} (hc : c ∈ escaped) (hd : d ∈ escaped)
    (h : escape c <+: escape d) : c = d := by
  have hall : escaped.all fun c => escaped.all fun d =>
      !(escape c).isPrefixOf (escape d) || c == d := by
    decide +kernel
  have hcd := List.all_eq_true.mp (List.all_eq_true.mp hall c hc) d hd
  rw [List.isPrefixOf_iff_prefix.mpr h] at hcd
  exact eq_of_beq hcd

lemma head_escape_ne_quote (c : Char) (s : List Char) : (escape c ++ s).head? ≠ some '"' := by
  by_cases hc : c ∈ escaped
  · simp [List.head?_append, head_escape hc]
  · rw [escape_eq_self hc]
    rintro ⟨⟩
    exact hc (by decide)

lemma escape_ne_of_not_mem {c d : Char} (hc : c ∈ escaped) (hd : d ∉ escaped) (s t : List Char) :
    escape c ++ s ≠ escape d ++ t := by
  intro heq
  have hhead := congrArg List.head? heq
  rw [List.head?_append, head_escape hc, escape_eq_self hd] at hhead
  cases hhead
  exact hd (by decide)

lemma escape_delimited : Delimited escape fun _ => True := by
  intro c d s t _ _ heq
  by_cases hc : c ∈ escaped <;> by_cases hd : d ∈ escaped
  · have hcd : c = d := by
      rcases List.prefix_or_prefix_of_prefix ⟨s, heq⟩ ⟨t, rfl⟩ with h | h
      · exact prefixFree_escape hc hd h
      · exact (prefixFree_escape hd hc h).symm
    rw [hcd] at heq
    exact ⟨hcd, List.append_cancel_left heq⟩
  · exact absurd heq (escape_ne_of_not_mem hc hd s t)
  · exact absurd heq.symm (escape_ne_of_not_mem hd hc t s)
  · rw [escape_eq_self hc, escape_eq_self hd] at heq
    exact List.cons.inj heq

/-- A quoted text ends at the first quotation mark that is not escaped. -/
theorem quoted_delimited : Delimited (fun text => (quoted text).toList) fun _ => True := by
  have hbody : Delimited (List.flatMap escape) (·.head? = some '"') :=
    escape_delimited.flatMap (fun _ _ => trivial) (fun _ _ => trivial) head_escape_ne_quote
  have htext := hbody.comp fun _ _ => String.toList_inj.mp
  have hquoted := htext.between ['"'] ['"'] (fun s (_ : True) => rfl)
  simpa [quoted] using hquoted

lemma quoted_append_inj {a b : String} {s t : List Char}
    (h : (quoted a).toList ++ s = (quoted b).toList ++ t) : a = b ∧ s = t :=
  quoted_delimited trivial trivial h

lemma compactItems_eq_map (items : List Json) : compactItems items = items.map compact := by
  induction items with
  | nil => rfl
  | cons item items ih => rw [compactItems, ih, List.map_cons]

lemma list_delimited {α : Type} {toJson : α → Json}
    (h : Delimited (fun a => (toJson a).compact.toList) fun _ => True)
    (hitem : ∀ a s, ((toJson a).compact.toList ++ s).head? ≠ some ']') :
    Delimited (fun values : List α => (Json.list (values.map toJson)).compact.toList)
      fun _ => True := by
  have hitems : Delimited (separated (fun a => (toJson a).compact.toList) [','] [])
      (·.head? = some ']') := by
    apply h.separated (fun _ => trivial) (fun _ _ => trivial)
    · simp
    · rintro a s t ht heq
      rw [List.nil_append] at heq
      exact hitem a s (heq ▸ ht)
  have hlist := hitems.between ['['] [']'] (fun s (_ : True) => rfl)
  have hwritten : ∀ values : List α, (Json.list (values.map toJson)).compact.toList =
      ['['] ++ separated (fun a => (toJson a).compact.toList) [','] [] values ++ [']'] := by
    intro values
    rw [← intercalate_map]
    simp only [compact, compactItems_eq_map, String.toList_append, String.toList_intercalate,
      List.map_map]
    rfl
  simpa only [hwritten] using hlist

mutual

/-- The text without the blanks and line breaks that stand outside of quoted texts. -/
def unspaced : List Char → List Char
  | [] => []
  | '"' :: s => '"' :: unspacedInside s
  | ' ' :: s => unspaced s
  | '\n' :: s => unspaced s
  | c :: s => c :: unspaced s

/-- The same from inside of a quoted text on. -/
def unspacedInside : List Char → List Char
  | [] => []
  | '"' :: s => '"' :: unspaced s
  | '\\' :: c :: s => '\\' :: c :: unspacedInside s
  | c :: s => c :: unspacedInside s

end

/-- The character is neither a blank nor a line break nor a quotation mark. -/
def Solid (c : Char) : Prop :=
  c ≠ ' ' ∧ c ≠ '\n' ∧ c ≠ '"'

lemma unspaced_append_of_solid {x s : List Char} (hx : ∀ c ∈ x, Solid c) :
    unspaced (x ++ s) = x ++ unspaced s := by
  induction x with
  | nil => rfl
  | cons c x ih =>
    rw [List.forall_mem_cons] at hx
    obtain ⟨⟨hblank, hbreak, hquote⟩, hx⟩ := hx
    rw [List.cons_append, unspaced, ih hx]
    · rfl
    all_goals assumption

lemma unspacedInside_append_of_bare {x s : List Char} (hx : ∀ c ∈ x, c ≠ '"' ∧ c ≠ '\\') :
    unspacedInside (x ++ s) = x ++ unspacedInside s := by
  induction x with
  | nil => rfl
  | cons c x ih =>
    rw [List.forall_mem_cons] at hx
    obtain ⟨⟨hquote, hescape⟩, hx⟩ := hx
    rw [List.cons_append, unspacedInside, ih hx]
    · rfl
    · exact hquote
    · intro d t hc
      exact absurd hc hescape

lemma unspacedInside_escape_append (c : Char) (s : List Char) :
    unspacedInside (escape c ++ s) = escape c ++ unspacedInside s := by
  by_cases hc : c ∈ escaped
  · obtain ⟨d, x, hx, hbare⟩ := exists_escape_eq hc
    rw [hx, List.cons_append, List.cons_append, unspacedInside, unspacedInside_append_of_bare hbare]
    · rfl
  · rw [escape_eq_self hc]
    apply unspacedInside_append_of_bare
    intro d hd
    obtain rfl := List.mem_singleton.mp hd
    constructor <;> rintro rfl <;> exact hc (by decide)

lemma unspacedInside_flatMap_append (x s : List Char) :
    unspacedInside (x.flatMap escape ++ s) = x.flatMap escape ++ unspacedInside s := by
  induction x with
  | nil => rfl
  | cons c x ih =>
    rw [List.flatMap_cons, List.append_assoc, unspacedInside_escape_append, ih, List.append_assoc]

/-- Whatever follows, the first text is the second one with further blanks and line breaks, which
stand outside of quoted texts. -/
def Spaced (loose tight : String) : Prop :=
  ∀ s, unspaced (loose.toList ++ s) = tight.toList ++ unspaced s

lemma spaced_of_solid {text : String} (h : ∀ c ∈ text.toList, Solid c) : Spaced text text :=
  fun _ => unspaced_append_of_solid h

lemma spaced_quoted (value : String) : Spaced (quoted value) (quoted value) := by
  intro s
  simp [quoted, unspaced, unspacedInside, unspacedInside_flatMap_append]

lemma spaced_newLine (depth : Nat) : Spaced (newLine depth) "" := by
  intro s
  have hblanks : ∀ n, unspaced (List.replicate n ' ' ++ s) = unspaced s := by
    intro n
    induction n with
    | zero => rfl
    | succ n ih => rw [List.replicate_succ, List.cons_append, unspaced, ih]
  unfold newLine
  rw [String.toList_ofList, List.cons_append, unspaced, hblanks]
  rfl

namespace Spaced

variable {loose loose' tight tight' separator separator' : String}

lemma append (h : Spaced loose tight) (h' : Spaced loose' tight') :
    Spaced (loose ++ loose') (tight ++ tight') := by
  intro s
  simp only [String.toList_append, List.append_assoc]
  rw [h, h']

lemma intercalate {looses tights : List String} (h : List.Forall₂ Spaced looses tights)
    (hseparator : Spaced separator separator') :
    Spaced (separator.intercalate looses) (separator'.intercalate tights) := by
  induction h with
  | nil => exact spaced_of_solid (by simp)
  | @cons first first' rest rest' hfirst hrest ih =>
    cases hrest with
    | nil => simpa using hfirst
    | cons hnext hrest =>
      rw [String.intercalate_cons_cons, String.intercalate_cons_cons]
      exact (hfirst.append hseparator).append ih

lemma bracketed {opening closing : String} {depth : Nat} {looses tights : List String}
    (hopening : Spaced opening opening) (hclosing : Spaced closing closing)
    (h : List.Forall₂ Spaced looses tights) :
    Spaced (Json.bracketed opening closing depth looses)
      (opening ++ ",".intercalate tights ++ closing) := by
  unfold Json.bracketed
  split
  · rename_i hnone
    rw [List.isEmpty_iff] at hnone
    subst hnone
    cases h
    simpa using hopening.append hclosing
  · have hcomma : Spaced "," "," := spaced_of_solid (by simp [Solid])
    have hseparator : Spaced ("," ++ newLine (depth + 1)) "," := by
      simpa using hcomma.append (spaced_newLine (depth + 1))
    have hinner := (hopening.append (spaced_newLine (depth + 1))).append (intercalate h hseparator)
    simpa using (hinner.append (spaced_newLine depth)).append hclosing

end Spaced

lemma spaced_write (x : Float) :
    Spaced (Decimal.interchange.write x) (Decimal.interchange.write x) := by
  apply spaced_of_solid
  intro c hc
  have hnumeric := List.all_eq_true.mp (Decimal.numeric_write_interchange x) c hc
  refine ⟨?_, ?_, ?_⟩ <;> rintro rfl <;> revert hnumeric <;> decide

mutual

lemma spaced_indented (depth : Nat) : ∀ value : Json, Spaced (value.indented depth) value.compact
  | .text value => spaced_quoted value
  | .number value => spaced_write value
  | .list items => by
    unfold indented compact
    exact Spaced.bracketed (spaced_of_solid (by simp [Solid])) (spaced_of_solid (by simp [Solid]))
      (spaced_indentedItems (depth + 1) items)
  | .record fields => by
    unfold indented compact
    exact Spaced.bracketed (spaced_of_solid (by simp [Solid])) (spaced_of_solid (by simp [Solid]))
      (spaced_indentedFields (depth + 1) fields)

lemma spaced_indentedItems (depth : Nat) : ∀ items : List Json,
    List.Forall₂ Spaced (indentedItems depth items) (compactItems items)
  | [] => .nil
  | item :: items => .cons (spaced_indented depth item) (spaced_indentedItems depth items)

lemma spaced_indentedFields (depth : Nat) : ∀ fields : List (String × Json),
    List.Forall₂ Spaced (indentedFields depth fields) (compactFields fields)
  | [] => .nil
  | (name, value) :: fields => by
    have hcolon : Spaced ": " ":" := fun s => by simp [unspaced]
    exact .cons (((spaced_quoted name).append hcolon).append (spaced_indented depth value))
      (spaced_indentedFields depth fields)

end

/-- The form for readers is the form without spaces, except for blanks and line breaks outside of
quoted texts. -/
theorem unspaced_pretty (value : Json) : unspaced value.pretty.toList = value.compact.toList := by
  have h := spaced_indented 0 value []
  rwa [List.append_nil, unspaced, List.append_nil] at h

end RegexCompiler.Json
