import RegexCompiler.Proofs.Regex.Grammar

/-!
# Nesting limits

A limit on the nesting decides by the need of a tree alone whether its text is read, and never
changes the tree. The need is the depth of the tree or one less, so neither deep nor long texts pass
a small limit.
-/

namespace RegexCompiler.Regex

variable {alphabet : Alphabet}

mutual

lemma depth_le_need_add_one : ∀ r : Regex, r.depth ≤ r.need + 1
  | letter _ => Nat.le_refl 1
  | start _ => Nat.le_refl 1
  | word children => by
    rw [need, depth]
    have hchildren := greatestDepth_le_greatestNeed_add_one children
    omega
  | union _ _ => Nat.le_succ _
  | star child => by
    rw [need, depth]
    have hchild := depth_le_need_add_one child
    omega

lemma greatestDepth_le_greatestNeed_add_one :
    ∀ children : List Regex, greatestDepth children ≤ greatestNeed children + 1
  | [] => Nat.zero_le 1
  | child :: children => by
    rw [greatestNeed, greatestDepth]
    have hchild := depth_le_need_add_one child
    have hchildren := greatestDepth_le_greatestNeed_add_one children
    omega

end

variable {text : List Char} {r : Regex}

lemma parse_within (h : parse alphabet none text = .ok r) (limit : Option Nat) :
    SameWithin limit r.need (parse alphabet limit text) (.ok r) := by
  obtain ⟨hr, rfl⟩ := parse_sound h
  exact parse_spelled hr

lemma need_le_of_parse {bound : Nat} (h : parse alphabet (some bound) text = .ok r) :
    r.need ≤ bound := by
  by_contra hnot
  obtain ⟨c, i, hdeep⟩ := (parse_within (parse_none_of_parse h) (some bound)).tooDeep hnot
  rw [h] at hdeep
  cases hdeep

/-- A limit refuses exactly the trees whose need exceeds it and changes no other result into a tree.
So what is read under a limit is read under all larger ones, a tree is read if its depth is within
the limit, and no tree that is read is deeper than the limit and one. -/
theorem parse_limited_by_need (alphabet : Alphabet) (text : List Char) (bound : Nat) :
    (∀ r, parse alphabet none text = .ok r →
      (r.need ≤ bound → parse alphabet (some bound) text = .ok r) ∧
        (bound < r.need → ∃ c i, parse alphabet (some bound) text = .error (.tooDeep c i)) ∧
        (r.depth ≤ bound → parse alphabet (some bound) text = .ok r)) ∧
      (∀ fault, parse alphabet none text = .error fault →
        ∃ other, parse alphabet (some bound) text = .error other) ∧
      ∀ r, parse alphabet (some bound) text = .ok r →
        r.depth ≤ bound + 1 ∧
          ∀ larger, bound ≤ larger → parse alphabet (some larger) text = .ok r := by
  refine ⟨fun r h => ?_, fun fault h => ?_, fun r h => ?_⟩
  · have hwithin := parse_within h (some bound)
    refine ⟨hwithin.same, fun hlt => hwithin.tooDeep (Nat.not_le.mpr hlt), fun hdepth => ?_⟩
    exact hwithin.same (Nat.le_trans (need_le_depth r) hdepth)
  · cases hlimited : parse alphabet (some bound) text with
    | error other => exact ⟨other, rfl⟩
    | ok r =>
      rw [parse_none_of_parse hlimited] at h
      cases h
  · have hneed := need_le_of_parse h
    refine ⟨Nat.le_trans (depth_le_need_add_one r) (Nat.succ_le_succ hneed), fun larger hle => ?_⟩
    exact (parse_within (parse_none_of_parse h) (some larger)).same (Nat.le_trans hneed hle)

/-- A chain of alternatives whose right operands nest. -/
theorem parse_limited_by_need_chain :
    ∃ r, parse .standard none "a+b*+a".toList = .ok r ∧ r.need = 5 ∧
      parse .standard (some 5) "a+b*+a".toList = .ok r ∧
      ∃ c i, parse .standard (some 4) "a+b*+a".toList = .error (.tooDeep c i) := by
  have hread : parse .standard none "a+b*+a".toList =
      .ok (.word [.union (.start 'a') (.union (.star (.letter 'b')) (.letter 'a'))]) := by
    rfl
  refine ⟨_, hread, by decide, ?_, ?_⟩
  · exact ((parse_limited_by_need _ _ 5).1 _ hread).1 (by decide)
  · exact ((parse_limited_by_need _ _ 4).1 _ hread).2.1 (by decide)

end RegexCompiler.Regex
