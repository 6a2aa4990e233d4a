import RegexCompiler.Proofs.Automaton.Attachment

/-!
# The language of the automaton of an expression

By induction on the expression, attaching it adds a fragment for its language. A whole expression is
attached to the accepting sink alone, so what the entry leads to is this fragment.
-/

namespace RegexCompiler

open RegexCompiler.Graph Regex

variable {κ : Type}

namespace Draft

mutual

/-- An expression becomes a fragment for its language, which begins at the entry of the automaton
exactly if a symbol is marked. -/
lemma exists_attached (r : Regex) (d : Draft κ) (target : State) (hd : d.graph.Coherent)
    (ht : Settled d.next target) (hentry : r.MarkedAtEntry) (hmarks : r.marks ≤ 1)
    (hstart : 0 < r.marks → ∀ label v, ¬d.graph.Arrow .start label v) :
    (∃ added, Attached d (d.attach target r).1 added (d.attach target r).2 target r.Matches) ∧
      ((d.attach target r).2 = .start ↔ 0 < r.marks) :=
  match r with
  | .letter c => ⟨⟨_, Attached.atFresh hd ht (.symbol c)⟩, by simp [attach, marks]⟩
  | .start c => ⟨⟨_, Attached.atStart hd ht (.symbol c)⟩, by simp [attach, marks]⟩
  | .word [] => ⟨⟨_, Attached.atFresh hd ht .epsilon⟩, by simp [attach, marks, marksOf]⟩
  | .word (child :: children) =>
    exists_attachedAll (child :: children) (List.cons_ne_nil _ _) d target hd ht hentry hmarks
      hstart
  | .union left right => by
    rw [marks] at hmarks hstart
    obtain ⟨⟨added₁, h₁⟩, hstart₁⟩ := exists_attached left d target hd ht hentry.1 (by omega)
      fun h => hstart (by omega)
    have hbefore : 0 < right.marks →
        ∀ label v, ¬(d.attach target left).1.graph.Arrow .start label v := by
      intro hright label v ha
      rcases (h₁.arrow_iff _ _ _).mp ha with ha | ha
      · exact hstart (by omega) label v ha
      · have hleft := hstart₁.mp (h₁.fragment.source_inside ha)
        omega
    obtain ⟨⟨added₂, h₂⟩, hstart₂⟩ := exists_attached right (d.attach target left).1 target
      h₁.coherent (ht.mono h₁.next_le) hentry.2 (by omega) hbefore
    have hapart : ¬((d.attach target left).2 = .start ∧
        ((d.attach target left).1.attach target right).2 = .start) := by
      rw [hstart₁, hstart₂]
      omega
    obtain ⟨hjoin, hstart⟩ := h₁.join h₂ hapart ht
    refine ⟨hjoin, hstart.trans ?_⟩
    rw [hstart₁, hstart₂, marks]
    omega
  | .star child => by
    have hminted : d.mint.1.graph.Coherent := hd.addVertex _
    have hagain : Settled d.mint.1.next d.mint.2 := Nat.lt_succ_self _
    obtain ⟨⟨added, h⟩, hchild⟩ := exists_attached child d.mint.1 d.mint.2 hminted hagain hentry
      hmarks fun hmarked label v => by
        rw [graph_mint, arrow_addVertex]
        exact hstart hmarked label v
    obtain ⟨hloop, hentry⟩ := h.closeLoop ht fun hentry => hstart (hchild.mp hentry)
    exact ⟨hloop, hentry.trans hchild⟩

lemma exists_attachedAll (children : List Regex) (hne : children ≠ []) (d : Draft κ)
    (target : State) (hd : d.graph.Coherent) (ht : Settled d.next target)
    (hentry : FirstMarkedAtEntry children) (hmarks : marksOf children ≤ 1)
    (hstart : 0 < marksOf children → ∀ label v, ¬d.graph.Arrow .start label v) :
    (∃ added, Attached d (d.attachAll target children).1 added (d.attachAll target children).2
      target (MatchesInOrder children)) ∧
      ((d.attachAll target children).2 = .start ↔ 0 < marksOf children) :=
  match children with
  | [] => absurd rfl hne
  | [child] => by
    rw [marksOf, marksOf] at hmarks hstart
    obtain ⟨⟨added, h⟩, hchild⟩ := exists_attached child d target hd ht hentry.1 hmarks hstart
    have hlanguage : MatchesInOrder [child] = child.Matches := concatenated_nil_right
    rw [hlanguage]
    exact ⟨⟨added, h⟩, hchild⟩
  | child :: next :: rest => by
    rw [marksOf] at hmarks hstart
    have hunmarked := hentry.2
    obtain ⟨⟨added₁, h₁⟩, hstart₁⟩ := exists_attachedAll (next :: rest) (List.cons_ne_nil _ _) d
      target hd ht (firstMarkedAtEntry_of_unmarked _ hunmarked) (by omega) (by omega)
    have hother : (d.attachAll target (next :: rest)).2 ≠ .start := by
      rw [Ne, hstart₁]
      omega
    have hbefore : 0 < child.marks →
        ∀ label v, ¬(d.attachAll target (next :: rest)).1.graph.Arrow .start label v := by
      intro hchild label v ha
      rcases (h₁.arrow_iff _ _ _).mp ha with ha | ha
      · exact hstart (by omega) label v ha
      · exact hother (h₁.fragment.source_inside ha)
    obtain ⟨⟨added₂, h₂⟩, hstart₂⟩ := exists_attached child (d.attachAll target (next :: rest)).1
      (d.attachAll target (next :: rest)).2 h₁.coherent (h₁.entry_settled hother) hentry.1
      (by omega) hbefore
    refine ⟨⟨_, h₁.chain h₂ hother ht⟩, hstart₂.trans ?_⟩
    rw [marksOf]
    omega

end

lemma coherent_initial : (initial : Draft κ).graph.Coherent := by
  have hempty : (Graph.empty : Graph State κ).Coherent := coherent_empty
  exact (hempty.addVertex .final).markFinal .final

lemma not_arrow_initial (u : State) (label : Label) (v : State) :
    ¬(initial : Draft κ).graph.Arrow u label v := by
  unfold initial
  rw [arrow_markFinal, arrow_addVertex]
  exact List.not_mem_nil

theorem exists_fragment_ofRegex (r : Regex) (hentry : r.MarkedAtEntry) (hmarks : r.marks ≤ 1) :
    (ofRegex r : Draft κ).graph.Coherent ∧ (ofRegex r : Draft κ).graph.finals = [.final] ∧
      (∀ u label, ¬(ofRegex r : Draft κ).graph.Arrow u label .start) ∧
      ∃ inside, Fragment inside (ofRegex r : Draft κ).graph.Arrow .start .final r.Matches := by
  obtain ⟨⟨added, h⟩, -⟩ := exists_attached r (initial : Draft κ) .final coherent_initial trivial
    hentry hmarks fun _ => not_arrow_initial .start
  have harrow : ((initial : Draft κ).attach .final r).1.graph.Arrow = added := by
    funext u label v
    rw [eq_iff_iff, h.arrow_iff]
    exact or_iff_right (not_arrow_initial u label v)
  unfold ofRegex
  dsimp only
  split
  · rename_i hstart
    rw [harrow]
    exact ⟨h.coherent, h.finals, h.no_return, _, hstart ▸ h.fragment⟩
  · rename_i hstart
    have houtside : ¬Owned (initial : Draft κ).next ((initial : Draft κ).attach .final r).1.next
        ((initial : Draft κ).attach .final r).2 .start := hstart
    have henter := h.fragment.enter houtside (by simp)
    have hwhole : (((initial : Draft κ).attach .final r).1.graph.addEdge .start
        ((initial : Draft κ).attach .final r).2 .epsilon).Arrow = Arrows.both
        (Arrows.one .start .epsilon ((initial : Draft κ).attach .final r).2) added := by
      funext u label v
      rw [eq_iff_iff, arrow_addEdge, harrow]
      exact Or.comm
    rw [graph_addEdge, hwhole]
    refine ⟨h.coherent.addEdge _ _ _, finals_addEdge.trans h.finals, ?_, _, henter⟩
    rintro u label (⟨-, -, hreturn⟩ | ha)
    · exact hstart hreturn.symm
    · exact h.no_return u label ha

lemma coherent_ofRegex {r : Regex} (hentry : r.MarkedAtEntry) (hmarks : r.marks ≤ 1) :
    (ofRegex r : Draft κ).graph.Coherent :=
  (exists_fragment_ofRegex r hentry hmarks).1

theorem leads_ofRegex {r : Regex} (hentry : r.MarkedAtEntry) (hmarks : r.marks ≤ 1)
    {word : List Char} : (ofRegex r : Draft κ).graph.Leads .start word ↔ r.Matches word := by
  obtain ⟨-, hfinals, -, inside, hfragment⟩ := exists_fragment_ofRegex (κ := κ) r hentry hmarks
  rw [← hfragment.words]
  unfold Leads
  simp only [isFinal_iff, hfinals, List.mem_singleton, exists_eq_right]
  constructor
  · exact And.right
  · intro hw
    refine ⟨?_, hw⟩
    cases hw with
    | cons ha _ => exact ha.contains_source

/-- The automaton of a tree accepts exactly the words that the tree matches, if at most one symbol
is marked and the tree is entered there. -/
theorem accepts_ofRegex_iff_matches (r : Regex) (word : List Char) (hmarks : r.marks ≤ 1)
    (hentry : r.MarkedAtEntry) :
    (ofRegex r : Draft κ).graph.accepts .start word ↔ r.Matches word := by
  rw [accepts_iff_leads (coherent_ofRegex hentry hmarks)]
  exact leads_ofRegex hentry hmarks

/-- A repeated alternative whose second operand is entered. -/
theorem accepts_ofRegex_iff_matches_star :
    let r : Regex := .star (.union (.star (.letter 'b')) (.word [.start 'a', .letter 'b']))
    r.marks ≤ 1 ∧ r.MarkedAtEntry ∧
      ((ofRegex r : Draft Rat).graph.accepts .start ['a', 'b', 'b'] ↔
        r.Matches ['a', 'b', 'b']) := by
  intro r
  have hmarks : r.marks ≤ 1 := by decide
  have hentry : r.MarkedAtEntry := ⟨trivial, trivial, rfl⟩
  exact ⟨hmarks, hentry, accepts_ofRegex_iff_matches r _ hmarks hentry⟩

end Draft

end RegexCompiler
