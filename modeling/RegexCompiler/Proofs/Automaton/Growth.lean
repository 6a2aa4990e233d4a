import RegexCompiler.Automaton.Growth
import RegexCompiler.Proofs.Automaton.Threads

/-!
# Attaching keeps to the vertices it mints

In every draft of a construction the minted vertices have smaller numbers than the next one, and the
entry of the automaton is not there before it has an edge. So whatever is attached gets vertices
that no edge leads to yet, and the edges that begin at them are new.
-/

namespace RegexCompiler

open RegexCompiler.Graph Regex

variable {κ : Type}

namespace Draft

variable {d d' : Draft κ} {target : State}

/-- The numbers tell which vertices are there, and so do the edges of the automaton's entry. -/
structure Numbered (d : Draft κ) : Prop where
  coherent : d.graph.Coherent
  below : ∀ n, d.graph.contains (.fresh n) → n < d.next
  opened : d.graph.contains .start → ∃ label v, d.graph.Arrow .start label v

lemma Numbered.mint (h : d.Numbered) : d.mint.1.Numbered where
  coherent := h.coherent.addVertex _
  below n hn := by
    rw [graph_mint, contains_addVertex, State.fresh.injEq] at hn
    rcases hn with hn | rfl
    · exact Nat.lt_succ_of_lt (h.below n hn)
    · exact Nat.lt_succ_self _
  opened hstart := by
    rw [graph_mint, contains_addVertex] at hstart
    obtain ⟨label, v, ha⟩ := h.opened (hstart.resolve_right (by simp))
    exact ⟨label, v, by rwa [graph_mint, arrow_addVertex]⟩

lemma Numbered.addEdge {source : State} (h : d.Numbered) (label : Label)
    (hsource : source = .start ∨ d.graph.contains source) (htarget : d.graph.contains target) :
    (d.addEdge source target label).Numbered where
  coherent := h.coherent.addEdge _ _ _
  below n hn := by
    apply h.below n
    rw [graph_addEdge, contains_addEdge] at hn
    rcases hn with hn | rfl | rfl
    · exact hn
    · exact hsource.resolve_left (by simp)
    · exact htarget
  opened hstart := by
    rw [graph_addEdge, contains_addEdge] at hstart
    have hold : d.graph.contains .start ∨ source = .start := by
      rcases hstart with hstart | rfl | rfl
      · exact Or.inl hstart
      · exact Or.inr rfl
      · exact Or.inl htarget
    rcases hold with hold | rfl
    · obtain ⟨mark, v, ha⟩ := h.opened hold
      exact ⟨mark, v, arrow_addEdge.mpr (Or.inl ha)⟩
    · exact ⟨label, target, arrow_addEdge.mpr (Or.inr ⟨rfl, rfl, rfl⟩)⟩

lemma Reached.numbered (h : d.Reached) : d.Numbered := by
  induction h with
  | initial =>
    refine ⟨coherent_initial, fun n hn => ?_, fun hstart => ?_⟩
    · exact absurd (contains_initial.mp hn) (by simp)
    · exact absurd (contains_initial.mp hstart) (by simp)
  | mint _ ih => exact ih.mint
  | addEdge label _ hsource htarget ih => exact ih.addEdge label hsource htarget
  | note joins _ ih => exact ⟨ih.coherent, ih.below, ih.opened⟩

lemma Reached.settled (h : d.Reached) (ht : d.graph.contains target) (hne : target ≠ .start) :
    Settled d.next target := by
  cases target with
  | start => exact absurd rfl hne
  | fresh n => exact h.numbered.below n ht
  | final => trivial

/-- Before it has an edge, the automaton's entry is no vertex, so no edge leads to it either. -/
lemma Numbered.not_arrow_start (h : d.Numbered)
    (hstart : ∀ label v, ¬d.graph.Arrow .start label v) (u : State) (label : Label) :
    ¬d.graph.Arrow u label .start := by
  intro ha
  obtain ⟨mark, v, hfirst⟩ := h.opened (h.coherent.contains_target ha)
  exact hstart mark v hfirst

lemma Reached.addEdges {source : State} {first : List (Label × State)} (h : d.Reached)
    (hsource : d.graph.contains source) (hfirst : ∀ edge ∈ first, d.graph.contains edge.2) :
    (first.foldl (fun d (label, v) => d.addEdge source v label) d).Reached := by
  induction first generalizing d with
  | nil => exact h
  | cons edge first ih =>
    rw [List.forall_mem_cons] at hfirst
    apply ih (h.addEdge edge.1 (Or.inr hsource) hfirst.1)
    · exact Threaded.contains_addEdge hsource
    · exact fun e he => Threaded.contains_addEdge (hfirst.2 e he)

lemma Reached.join {left right : State} (h : d.Reached) (hleft : d.graph.contains left)
    (hright : d.graph.contains right) : (d.join left right).1.Reached := by
  suffices hentries : (d.joinEntries left right).1.Reached from hentries.note _
  unfold joinEntries
  split
  · exact h.addEdge .epsilon (Or.inl rfl) hright
  split
  · exact h.addEdge .epsilon (Or.inl rfl) hleft
  split
  · exact h.addEdge .epsilon (Or.inr hleft) hright
  split
  · exact h.addEdge .epsilon (Or.inr hright) hleft
  · have hmint := Threaded.mint h.numbered.coherent
    have hfirst := h.mint.addEdge .epsilon (Or.inr hmint.contains_entry) (hmint.contains hleft)
    exact hfirst.addEdge .epsilon (Or.inr (Threaded.contains_addEdge hmint.contains_entry))
      (Threaded.contains_addEdge (hmint.contains hright))

lemma Reached.closeLoop {again entry : State} (h : d.Reached) (hagain : d.graph.contains again)
    (hentry : d.graph.contains entry) (ht : d.graph.contains target) :
    (d.closeLoop again entry target).1.Reached := by
  unfold Draft.closeLoop
  split
  · have hcopied := h.addEdges hagain (h.numbered.coherent.contains_neighbours .start)
    have hskip := hcopied.addEdge .epsilon (Or.inr (Threaded.contains_addEdges hagain))
      (Threaded.contains_addEdges ht)
    exact hskip.addEdge .epsilon (Or.inl rfl)
      (Threaded.contains_addEdge (Threaded.contains_addEdges ht))
  · have hback := h.addEdge .epsilon (Or.inr hagain) hentry
    exact hback.addEdge .epsilon (Or.inr (Threaded.contains_addEdge hagain))
      (Threaded.contains_addEdge ht)

mutual

lemma reached_attach (r : Regex) (d : Draft κ) (target : State) (hd : d.Reached)
    (ht : d.graph.contains target) : (d.attach target r).1.Reached := by
  match r with
  | .letter c =>
    have hmint := Threaded.mint hd.numbered.coherent
    exact hd.mint.addEdge (.symbol c) (Or.inr hmint.contains_entry) (hmint.contains ht)
  | .start c => exact hd.addEdge (.symbol c) (Or.inl rfl) ht
  | .word [] =>
    have hmint := Threaded.mint hd.numbered.coherent
    exact hd.mint.addEdge .epsilon (Or.inr hmint.contains_entry) (hmint.contains ht)
  | .word (child :: children) => exact reached_attachAll (child :: children) d target hd ht
  | .union left right =>
    have h₁ := threaded_attach left d target hd.numbered.coherent ht
    have h₂ := threaded_attach right (d.attach target left).1 target h₁.coherent h₁.contains_target
    have hright := reached_attach right _ target (reached_attach left d target hd ht)
      h₁.contains_target
    exact hright.join (h₂.contains h₁.contains_entry) h₂.contains_entry
  | .star child =>
    have hmint := Threaded.mint hd.numbered.coherent
    have hbody := threaded_attach child d.mint.1 d.mint.2 hmint.coherent hmint.contains_entry
    have hchild := reached_attach child d.mint.1 d.mint.2 hd.mint hmint.contains_entry
    exact hchild.closeLoop hbody.contains_target hbody.contains_entry
      (hbody.contains (hmint.contains ht))

lemma reached_attachAll (children : List Regex) (d : Draft κ) (target : State) (hd : d.Reached)
    (ht : d.graph.contains target) : (d.attachAll target children).1.Reached := by
  match children with
  | [] => exact hd
  | child :: children =>
    have h₁ := threaded_attachAll children d target hd.numbered.coherent ht
    have hrest := reached_attachAll children d target hd ht
    exact reached_attach child _ _ hrest h₁.contains_entry

end

theorem reached_ofRegex (r : Regex) : (ofRegex r : Draft κ).Reached := by
  have hsink : (initial : Draft κ).graph.contains .final := contains_initial.mpr rfl
  have hattach := reached_attach r (initial : Draft κ) .final .initial hsink
  unfold ofRegex
  dsimp only
  split
  · exact hattach
  · have h := threaded_attach r (initial : Draft κ) .final coherent_initial hsink
    exact hattach.addEdge .epsilon (Or.inl rfl) h.contains_entry

lemma Numbered.minted_iff {marks : Nat} {entry : State} (hd : d.Numbered)
    (h : Threaded d d' marks entry target) (v : State) :
    Minted d d' v ↔ v ≠ .start ∧ d'.graph.contains v ∧ ¬d.graph.contains v := by
  rw [h.contains_iff]
  cases v with
  | start => simp [Minted]
  | fresh n =>
    have hbelow := hd.below n
    simp only [Minted, Given, State.fresh.injEq, exists_eq_left', ne_eq, reduceCtorEq,
      not_false_eq_true, true_and]
    constructor
    · rintro ⟨hlow, hhigh⟩
      exact ⟨Or.inr ⟨hlow, hhigh⟩, fun hold => Nat.not_lt_of_le hlow (hbelow hold)⟩
    · rintro ⟨hnew, hold⟩
      exact hnew.resolve_left hold
  | final => simp [Minted, Given]

lemma minted_of_owned {entry v : State} (h : Owned d.next d'.next entry v) :
    Minted d d' v ∨ v = .start ∧ entry = .start := by
  cases v with
  | start => exact Or.inr ⟨rfl, h⟩
  | fresh n => exact Or.inl ⟨n, rfl, h⟩
  | final => exact absurd h id

lemma Numbered.newArrows_eq {added : Arrows State} {entry : State} {L : List Char → Prop}
    (hd : d.Numbered) (h : Attached d d' added entry target L)
    (hstart : entry = .start → ∀ label v, ¬d.graph.Arrow .start label v) :
    newArrows d d' = added := by
  funext u label v
  rw [eq_iff_iff, newArrows, h.arrow_iff]
  constructor
  · rintro ⟨ha, hnew⟩
    exact ha.resolve_left hnew
  · -- an edge that was there begins at a vertex that was there, and the fragment owns none of them
    intro ha
    refine ⟨Or.inr ha, fun hold => ?_⟩
    rcases minted_of_owned (h.fragment.source_inside ha) with ⟨n, rfl, hlow, -⟩ | ⟨rfl, hentry⟩
    · exact Nat.not_lt_of_le hlow (hd.below n hold.contains_source)
    · exact hstart hentry label v hold

lemma Numbered.minted_of_arrow_entry {added : Arrows State} {entry : State}
    {L : List Char → Prop} (hd : d.Numbered) (h : Attached d d' added entry target L)
    (hstart : entry = .start → ∀ label v, ¬d.graph.Arrow .start label v) {u : State} {label : Label}
    (ha : d'.graph.Arrow u label entry) : Minted d d' u := by
  rcases (h.arrow_iff u label entry).mp ha with hold | hnew
  · rcases minted_of_owned h.fragment.entry_inside with ⟨n, rfl, hlow, -⟩ | ⟨-, rfl⟩
    · have hbelow := hd.below n (hd.coherent.contains_target hold)
      exact absurd hbelow (Nat.not_lt_of_le hlow)
    · exact absurd hold (hd.not_arrow_start (hstart rfl) u label)
  · rcases minted_of_owned (h.fragment.source_inside hnew) with hu | ⟨-, rfl⟩
    · exact hu
    · exact absurd hnew (h.no_return u label)

/-- The contract between an expression and what it is attached to. In front of any vertex but the
entry, at any time of a construction, attaching adds new vertices and edges and takes nothing away.
The new edges begin at new vertices, or at the automaton's entry if the marked symbol is in the
expression, and end at new vertices or at the target. Nothing but new vertices leads to where the
expression begins, and from there the new edges lead to the target over its words. -/
theorem extension_attach (r : Regex) {d : Draft κ} {target : State} (hd : d.Reached)
    (ht : d.graph.contains target) (hne : target ≠ .start) (hmarks : r.marks ≤ 1)
    (hentry : r.MarkedAtEntry)
    (hstart : r.hasStart → ∀ label v, ¬d.graph.Arrow .start label v) :
    Extension d (d.attach target r).1 r (d.attach target r).2 target := by
  have hnumbered := hd.numbered
  rw [hasStart_iff_marks_pos] at hstart
  obtain ⟨⟨added, h⟩, hentry_iff⟩ := exists_attached r d target hnumbered.coherent
    (hd.settled ht hne) hentry hmarks hstart
  have hthreaded := threaded_attach r d target hnumbered.coherent ht
  have hstart' : (d.attach target r).2 = .start → ∀ label v, ¬d.graph.Arrow .start label v :=
    fun hentry => hstart (hentry_iff.mp hentry)
  have hnew := hnumbered.newArrows_eq h hstart'
  rw [← hasStart_iff_marks_pos] at hentry_iff
  exact {
    keeps_vertices := fun v => hthreaded.contains
    keeps_edges := hthreaded.kept
    minted_iff := hnumbered.minted_iff hthreaded
    new_source := by
      rw [hnew]
      intro u label v ha
      exact (minted_of_owned (h.fragment.source_inside ha)).imp_right And.left
    new_target := by
      rw [hnew]
      intro u label v ha
      refine (h.fragment.target_inside ha).imp_left fun hv => ?_
      apply (minted_of_owned hv).resolve_right
      rintro ⟨rfl, -⟩
      exact h.no_return u label ha
    no_return := hnew ▸ h.no_return
    start_source := by
      rw [hnew]
      intro label v ha
      exact hentry_iff.mp (h.fragment.source_inside ha)
    entry_start := hentry_iff.mpr
    entry_minted := by
      intro hunmarked
      apply (minted_of_owned h.fragment.entry_inside).resolve_right
      exact fun hentry => hunmarked (hentry_iff.mp hentry.2)
    entered_within := fun u label => hnumbered.minted_of_arrow_entry h hstart'
    words := hnew ▸ h.fragment.words }

/-- Attached in front of a loop: a loop that is entered beside another one. -/
theorem extension_attach_loop :
    let d : Draft Rat := (initial.attach .final (.star (.letter 'b'))).1
    let r : Regex := .union (.star (.start 'a')) (.star (.letter 'c'))
    Extension d (d.attach (.fresh 0) r).1 r (d.attach (.fresh 0) r).2 (.fresh 0) := by
  intro d r
  have hd : d.Reached := reached_attach _ _ _ .initial (contains_initial.mpr rfl)
  have ht : d.graph.contains (.fresh 0) := by decide
  have hentry : r.MarkedAtEntry := ⟨trivial, trivial⟩
  have hstart : d.graph.outgoing.neighbours .start = [] := by decide
  refine extension_attach r hd ht (by decide) (by decide) hentry fun _ label v ha => ?_
  rw [Arrow, hstart] at ha
  exact List.not_mem_nil ha

end Draft

end RegexCompiler
