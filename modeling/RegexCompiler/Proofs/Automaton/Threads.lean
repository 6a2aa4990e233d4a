import RegexCompiler.Proofs.Automaton.Construction
import RegexCompiler.Proofs.Graph.Pruning

/-!
# Every vertex is of use

Whatever attaching an expression adds lies on a way from where the expression begins to its target.
This is kept by every step of the construction, wherever symbols are marked. So in a whole automaton
the entry leads to every vertex, and every vertex leads to the accepting sink.
-/

namespace RegexCompiler

open RegexCompiler.Graph Regex

variable {κ : Type}

/-- The vertices with the numbers from `low` on and below `high`, and the entry of the automaton if
a symbol is marked. -/
def Given (low high marks : Nat) : State → Prop
  | .start => 0 < marks
  | .fresh n => low ≤ n ∧ n < high
  | .final => False

lemma not_given_self (n : Nat) (v : State) : ¬Given n n 0 v := by
  cases v with
  | start => exact Nat.lt_irrefl 0
  | fresh m => exact fun h => Nat.not_lt_of_le h.1 h.2
  | final => exact id

lemma given_add {low middle high first second : Nat} (hlow : low ≤ middle) (hhigh : middle ≤ high)
    {v : State} :
    Given low high (first + second) v ↔ Given low middle first v ∨ Given middle high second v := by
  cases v with
  | start =>
    unfold Given
    omega
  | fresh n =>
    unfold Given
    omega
  | final => simp [Given]

/-- The draft `d'` has more vertices than `d`, all of them on ways from `entry` to `target`. -/
structure Threaded (d d' : Draft κ) (marks : Nat) (entry target : State) : Prop where
  coherent : d'.graph.Coherent
  next_le : d.next ≤ d'.next
  kept : ∀ u label v, d.graph.Arrow u label v → d'.graph.Arrow u label v
  contains_iff : ∀ v, d'.graph.contains v ↔ d.graph.contains v ∨ Given d.next d'.next marks v
  through : d'.graph.Reaches entry target
  useful : ∀ v, Given d.next d'.next marks v →
    d'.graph.Reaches entry v ∧ d'.graph.Reaches v target

namespace Threaded

variable {d d₁ d₂ : Draft κ} {marks marks₁ marks₂ : Nat}
  {entry entry₁ entry₂ target target₁ target₂ again u v : State} {label : Label}

lemma contains (h : Threaded d d₁ marks entry target) (hv : d.graph.contains v) :
    d₁.graph.contains v :=
  (h.contains_iff v).mpr (Or.inl hv)

lemma reaches (h : Threaded d d₁ marks entry target) (huv : d.graph.Reaches u v) :
    d₁.graph.Reaches u v := by
  obtain ⟨hu, word, hw⟩ := huv
  exact ⟨h.contains hu, word, hw.mono h.kept⟩

lemma contains_entry (h : Threaded d d₁ marks entry target) : d₁.graph.contains entry :=
  h.through.1

lemma contains_target (h : Threaded d d₁ marks entry target) : d₁.graph.contains target :=
  h.coherent.contains_of_reaches h.through

lemma reroute (h : Threaded d d₁ marks entry target) (hentry : d₁.graph.Reaches u entry)
    (htarget : d₁.graph.Reaches target v) : Threaded d d₁ marks u v where
  coherent := h.coherent
  next_le := h.next_le
  kept := h.kept
  contains_iff := h.contains_iff
  through := hentry.trans (h.through.trans htarget)
  useful w hw := by
    obtain ⟨hbegin, hend⟩ := h.useful w hw
    exact ⟨hentry.trans hbegin, hend.trans htarget⟩

theorem compose (h₁ : Threaded d d₁ marks₁ entry₁ target₁)
    (h₂ : Threaded d₁ d₂ marks₂ entry₂ target₂)
    (hentry₁ : d₂.graph.Reaches entry entry₁) (htarget₁ : d₂.graph.Reaches target₁ target)
    (hentry₂ : d₂.graph.Reaches entry entry₂) (htarget₂ : d₂.graph.Reaches target₂ target) :
    Threaded d d₂ (marks₁ + marks₂) entry target where
  coherent := h₂.coherent
  next_le := Nat.le_trans h₁.next_le h₂.next_le
  kept u label v ha := h₂.kept u label v (h₁.kept u label v ha)
  contains_iff v := by
    rw [h₂.contains_iff, h₁.contains_iff, given_add h₁.next_le h₂.next_le, or_assoc]
  through := hentry₂.trans (h₂.through.trans htarget₂)
  useful v hv := by
    rcases (given_add h₁.next_le h₂.next_le).mp hv with hv | hv
    · obtain ⟨hbegin, hend⟩ := h₁.useful v hv
      exact ⟨hentry₁.trans (h₂.reaches hbegin), (h₂.reaches hend).trans htarget₁⟩
    · obtain ⟨hbegin, hend⟩ := h₂.useful v hv
      exact ⟨hentry₂.trans hbegin, hend.trans htarget₂⟩

lemma refl (hd : d.graph.Coherent) (hv : d.graph.contains v) : Threaded d d 0 v v where
  coherent := hd
  next_le := Nat.le_refl _
  kept _ _ _ ha := ha
  contains_iff w := (or_iff_left (not_given_self _ w)).symm
  through := Reaches.refl hv
  useful w hw := absurd hw (not_given_self _ w)

lemma contains_addEdge {w : State} (hw : d.graph.contains w) :
    (d.addEdge u v label).graph.contains w :=
  Graph.contains_addEdge.mpr (Or.inl hw)

lemma contains_addEdges {first : List (Label × State)} {w : State} (hw : d.graph.contains w) :
    (first.foldl (fun d (label, v) => d.addEdge u v label) d).graph.contains w := by
  induction first generalizing d with
  | nil => exact hw
  | cons edge first ih => exact ih (contains_addEdge hw)

lemma addEdge (h : Threaded d d₁ marks entry target) (hu : d₁.graph.contains u)
    (hv : d₁.graph.contains v) (label : Label) :
    Threaded d (d₁.addEdge u v label) marks entry target := by
  have hkept : ∀ x mark y, d₁.graph.Arrow x mark y → (d₁.addEdge u v label).graph.Arrow x mark y :=
    fun _ _ _ ha => arrow_addEdge.mpr (Or.inl ha)
  have hcontains : ∀ x, (d₁.addEdge u v label).graph.contains x ↔ d₁.graph.contains x := by
    intro x
    rw [Draft.graph_addEdge, Graph.contains_addEdge]
    constructor
    · rintro (hx | rfl | rfl)
      · exact hx
      · exact hu
      · exact hv
    · exact Or.inl
  have hreaches : ∀ {x y}, d₁.graph.Reaches x y → (d₁.addEdge u v label).graph.Reaches x y := by
    rintro x y ⟨hx, word, hw⟩
    exact ⟨(hcontains x).mpr hx, word, hw.mono hkept⟩
  refine ⟨h.coherent.addEdge _ _ _, h.next_le, ?_, ?_, hreaches h.through, ?_⟩
  · exact fun x mark y ha => hkept x mark y (h.kept x mark y ha)
  · exact fun x => (hcontains x).trans (h.contains_iff x)
  · exact fun x hx => ⟨hreaches (h.useful x hx).1, hreaches (h.useful x hx).2⟩

lemma addEdges {first : List (Label × State)} (h : Threaded d d₁ marks entry target)
    (hu : d₁.graph.contains u) (hfirst : ∀ edge ∈ first, d₁.graph.contains edge.2) :
    Threaded d (first.foldl (fun d (label, v) => d.addEdge u v label) d₁) marks entry target := by
  induction first generalizing d₁ with
  | nil => exact h
  | cons edge first ih =>
    have hadd := h.addEdge hu (hfirst edge List.mem_cons_self) edge.1
    exact ih hadd (contains_addEdge hu) fun e he =>
      contains_addEdge (hfirst e (List.mem_cons_of_mem _ he))

lemma reaches_addEdge : (d.addEdge u v label).graph.Reaches u v :=
  Reaches.single (arrow_addEdge.mpr (Or.inr ⟨rfl, rfl, rfl⟩))

lemma reaches_addEdge_addEdge {x y : State} {mark : Label} :
    ((d.addEdge u v label).addEdge x y mark).graph.Reaches u v := by
  have ha : ((d.addEdge u v label).addEdge x y mark).graph.Arrow u label v := by
    rw [Draft.graph_addEdge, Draft.graph_addEdge, arrow_addEdge, arrow_addEdge]
    exact Or.inl (Or.inr ⟨rfl, rfl, rfl⟩)
  exact Reaches.single ha

lemma atStart (hd : d.graph.Coherent) (ht : d.graph.contains target) (label : Label) :
    Threaded d (d.addEdge .start target label) 1 .start target where
  coherent := hd.addEdge _ _ _
  next_le := Nat.le_refl _
  kept _ _ _ ha := arrow_addEdge.mpr (Or.inl ha)
  contains_iff v := by
    rw [Draft.graph_addEdge, Draft.next_addEdge, Graph.contains_addEdge]
    have hgiven : Given d.next d.next 1 v ↔ v = .start := by
      cases v with
      | start => simp [Given]
      | fresh n => simp [Given]
      | final => simp [Given]
    rw [hgiven]
    constructor
    · rintro (hv | hv | rfl)
      · exact Or.inl hv
      · exact Or.inr hv
      · exact Or.inl ht
    · exact Or.imp_right Or.inl
  through := reaches_addEdge
  useful v hv := by
    cases v with
    | start => exact ⟨Reaches.refl reaches_addEdge.1, reaches_addEdge⟩
    | fresh n => exact absurd hv.2 (Nat.not_lt_of_le hv.1)
    | final => exact absurd hv id

lemma mint (hd : d.graph.Coherent) : Threaded d d.mint.1 0 d.mint.2 d.mint.2 := by
  have hnew : d.mint.1.graph.contains (.fresh d.next) := contains_addVertex.mpr (Or.inr rfl)
  have hgiven : ∀ v, Given d.next d.mint.1.next 0 v ↔ v = .fresh d.next := by
    intro v
    cases v with
    | start => simp [Given]
    | fresh n =>
      change d.next ≤ n ∧ n < d.next + 1 ↔ _
      rw [State.fresh.injEq]
      omega
    | final => simp [Given]
  refine ⟨hd.addVertex _, Nat.le_succ _, ?_, ?_, Reaches.refl hnew, ?_⟩
  · intro u label v ha
    rwa [Draft.graph_mint, arrow_addVertex]
  · intro v
    rw [hgiven, Draft.graph_mint, contains_addVertex]
  · intro v hv
    rw [(hgiven v).mp hv]
    exact ⟨Reaches.refl hnew, Reaches.refl hnew⟩

lemma atFresh (hd : d.graph.Coherent) (ht : d.graph.contains target) (label : Label) :
    Threaded d (d.mint.1.addEdge d.mint.2 target label) 0 d.mint.2 target := by
  have hmint := mint hd
  have hadd := hmint.addEdge hmint.contains_entry (hmint.contains ht) label
  exact hadd.reroute (Reaches.refl hadd.contains_entry) reaches_addEdge

lemma chain (h₁ : Threaded d d₁ marks₁ entry₁ target) (h₂ : Threaded d₁ d₂ marks₂ entry₂ entry₁) :
    Threaded d d₂ (marks₁ + marks₂) entry₂ target :=
  h₁.compose h₂ h₂.through (Reaches.refl (h₂.contains h₁.contains_target))
    (Reaches.refl h₂.contains_entry) (h₂.reaches h₁.through)

lemma enterFirst (h₁ : Threaded d d₁ marks₁ entry₁ target)
    (h₂ : Threaded d₁ d₂ marks₂ entry₂ target) :
    Threaded d (d₂.addEdge entry₁ entry₂ .epsilon) (marks₁ + marks₂) entry₁ target := by
  have hadd := h₂.addEdge (h₂.contains h₁.contains_entry) h₂.contains_entry .epsilon
  exact h₁.compose hadd (Reaches.refl (hadd.contains h₁.contains_entry))
    (Reaches.refl hadd.contains_target) reaches_addEdge (Reaches.refl hadd.contains_target)

lemma enterSecond (h₁ : Threaded d d₁ marks₁ entry₁ target)
    (h₂ : Threaded d₁ d₂ marks₂ entry₂ target) :
    Threaded d (d₂.addEdge entry₂ entry₁ .epsilon) (marks₁ + marks₂) entry₂ target := by
  have hadd := h₂.addEdge h₂.contains_entry (h₂.contains h₁.contains_entry) .epsilon
  exact h₁.compose hadd reaches_addEdge (Reaches.refl hadd.contains_target)
    (Reaches.refl hadd.contains_entry) (Reaches.refl hadd.contains_target)

lemma enterHub (h₁ : Threaded d d₁ marks₁ entry₁ target)
    (h₂ : Threaded d₁ d₂ marks₂ entry₂ target) {d₃ : Draft κ} {hub : State}
    (h₃ : Threaded d₂ d₃ 0 hub hub) :
    Threaded d ((d₃.addEdge hub entry₁ .epsilon).addEdge hub entry₂ .epsilon)
      (marks₁ + marks₂) hub target := by
  have hfirst := h₃.addEdge h₃.contains_entry
    (h₃.contains (h₂.contains h₁.contains_entry)) .epsilon
  have hboth := hfirst.addEdge hfirst.contains_entry (hfirst.contains h₂.contains_entry) .epsilon
  have htarget := Reaches.refl (hboth.contains h₂.contains_target)
  have hhub := Reaches.refl hboth.contains_entry
  have hjoined := h₂.compose hboth reaches_addEdge htarget hhub
    (reaches_addEdge.trans (hboth.reaches h₂.through))
  exact h₁.compose hjoined reaches_addEdge_addEdge htarget hhub htarget

theorem join (h₁ : Threaded d d₁ marks₁ entry₁ target)
    (h₂ : Threaded d₁ d₂ marks₂ entry₂ target) :
    Threaded d (d₂.join entry₁ entry₂).1 (marks₁ + marks₂) (d₂.join entry₁ entry₂).2 target := by
  suffices hentries : Threaded d (d₂.joinEntries entry₁ entry₂).1 (marks₁ + marks₂)
      (d₂.joinEntries entry₁ entry₂).2 target from
    ⟨hentries.coherent, hentries.next_le, hentries.kept, hentries.contains_iff,
      hentries.through, hentries.useful⟩
  unfold Draft.joinEntries
  split
  · rename_i hfirst
    subst hfirst
    exact h₁.enterFirst h₂
  split
  · rename_i hsecond
    subst hsecond
    exact h₁.enterSecond h₂
  split
  · exact h₁.enterFirst h₂
  split
  · exact h₁.enterSecond h₂
  · exact h₁.enterHub h₂ (mint h₂.coherent)

theorem closeLoop (h : Threaded d d₁ marks entry again) (ht : d₁.graph.contains target) :
    Threaded d (d₁.closeLoop again entry target).1 marks (d₁.closeLoop again entry target).2
      target := by
  unfold Draft.closeLoop
  split
  · rename_i hentry
    subst hentry
    have hcopied := h.addEdges h.contains_target (h.coherent.contains_neighbours .start)
    have hagain := hcopied.addEdge hcopied.contains_target (contains_addEdges ht) .epsilon
    have hskip := hagain.addEdge hagain.contains_entry (contains_addEdge (contains_addEdges ht))
      .epsilon
    exact hskip.reroute (Reaches.refl hskip.contains_entry) reaches_addEdge_addEdge
  · have hback := h.addEdge h.contains_target h.contains_entry .epsilon
    have hclosed := hback.addEdge hback.contains_target (contains_addEdge ht) .epsilon
    exact hclosed.reroute reaches_addEdge_addEdge reaches_addEdge

end Threaded

namespace Draft

mutual

lemma threaded_attach (r : Regex) (d : Draft κ) (target : State) (hd : d.graph.Coherent)
    (ht : d.graph.contains target) :
    Threaded d (d.attach target r).1 r.marks (d.attach target r).2 target :=
  match r with
  | .letter c => Threaded.atFresh hd ht (.symbol c)
  | .start c => Threaded.atStart hd ht (.symbol c)
  | .word [] => Threaded.atFresh hd ht .epsilon
  | .word (child :: children) => threaded_attachAll (child :: children) d target hd ht
  | .union left right => by
    have h₁ := threaded_attach left d target hd ht
    have h₂ := threaded_attach right (d.attach target left).1 target h₁.coherent h₁.contains_target
    exact h₁.join h₂
  | .star child => by
    have hmint : Threaded d d.mint.1 0 d.mint.2 d.mint.2 := Threaded.mint hd
    have hbody := threaded_attach child d.mint.1 d.mint.2 hmint.coherent hmint.contains_entry
    have hloop := hmint.chain hbody
    rw [Nat.zero_add] at hloop
    exact hloop.closeLoop (hloop.contains ht)

lemma threaded_attachAll (children : List Regex) (d : Draft κ) (target : State)
    (hd : d.graph.Coherent) (ht : d.graph.contains target) :
    Threaded d (d.attachAll target children).1 (marksOf children)
      (d.attachAll target children).2 target :=
  match children with
  | [] => Threaded.refl hd ht
  | child :: children => by
    have h₁ := threaded_attachAll children d target hd ht
    have h₂ := threaded_attach child (d.attachAll target children).1
      (d.attachAll target children).2 h₁.coherent h₁.contains_entry
    rw [marksOf, Nat.add_comm]
    exact h₁.chain h₂

end

lemma contains_initial {v : State} : (initial : Draft κ).graph.contains v ↔ v = .final := by
  unfold initial
  rw [contains_markFinal, contains_addVertex]
  simp [Graph.contains, Graph.empty]

lemma threaded_ofRegex (r : Regex) :
    ∃ marks, Threaded initial (ofRegex r : Draft κ) marks .start .final := by
  have h := threaded_attach r (initial : Draft κ) .final coherent_initial (contains_initial.mpr rfl)
  unfold ofRegex
  dsimp only
  split
  · rename_i hentry
    rw [hentry] at h
    exact ⟨_, h⟩
  · exact ⟨_, h.chain (Threaded.atStart h.coherent h.contains_entry .epsilon)⟩

theorem useful_ofRegex (r : Regex) {v : State} (hv : (ofRegex r : Draft κ).graph.contains v) :
    (ofRegex r : Draft κ).graph.Reaches .start v ∧
      (ofRegex r : Draft κ).graph.Reaches v .final := by
  obtain ⟨marks, h⟩ := threaded_ofRegex (κ := κ) r
  rcases (h.contains_iff v).mp hv with hv | hv
  · rw [contains_initial.mp hv]
    exact ⟨h.through, Reaches.refl h.contains_target⟩
  · exact h.useful v hv

end Draft

end RegexCompiler
