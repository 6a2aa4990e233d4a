import RegexCompiler.Automaton.Minting
import RegexCompiler.Proofs.Automaton.Growth
import RegexCompiler.Proofs.Graph.Orders

/-!
# The tree tells which vertices are minted

Without the marked symbol an expression begins at a vertex that was minted for it, and an edge leads
there exactly if the expression begins with a loop. So the tree tells whether alternatives need a
vertex of their own, and with it how many vertices are minted in all.
-/

namespace RegexCompiler

open RegexCompiler.Graph Regex

variable {κ : Type}

namespace Attached

variable {d d' : Draft κ} {added : Arrows State} {entry target v : State} {L : List Char → Prop}

lemma hasIncoming_iff (h : Attached d d' added entry target L) (hd : d.graph.Coherent)
    (hv : Settled d.next v) (hne : v ≠ target) :
    d'.graph.hasIncoming v ↔ d.graph.hasIncoming v := by
  rw [h.coherent.hasIncoming_iff, hd.hasIncoming_iff]
  refine exists_congr fun u => exists_congr fun label => ?_
  rw [h.arrow_iff]
  refine or_iff_left fun ha => ?_
  rcases h.fragment.target_inside ha with hinside | htarget
  · exact hv.not_owned hinside
  · exact hne htarget

end Attached

namespace Draft

variable {d d₁ d₂ : Draft κ} {target left right : State}

@[simp] lemma joins_addEdge {u v : State} {label : Label} :
    (d.addEdge u v label).joins = d.joins :=
  rfl

@[simp] lemma next_mint : d.mint.1.next = d.next + 1 :=
  rfl

@[simp] lemma joins_mint : d.mint.1.joins = d.joins :=
  rfl

/-! ### Edges to where an expression begins -/

lemma Numbered.not_contains_mint (h : d.Numbered) : ¬d.graph.contains d.mint.2 :=
  fun hnext => Nat.lt_irrefl _ (h.below d.next hnext)

lemma Numbered.ne_mint {v : State} (h : d.Numbered) (hv : d.graph.contains v) : v ≠ d.mint.2 := by
  rintro rfl
  exact h.not_contains_mint hv

lemma hasIncoming_addEdge_of_ne {u v w : State} {label : Label} (h : d.graph.Coherent)
    (hw : w ≠ v) : (d.addEdge u w label).graph.hasIncoming v ↔ d.graph.hasIncoming v := by
  have hadd : (d.addEdge u w label).graph.Coherent := h.addEdge _ _ _
  rw [hadd.hasIncoming_iff, h.hasIncoming_iff]
  refine exists_congr fun x => exists_congr fun mark => ?_
  rw [graph_addEdge, arrow_addEdge]
  exact or_iff_left fun ha => hw ha.2.2.symm

lemma Numbered.not_hasIncoming_mint (h : d.Numbered) : ¬d.mint.1.graph.hasIncoming d.mint.2 := by
  rw [h.mint.coherent.hasIncoming_iff]
  rintro ⟨u, label, ha⟩
  rw [graph_mint, arrow_addVertex] at ha
  exact h.not_contains_mint (h.coherent.contains_target ha)

lemma Numbered.not_hasIncoming_atFresh (h : d.Numbered) (ht : d.graph.contains target)
    (label : Label) : ¬(d.mint.1.addEdge d.mint.2 target label).graph.hasIncoming d.mint.2 := by
  rw [hasIncoming_addEdge_of_ne h.mint.coherent (h.ne_mint ht)]
  exact h.not_hasIncoming_mint

lemma Numbered.not_hasIncoming_join (h : d.Numbered) (hleft : d.graph.contains left)
    (hright : d.graph.contains right) (hne : left ≠ right) (hleft' : left ≠ .start)
    (hright' : right ≠ .start) :
    ¬(d.join left right).1.graph.hasIncoming (d.join left right).2 := by
  suffices hentries :
      ¬(d.joinEntries left right).1.graph.hasIncoming (d.joinEntries left right).2 from hentries
  unfold joinEntries
  rw [if_neg hleft', if_neg hright']
  split
  · rename_i hfirst
    rw [hasIncoming_addEdge_of_ne h.coherent hne.symm]
    simpa using hfirst
  split
  · rename_i hsecond
    rw [hasIncoming_addEdge_of_ne h.coherent hne]
    simpa using hsecond
  · have hhub := h.mint.coherent.addEdge d.mint.2 left .epsilon
    dsimp only
    rw [hasIncoming_addEdge_of_ne hhub (h.ne_mint hright),
      hasIncoming_addEdge_of_ne h.mint.coherent (h.ne_mint hleft)]
    exact h.not_hasIncoming_mint

/-- The way through the body of a loop ends with an edge to where the loop begins. -/
lemma hasIncoming_closeLoop {marks : Nat} {again entry : State}
    (h : Threaded d d₁ marks entry again) (hne : entry ≠ again) (hstart : entry ≠ .start) :
    (d₁.closeLoop again entry target).1.graph.hasIncoming
      (d₁.closeLoop again entry target).2 := by
  obtain ⟨-, word, hpath⟩ := h.through
  obtain ⟨u, label, ha⟩ := hpath.eq_or_exists_last.resolve_left fun heq => hne heq.2
  unfold closeLoop
  rw [if_neg hstart, graph_addEdge, graph_addEdge,
    ((h.coherent.addEdge _ _ _).addEdge _ _ _).hasIncoming_iff]
  exact ⟨u, label, arrow_addEdge.mpr (Or.inl (arrow_addEdge.mpr (Or.inl ha)))⟩

lemma Reached.exists_attached_of_unmarked {r : Regex} (h : d.Reached)
    (ht : d.graph.contains target) (hne : target ≠ .start) (hmarks : r.marks = 0) :
    (∃ added, Attached d (d.attach target r).1 added (d.attach target r).2 target r.Matches) ∧
      (d.attach target r).2 ≠ .start := by
  obtain ⟨hattached, hstart⟩ := exists_attached r d target h.numbered.coherent (h.settled ht hne)
    (markedAtEntry_of_unmarked r hmarks) (by omega) (by omega)
  refine ⟨hattached, ?_⟩
  rw [Ne, hstart]
  omega

lemma Reached.attachAll_ne_start {children : List Regex} (h : d.Reached)
    (ht : d.graph.contains target) (hne : target ≠ .start) (hmarks : marksOf children = 0) :
    (d.attachAll target children).2 ≠ .start := by
  cases children with
  | nil => exact hne
  | cons child children =>
    have hword : (word (child :: children)).marks = 0 := hmarks
    exact (h.exists_attached_of_unmarked ht hne hword).2

theorem hasIncoming_attach_iff (r : Regex) (d : Draft κ) (target : State) (hd : d.Reached)
    (ht : d.graph.contains target) (hne : target ≠ .start) (hmarks : r.marks = 0) :
    (d.attach target r).1.graph.hasIncoming (d.attach target r).2 ↔ r.beginsWithLoop := by
  have hnumbered := hd.numbered
  match r with
  | .letter c => exact iff_of_false (hnumbered.not_hasIncoming_atFresh ht _) Bool.false_ne_true
  | .start c => exact absurd hmarks Nat.one_ne_zero
  | .word [] => exact iff_of_false (hnumbered.not_hasIncoming_atFresh ht _) Bool.false_ne_true
  | .word (child :: children) =>
    rw [marks, marksOf, Nat.add_eq_zero_iff] at hmarks
    have hrest := threaded_attachAll children d target hnumbered.coherent ht
    have hreached := reached_attachAll children d target hd ht
    exact hasIncoming_attach_iff child _ _ hreached hrest.contains_entry
      (hd.attachAll_ne_start ht hne hmarks.2) hmarks.1
  | .union left right =>
    rw [marks, Nat.add_eq_zero_iff] at hmarks
    have hleft := threaded_attach left d target hnumbered.coherent ht
    have hright := threaded_attach right _ target hleft.coherent hleft.contains_target
    have hreached := reached_attach left d target hd ht
    obtain ⟨-, hstart₁⟩ := hd.exists_attached_of_unmarked ht hne hmarks.1
    obtain ⟨⟨added, h₂⟩, hstart₂⟩ :=
      hreached.exists_attached_of_unmarked hleft.contains_target hne hmarks.2
    have hapart : (d.attach target left).2 ≠ ((d.attach target left).1.attach target right).2 := by
      intro heq
      have hsettled := hreached.settled hleft.contains_entry hstart₁
      exact hsettled.not_owned (heq ▸ h₂.fragment.entry_inside)
    have hboth := (reached_attach right _ target hreached hleft.contains_target).numbered
    exact iff_of_false (hboth.not_hasIncoming_join (hright.contains hleft.contains_entry)
      hright.contains_entry hapart hstart₁ hstart₂) Bool.false_ne_true
  | .star child =>
    have hchild : child.marks = 0 := hmarks
    have hmint := Threaded.mint hnumbered.coherent
    have hbody := threaded_attach child d.mint.1 d.mint.2 hmint.coherent hmint.contains_entry
    obtain ⟨⟨added, h⟩, hstart⟩ := hd.mint.exists_attached_of_unmarked hmint.contains_entry
      (show State.fresh d.next ≠ .start by simp) hchild
    exact iff_of_true (hasIncoming_closeLoop hbody h.fragment.entry_ne_exit hstart) rfl

/-! ### Vertices and joins, node by node -/

/-- The draft `d'` has the vertices and joins of some nodes in addition to those of `d`. -/
structure Tallied (d d' : Draft κ) (nodes : List Regex) : Prop where
  next_eq : d'.next = d.next + vertexNeed nodes
  joins_eq : d'.joins.map Join.hasHub =
    d.joins.map Join.hasHub ++ (nodes.filter isUnion).map joinsLoops

lemma vertexNeed_append (first rest : List Regex) :
    vertexNeed (first ++ rest) = vertexNeed first + vertexNeed rest := by
  simp only [vertexNeed, List.countP_append]
  omega

lemma vertexNeed_union {tree : Regex} (hunion : tree.isUnion) :
    vertexNeed [tree] = tree.joinsLoops.toNat := by
  cases tree with
  | union left right =>
    cases h : (union left right).joinsLoops <;> simp [vertexNeed, isLetter, isEmptyWord, isStar, h]
  | _ => cases hunion

namespace Tallied

variable {first rest nodes : List Regex} {u v : State} {label : Label}

lemma refl (d : Draft κ) : Tallied d d [] :=
  ⟨rfl, (List.append_nil _).symm⟩

lemma trans (h₁ : Tallied d d₁ first) (h₂ : Tallied d₁ d₂ rest) :
    Tallied d d₂ (first ++ rest) where
  next_eq := by rw [h₂.next_eq, h₁.next_eq, vertexNeed_append, Nat.add_assoc]
  joins_eq := by rw [h₂.joins_eq, h₁.joins_eq, List.filter_append, List.map_append,
    List.append_assoc]

lemma addEdge (h : Tallied d d₁ nodes) : Tallied d (d₁.addEdge u v label) nodes :=
  ⟨h.next_eq, h.joins_eq⟩

lemma addEdges {edges : List (Label × State)} (h : Tallied d d₁ nodes) :
    Tallied d (edges.foldl (fun d (label, v) => d.addEdge u v label) d₁) nodes := by
  induction edges generalizing d₁ with
  | nil => exact h
  | cons edge edges ih => exact ih h.addEdge

lemma closeLoop {again entry : State} (h : Tallied d d₁ nodes) :
    Tallied d (d₁.closeLoop again entry target).1 nodes := by
  unfold Draft.closeLoop
  split
  · exact h.addEdges.addEdge.addEdge
  · exact h.addEdge.addEdge

lemma mint {r : Regex} (hneed : vertexNeed [r] = 1) (hunion : r.isUnion = false) :
    Tallied d d.mint.1 [r] where
  next_eq := by rw [hneed]; rfl
  joins_eq := by simp [hunion]

lemma idle {r : Regex} (hneed : vertexNeed [r] = 0) (hunion : r.isUnion = false) :
    Tallied d d [r] where
  next_eq := by rw [hneed]; rfl
  joins_eq := by simp [hunion]

lemma join {tree : Regex} (hd : d.Numbered) (hunion : tree.isUnion)
    (hleft : d.graph.contains left) (hright : d.graph.contains right)
    (hloops : tree.joinsLoops ↔ (left ≠ .start ∧ right ≠ .start) ∧
      d.graph.hasIncoming left ∧ d.graph.hasIncoming right) :
    Tallied d (d.join left right).1 [tree] := by
  suffices hentries : (d.joinEntries left right).1.next = d.next + tree.joinsLoops.toNat ∧
      (d.joinEntries left right).1.joins = d.joins ∧
      (Join.mk left right (d.joinEntries left right).2).hasHub = tree.joinsLoops by
    obtain ⟨hnext, hjoins, hhub⟩ := hentries
    refine ⟨?_, ?_⟩
    · rw [vertexNeed_union hunion]
      exact hnext
    · simp [Draft.join, hjoins, hhub, hunion]
  have hnone (h : ¬((left ≠ .start ∧ right ≠ .start) ∧
      d.graph.hasIncoming left ∧ d.graph.hasIncoming right)) : tree.joinsLoops = false :=
    Bool.eq_false_iff.mpr (mt hloops.mp h)
  unfold joinEntries
  split
  · rename_i hfirst
    rw [hnone fun h => h.1.1 hfirst]
    exact ⟨rfl, rfl, by simp [Join.hasHub, hfirst]⟩
  split
  · rename_i hsecond
    rw [hnone fun h => h.1.2 hsecond]
    exact ⟨rfl, rfl, by simp [Join.hasHub, hsecond]⟩
  rename_i hfirst hsecond
  split
  · rename_i hfree
    rw [hnone fun h => by simp [h.2.1] at hfree]
    exact ⟨rfl, rfl, by simp [Join.hasHub]⟩
  split
  · rename_i hfree
    rw [hnone fun h => by simp [h.2.2] at hfree]
    exact ⟨rfl, rfl, by simp [Join.hasHub]⟩
  · rename_i hentered₁ hentered₂
    rw [Bool.not_eq_true', Bool.not_eq_false] at hentered₁ hentered₂
    rw [hloops.mpr ⟨⟨hfirst, hsecond⟩, hentered₁, hentered₂⟩]
    have hhub₁ : State.fresh d.next ≠ left := (hd.ne_mint hleft).symm
    have hhub₂ : State.fresh d.next ≠ right := (hd.ne_mint hright).symm
    dsimp only
    exact ⟨by simp, by simp, by simp [Join.hasHub, hhub₁, hhub₂]⟩

end Tallied

lemma join_eq_start (h : left = .start ∨ right = .start) : (d.join left right).2 = .start := by
  change (d.joinEntries left right).2 = .start
  unfold joinEntries
  rcases h with h | h
  · rw [if_pos h]
  · split
    · rfl
    · rfl

lemma closeLoop_eq_start {again entry : State} (h : entry = .start) :
    (d.closeLoop again entry target).2 = .start := by
  unfold closeLoop
  rw [if_pos h]

lemma attach_eq_start (r : Regex) (d : Draft κ) (target : State) (hentry : r.MarkedAtEntry)
    (hmarked : 0 < r.marks) : (d.attach target r).2 = .start := by
  match r with
  | .letter c => exact absurd hmarked (Nat.lt_irrefl 0)
  | .start c => rfl
  | .word [] => exact absurd hmarked (Nat.lt_irrefl 0)
  | .word (child :: children) =>
    have hchild : 0 < child.marks := by
      rw [marks, marksOf, hentry.2] at hmarked
      exact hmarked
    exact attach_eq_start child _ _ hentry.1 hchild
  | .union left right =>
    rw [marks, Nat.add_pos_iff_pos_or_pos] at hmarked
    apply join_eq_start
    exact hmarked.imp (attach_eq_start left _ _ hentry.1) (attach_eq_start right _ _ hentry.2)
  | .star child => exact closeLoop_eq_start (attach_eq_start child _ _ hentry hmarked)

lemma joinsLoops_iff {l r : Regex} : (union l r).joinsLoops ↔
    (l.marks = 0 ∧ r.marks = 0) ∧ l.beginsWithLoop ∧ r.beginsWithLoop := by
  have hunmarked : (union l r).hasStart = false ↔ l.marks = 0 ∧ r.marks = 0 := by
    rw [Bool.eq_false_iff, Ne, hasStart_iff_marks_pos, marks]
    omega
  rw [joinsLoops, Bool.and_eq_true, Bool.and_eq_true, Bool.not_eq_true', hunmarked, and_assoc]

lemma hasIncoming_both_iff {l r : Regex} (hd : d.Reached) (ht : d.graph.contains target)
    (hne : target ≠ .start) (hentry : (union l r).MarkedAtEntry) :
    let d₁ := (d.attach target l).1
    let d₂ := (d₁.attach target r).1
    let left := (d.attach target l).2
    let right := (d₁.attach target r).2
    (union l r).joinsLoops ↔
      (left ≠ .start ∧ right ≠ .start) ∧
        d₂.graph.hasIncoming left ∧ d₂.graph.hasIncoming right := by
  intro d₁ d₂ left right
  have hl := threaded_attach l d target hd.numbered.coherent ht
  have hreached := reached_attach l d target hd ht
  rw [joinsLoops_iff]
  by_cases hmarks : l.marks = 0 ∧ r.marks = 0
  · obtain ⟨⟨added₁, h₁⟩, hstart₁⟩ := hd.exists_attached_of_unmarked ht hne hmarks.1
    obtain ⟨⟨added₂, h₂⟩, hstart₂⟩ :=
      hreached.exists_attached_of_unmarked hl.contains_target hne hmarks.2
    have hleft : d₂.graph.hasIncoming left ↔ l.beginsWithLoop := by
      rw [h₂.hasIncoming_iff h₁.coherent (h₁.entry_settled hstart₁) h₁.fragment.entry_ne_exit]
      exact hasIncoming_attach_iff l d target hd ht hne hmarks.1
    have hright : d₂.graph.hasIncoming right ↔ r.beginsWithLoop :=
      hasIncoming_attach_iff r d₁ target hreached hl.contains_target hne hmarks.2
    rw [hleft, hright]
    exact and_congr_left fun _ => iff_of_true hmarks ⟨hstart₁, hstart₂⟩
  · refine iff_of_false (fun h => hmarks h.1) fun h => hmarks ⟨?_, ?_⟩
    · by_contra hl
      exact h.1.1 (attach_eq_start l d target hentry.1 (Nat.pos_of_ne_zero hl))
    · by_contra hr
      exact h.1.2 (attach_eq_start r d₁ target hentry.2 (Nat.pos_of_ne_zero hr))

mutual

lemma tallied_attach (r : Regex) (d : Draft κ) (target : State) (hd : d.Reached)
    (ht : d.graph.contains target) (hne : target ≠ .start) (hentry : r.MarkedAtEntry) :
    Tallied d (d.attach target r).1 r.nodes := by
  match r with
  | .letter c => exact (Tallied.mint rfl rfl).addEdge
  | .start c => exact (Tallied.idle rfl rfl).addEdge
  | .word [] => exact (Tallied.mint rfl rfl).addEdge
  | .word (child :: children) =>
    have hchildren := tallied_attachAll (child :: children) d target hd ht hne hentry
    exact hchildren.trans (Tallied.idle rfl rfl)
  | .union left right =>
    have h₁ := threaded_attach left d target hd.numbered.coherent ht
    have h₂ := threaded_attach right _ target h₁.coherent h₁.contains_target
    have hreached₁ := reached_attach left d target hd ht
    have hreached₂ := reached_attach right _ target hreached₁ h₁.contains_target
    have hleft := tallied_attach left d target hd ht hne hentry.1
    have hright := tallied_attach right _ target hreached₁ h₁.contains_target hne hentry.2
    have hjoin := Tallied.join hreached₂.numbered rfl (h₂.contains h₁.contains_entry)
      h₂.contains_entry (hasIncoming_both_iff hd ht hne hentry)
    exact (hleft.trans hright).trans hjoin
  | .star child =>
    have hmint := Threaded.mint hd.numbered.coherent
    have hagain : d.mint.2 ≠ .start := by simp
    have hbody := tallied_attach child d.mint.1 d.mint.2 hd.mint hmint.contains_entry hagain
      hentry
    exact ((Tallied.mint rfl rfl).trans hbody).closeLoop

lemma tallied_attachAll (children : List Regex) (d : Draft κ) (target : State)
    (hd : d.Reached) (ht : d.graph.contains target) (hne : target ≠ .start)
    (hentry : FirstMarkedAtEntry children) :
    Tallied d (d.attachAll target children).1 (nodesOf children) := by
  match children with
  | [] => exact Tallied.refl d
  | child :: children =>
    have hrest := tallied_attachAll children d target hd ht hne
      (firstMarkedAtEntry_of_unmarked children hentry.2)
    have hthreaded := threaded_attachAll children d target hd.numbered.coherent ht
    have hreached := reached_attachAll children d target hd ht
    exact hrest.trans (tallied_attach child _ _ hreached hthreaded.contains_entry
      (hd.attachAll_ne_start ht hne hentry.2) hentry.1)

end

lemma Reached.vertices_eq (h : d.Reached) :
    d.graph.vertices.filter (· ≠ .start) = .final :: (List.range d.next).map .fresh := by
  induction h with
  | initial => rfl
  | @mint d h ih =>
    have hnew : State.fresh d.next ∉ d.graph.vertices :=
      fun hmem => h.numbered.not_contains_mint (contains_iff.mpr hmem)
    rw [graph_mint, vertices_addVertex, enter, if_neg hnew, List.filter_append, ih, next_mint,
      List.range_succ, List.map_append]
    rfl
  | @addEdge d source target label h hsource htarget ih =>
    have hentered : (enter d.graph.vertices source).filter (· ≠ .start) =
        d.graph.vertices.filter (· ≠ .start) := by
      unfold enter
      split
      · rfl
      · rename_i hnew
        have hstart := hsource.resolve_right fun hmem => hnew (contains_iff.mp hmem)
        simp [hstart]
    have htarget' : target ∈ enter d.graph.vertices source :=
      mem_enter.mpr (Or.inl (contains_iff.mp htarget))
    rw [graph_addEdge, vertices_addEdge, enter_of_mem htarget', hentered, ih]
    rfl
  | note joins _ ih => exact ih

lemma Reached.mints (h : d.Reached) : Mints ((List.range d.next).map .fresh) d := by
  induction h with
  | initial => exact .initial
  | @mint d h ih =>
    rw [next_mint, List.range_succ, List.map_append]
    exact ih.mint h.numbered.not_contains_mint
  | addEdge label _ hsource htarget ih => exact ih.addEdge label hsource htarget
  | note joins _ ih => exact ih.note joins

lemma Mints.eq_range {minted : List State} (h : Mints minted d) :
    minted = (List.range d.next).map .fresh := by
  induction h with
  | initial => rfl
  | @mint minted d h _ ih =>
    rw [next_mint, List.range_succ, List.map_append, ← ih]
    rfl
  | addEdge label _ _ _ ih => exact ih
  | note joins _ ih => exact ih

lemma tallied_ofRegex {r : Regex} (hentry : r.MarkedAtEntry) :
    Tallied (initial : Draft κ) (ofRegex r) r.nodes := by
  have hsink : (initial : Draft κ).graph.contains .final := contains_initial.mpr rfl
  have h := tallied_attach r (initial : Draft κ) .final .initial hsink (by simp) hentry
  unfold ofRegex
  dsimp only
  split
  · exact h
  · exact h.addEdge

/-- The construction mints a vertex for every letter, for every empty concatenation, for every
repetition and for every two alternatives without the marked symbol that both begin with a loop. It
mints each of them once, in the order of their numbers, and they are all vertices but the entry and
the sink. There is one join for every two alternatives, and those that join loops, and no others,
have a hub. -/
theorem ofRegex_mints_for_nodes (r : Regex) (hentry : r.MarkedAtEntry) :
    let d : Draft κ := ofRegex r
    let vertices := (List.range (vertexNeed r.nodes)).map State.fresh
    (∀ minted, Mints minted d ↔ minted = vertices) ∧
      d.graph.vertices.Nodup ∧ .start ∈ d.graph.vertices ∧
      d.graph.vertices.filter (· ≠ .start) = .final :: vertices ∧
      d.joins.map Join.hasHub = (r.nodes.filter isUnion).map joinsLoops := by
  intro d vertices
  have hreached : d.Reached := reached_ofRegex r
  have htally : Tallied initial d r.nodes := tallied_ofRegex hentry
  have hnext : d.next = vertexNeed r.nodes := htally.next_eq.trans (Nat.zero_add _)
  obtain ⟨marks, hthreaded⟩ := threaded_ofRegex (κ := κ) r
  refine ⟨fun minted => ?_, hreached.numbered.coherent.outgoing_tidy.keys_nodup,
    contains_iff.mp hthreaded.contains_entry, ?_, htally.joins_eq⟩
  · constructor
    · intro h
      rw [h.eq_range, hnext]
    · rintro rfl
      have hmints := hreached.mints
      rwa [hnext] at hmints
  · rw [hreached.vertices_eq, hnext]

/-- Two loops get a hub, but not if one of them begins with the marked symbol. -/
theorem ofRegex_mints_for_nodes_loops :
    let r : Regex := .word [
      .union (.star (.start 'a')) (.union (.star (.letter 'b')) (.word [.star (.letter 'c')])),
      .word [], .union (.star (.letter 'a')) (.letter 'b')]
    let d : Draft Rat := ofRegex r
    r.MarkedAtEntry ∧ Mints ((List.range 10).map .fresh) d ∧
      d.graph.vertices.filter (· ≠ .start) = .final :: (List.range 10).map .fresh ∧
      d.joins.map Join.hasHub = [false, true, false] := by
  intro r d
  have hentry : r.MarkedAtEntry := ⟨⟨trivial, trivial, trivial, rfl⟩, rfl⟩
  have hneed : vertexNeed r.nodes = 10 := rfl
  have hunions : (r.nodes.filter isUnion).map joinsLoops = [false, true, false] := rfl
  obtain ⟨hminted, -, -, hvertices, hjoins⟩ := ofRegex_mints_for_nodes (κ := Rat) r hentry
  rw [hneed] at hvertices hminted
  rw [hunions] at hjoins
  exact ⟨hentry, (hminted _).mpr rfl, hvertices, hjoins⟩

end Draft

end RegexCompiler
