import RegexCompiler.Proofs.Automaton.Determinization
import RegexCompiler.Proofs.Automaton.Elimination
import RegexCompiler.Proofs.Automaton.Threads

/-!
# The ends of automata

No edge leads to the entry of an automaton and none leaves its accepting sink. Without ε edges an
edge is a path of the automaton before, so the ends stay what they are. In the deterministic
automaton a set with the entry could only be found over an edge to the entry, unless it is the set
of the entry alone.
-/

namespace RegexCompiler

open RegexCompiler.Graph

namespace Graph

variable {V κ : Type} [DecidableEq V] {g : Graph V κ} {v : V}

/-- A vertex that is present and that no edge leads to. -/
structure IsSource (g : Graph V κ) (v : V) : Prop where
  present : g.contains v
  incoming_eq_nil : g.incoming.neighbours v = []
  not_target : ∀ edge ∈ g.edges, edge.target ≠ v

/-- A vertex that no edge leaves. -/
structure IsSink (g : Graph V κ) (v : V) : Prop where
  outgoing_eq_nil : g.outgoing.neighbours v = []
  not_source : ∀ edge ∈ g.edges, edge.source ≠ v

lemma Coherent.isSource (h : g.Coherent) (hv : g.contains v) (hno : ∀ u label, ¬g.Arrow u label v) :
    g.IsSource v where
  present := hv
  incoming_eq_nil := by
    apply List.eq_nil_iff_forall_not_mem.mpr
    rintro ⟨label, u⟩ hu
    exact hno u label ((h.mirrored u label v).mpr hu)
  not_target := by
    rintro edge hedge rfl
    exact hno _ _ (h.mem_edges.mp hedge)

lemma IsSource.not_arrow (hv : g.IsSource v) (h : g.Coherent) (u : V) (label : Label) :
    ¬g.Arrow u label v := by
  intro ha
  have hmem := (h.mirrored u label v).mp ha
  rw [hv.incoming_eq_nil] at hmem
  exact List.not_mem_nil hmem

lemma IsSink.not_arrow (hv : g.IsSink v) (label : Label) (w : V) : ¬g.Arrow v label w := by
  unfold Arrow
  rw [hv.outgoing_eq_nil]
  exact List.not_mem_nil

lemma Coherent.isSink (h : g.Coherent) (hno : ∀ label w, ¬g.Arrow v label w) : g.IsSink v where
  outgoing_eq_nil := by
    apply List.eq_nil_iff_forall_not_mem.mpr
    rintro ⟨label, w⟩ hw
    exact hno label w hw
  not_source := by
    rintro edge hedge rfl
    exact hno _ _ (h.mem_edges.mp hedge)

omit [DecidableEq V] in
lemma SameShape.edges_eq {g' : Graph V κ} (hs : g.SameShape g') : g'.edges = g.edges := by
  unfold edges
  rw [hs.1]

lemma SameShape.isSource {g' : Graph V κ} (hs : g.SameShape g') (h : g.IsSource v) :
    g'.IsSource v where
  present := by
    rw [hs.contains_eq]
    exact h.present
  incoming_eq_nil := by
    rw [hs.2.1]
    exact h.incoming_eq_nil
  not_target := by
    rw [hs.edges_eq]
    exact h.not_target

lemma SameShape.isSink {g' : Graph V κ} (hs : g.SameShape g') (h : g.IsSink v) : g'.IsSink v where
  outgoing_eq_nil := by
    rw [hs.1]
    exact h.outgoing_eq_nil
  not_source := by
    rw [hs.edges_eq]
    exact h.not_source

end Graph

variable {κ : Type}

namespace Draft

variable {r : Regex}

theorem isSource_start_ofRegex (hentry : r.MarkedAtEntry) (hmarks : r.marks ≤ 1) :
    (ofRegex r : Draft κ).graph.IsSource .start := by
  obtain ⟨marks, hthreaded⟩ := threaded_ofRegex (κ := κ) r
  obtain ⟨hcoherent, -, hno, -⟩ := exists_fragment_ofRegex (κ := κ) r hentry hmarks
  exact hcoherent.isSource hthreaded.contains_entry hno

theorem isSink_final_ofRegex (hentry : r.MarkedAtEntry) (hmarks : r.marks ≤ 1) :
    (ofRegex r : Draft κ).graph.IsSink .final := by
  obtain ⟨hcoherent, -, -, inside, hfragment⟩ :=
    exists_fragment_ofRegex (κ := κ) r hentry hmarks
  exact hcoherent.isSink hfragment.stuck

end Draft

namespace Graph

variable {g : Graph State κ} {alphabet : Alphabet}

theorem isSource_eliminateEpsilons (h : g.Coherent) (hstart : g.IsSource .start) :
    g.eliminateEpsilons.graph.IsSource .start := by
  have hcontains := contains_start_eliminateEpsilons h hstart.present
  apply (coherent_eliminateEpsilons h).isSource hcontains
  intro u label ha
  obtain ⟨c, -, hpath⟩ := path_of_arrow_eliminateEpsilons h ha
  rcases hpath.eq_or_exists_last with ⟨hnil, -⟩ | ⟨v, mark, hlast⟩
  · exact List.cons_ne_nil _ _ hnil
  · exact hstart.not_arrow h v mark hlast

theorem isSink_eliminateEpsilons (h : g.Coherent) {v : State} (hv : g.IsSink v) :
    g.eliminateEpsilons.graph.IsSink v := by
  apply (coherent_eliminateEpsilons h).isSink
  intro label w ha
  obtain ⟨c, -, hpath⟩ := path_of_arrow_eliminateEpsilons h ha
  exact List.cons_ne_nil _ _ (Walk.eq_of_stuck hv.not_arrow hpath).1

lemma start_not_mem_successorSet (h : g.Coherent) (hstart : g.IsSource .start) (s : StateSet)
    (c : Char) : State.start ∉ g.successorSet s c := by
  intro hmem
  obtain ⟨u, -, ha⟩ := mem_successorSet.mp hmem
  exact hstart.not_arrow h u _ ha

theorem isSource_determinize (h : g.Coherent) (hstart : g.IsSource .start) :
    (g.determinize alphabet).graph.IsSource .entry := by
  apply coherent_determinize.isSource (contains_entry_determinize hstart.present)
  intro s label ha
  obtain ⟨c, hentry, -⟩ := arrow_determinize ha
  apply start_not_mem_successorSet h hstart s c
  rw [← hentry]
  exact mem_entry.mpr rfl

theorem start_mem_iff_of_contains_determinize (h : g.Coherent) (hstart : g.IsSource .start)
    {s : StateSet} (hs : (g.determinize alphabet).graph.contains s) :
    State.start ∈ s ↔ s = .entry := by
  constructor
  · intro hmem
    rcases eq_entry_or_successorSet hs with heq | ⟨t, c, rfl, -⟩
    · exact heq
    · exact absurd hmem (start_not_mem_successorSet h hstart t c)
  · rintro rfl
    exact mem_entry.mpr rfl

end Graph

end RegexCompiler
