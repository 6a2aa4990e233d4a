import RegexCompiler.Proofs.Automaton.Determinization
import RegexCompiler.Proofs.Automaton.Elimination
import RegexCompiler.Proofs.Automaton.Threads

/-!
# Trim automata

An automaton is trim if its entry leads to every vertex and every vertex leads to acceptance.
Neither removing ε edges nor collecting states in sets makes a vertex useless: a vertex keeps its
words, and a set has the words of its states.
-/

namespace RegexCompiler

open RegexCompiler.Graph

variable {V κ : Type} [DecidableEq V]

namespace Graph

/-- The entry leads to every vertex, and every vertex leads to acceptance. -/
def Trim (g : Graph V κ) (entry : V) : Prop :=
  ∀ v, g.contains v → g.Reaches entry v ∧ ∃ w, g.Reaches v w ∧ g.isFinal w

lemma SameShape.trim {g g' : Graph V κ} {entry : V} (hs : g.SameShape g') (h : g.Trim entry) :
    g'.Trim entry := by
  intro v hv
  rw [hs.contains_eq] at hv
  obtain ⟨hentry, w, hw, hfinal⟩ := h v hv
  refine ⟨hs.reaches_iff.mpr hentry, w, hs.reaches_iff.mpr hw, ?_⟩
  rwa [hs.isFinal_eq]

lemma Leads.exists_reaches {g : Graph V κ} {v : V} {word : List Char} (h : g.Leads v word) :
    ∃ w, g.Reaches v w ∧ g.isFinal w := by
  obtain ⟨hv, w, hw, hfinal⟩ := h
  exact ⟨w, ⟨hv, word, hw⟩, hfinal⟩

lemma Reaches.exists_leads {g : Graph V κ} {v w : V} (h : g.Reaches v w) (hfinal : g.isFinal w) :
    ∃ word, g.Leads v word := by
  obtain ⟨hv, word, hw⟩ := h
  exact ⟨word, hv, w, hw, hfinal⟩

lemma Trim.exists_leads {g : Graph V κ} {entry v w : V} {c : Char} (ht : g.Trim entry)
    (h : g.Coherent) (ha : g.Arrow v (.symbol c) w) : ∃ word, g.Leads entry word ∧ c ∈ word := by
  obtain ⟨⟨hentry, first, hfirst⟩, -⟩ := ht v ha.contains_source
  obtain ⟨-, u, ⟨-, rest, hrest⟩, hfinal⟩ := ht w (h.contains_target ha)
  exact ⟨first ++ (c :: rest), ⟨hentry, u, hfirst.trans (.cons ha hrest), hfinal⟩, by simp⟩

variable {g : Graph State κ} {alphabet : Alphabet}

theorem trim_eliminateEpsilons (h : g.Coherent) (ht : g.Trim .start) :
    g.eliminateEpsilons.graph.Trim .start := by
  intro v hv
  refine ⟨reaches_of_contains_eliminateEpsilons hv, ?_⟩
  obtain ⟨-, w, hw, hfinal⟩ := ht v (contains_of_contains_eliminateEpsilons h hv)
  obtain ⟨word, hleads⟩ := hw.exists_leads hfinal
  exact ((leads_eliminateEpsilons h (Or.inl hv)).mpr hleads).exists_reaches

/-- Every set that is found has a state, and every state is on a way to acceptance. The whole way
reads symbols of the alphabet alone, so the set leads to acceptance over its rest. -/
theorem trim_determinize (h : g.Coherent) (hno : ∀ v w, ¬g.Arrow v .epsilon w)
    (ht : g.Trim .start) (halphabet : ∀ word, g.Leads .start word → ∀ c ∈ word, c ∈ alphabet) :
    (g.determinize alphabet).graph.Trim .entry := by
  intro s hs
  refine ⟨reaches_entry_determinize hs, ?_⟩
  have hstate : ∃ v ∈ s, g.contains v := by
    rcases eq_entry_or_successorSet hs with rfl | ⟨t, c, rfl, v, hv⟩
    · exact ⟨.start, mem_entry.mpr rfl, contains_start_of_determinize hs⟩
    · obtain ⟨u, -, ha⟩ := mem_successorSet.mp hv
      exact ⟨v, hv, h.contains_target ha⟩
  obtain ⟨v, hv, hcontains⟩ := hstate
  obtain ⟨⟨hstart, first, hfirst⟩, w, ⟨-, rest, hrest⟩, hfinal⟩ := ht v hcontains
  have hwhole := halphabet (first ++ rest) ⟨hstart, w, hfirst.trans hrest, hfinal⟩
  have hword : ∀ c ∈ rest, c ∈ alphabet := fun c hc => hwhole c (List.mem_append_right _ hc)
  exact (leads_determinize_of_mem hno hs hv hword ⟨hcontains, w, hrest, hfinal⟩).exists_reaches

end Graph

theorem Draft.trim_ofRegex {r : Regex} (hentry : r.MarkedAtEntry) (hmarks : r.marks ≤ 1) :
    (ofRegex r : Draft κ).graph.Trim .start := by
  obtain ⟨-, hfinals, -⟩ := exists_fragment_ofRegex (κ := κ) r hentry hmarks
  intro v hv
  obtain ⟨hstart, hfinal⟩ := useful_ofRegex r hv
  refine ⟨hstart, .final, hfinal, ?_⟩
  rw [isFinal_iff, hfinals]
  exact List.mem_cons_self

end RegexCompiler
