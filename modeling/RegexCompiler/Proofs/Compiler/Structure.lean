import RegexCompiler.Proofs.Automaton.Ends
import RegexCompiler.Proofs.Automaton.Trim
import RegexCompiler.Proofs.Compiler.Language

/-!
# The structure of compiled automata

In every automaton of a compiled text the entry is a source and the accepting sink a sink, and no
vertex is useless. Layouts take no part in this either.
-/

namespace RegexCompiler

open RegexCompiler.Graph

variable {κ : Type}

namespace Stages

variable {alphabet : Alphabet} {r : Regex}

lemma elimination_eq : (ofRegex alphabet r : Stages κ).elimination =
    (ofRegex alphabet r : Stages κ).draft.graph.eliminateEpsilons := by
  rw [elimination_ofRegex, draft_ofRegex]

lemma determinization_eq : (ofRegex alphabet r : Stages κ).determinization =
    (ofRegex alphabet r : Stages κ).elimination.graph.determinize alphabet := by
  rw [determinization_ofRegex, elimination_ofRegex]

section Ends

variable (hr : r.WellFormed alphabet)
include hr

lemma finals_draft : (ofRegex alphabet r : Stages κ).draft.graph.finals = [.final] := by
  rw [draft_ofRegex]
  exact (Draft.exists_fragment_ofRegex r hr.markedAtEntry.2 hr.markedAtEntry.1).2.1

lemma isSource_draft : (ofRegex alphabet r : Stages κ).draft.graph.IsSource .start := by
  rw [draft_ofRegex]
  exact Draft.isSource_start_ofRegex hr.markedAtEntry.2 hr.markedAtEntry.1

lemma isSink_draft : (ofRegex alphabet r : Stages κ).draft.graph.IsSink .final := by
  rw [draft_ofRegex]
  exact Draft.isSink_final_ofRegex hr.markedAtEntry.2 hr.markedAtEntry.1

lemma isSource_elimination :
    (ofRegex alphabet r : Stages κ).elimination.graph.IsSource .start := by
  rw [elimination_eq]
  exact isSource_eliminateEpsilons (coherent_draft hr) (isSource_draft hr)

lemma isSink_elimination : (ofRegex alphabet r : Stages κ).elimination.graph.IsSink .final := by
  rw [elimination_eq]
  exact isSink_eliminateEpsilons (coherent_draft hr) (isSink_draft hr)

lemma isSource_determinization :
    (ofRegex alphabet r : Stages κ).determinization.graph.IsSource .entry := by
  rw [determinization_eq]
  exact isSource_determinize (coherent_elimination hr) (isSource_elimination hr)

lemma start_mem_iff_determinization {s : StateSet}
    (hs : (ofRegex alphabet r : Stages κ).determinization.graph.contains s) :
    State.start ∈ s ↔ s = .entry := by
  rw [determinization_eq] at hs
  exact start_mem_iff_of_contains_determinize (coherent_elimination hr) (isSource_elimination hr) hs

end Ends

lemma useful_draft {v : State} (hv : (ofRegex alphabet r : Stages κ).draft.graph.contains v) :
    (ofRegex alphabet r : Stages κ).draft.graph.Reaches .start v ∧
      (ofRegex alphabet r : Stages κ).draft.graph.Reaches v .final := by
  rw [draft_ofRegex] at hv ⊢
  exact Draft.useful_ofRegex r hv

section Trim

variable (hr : r.WellFormed alphabet)
include hr

lemma trim_draft : (ofRegex alphabet r : Stages κ).draft.graph.Trim .start := by
  rw [draft_ofRegex]
  exact Draft.trim_ofRegex hr.markedAtEntry.2 hr.markedAtEntry.1

lemma trim_elimination : (ofRegex alphabet r : Stages κ).elimination.graph.Trim .start := by
  rw [elimination_eq]
  exact trim_eliminateEpsilons (coherent_draft hr) (trim_draft hr)

lemma no_epsilon_elimination (v w : State) :
    ¬(ofRegex alphabet r : Stages κ).elimination.graph.Arrow v .epsilon w := by
  rw [elimination_eq]
  exact no_epsilon_eliminateEpsilons (coherent_draft hr) v w

lemma trim_determinization : (ofRegex alphabet r : Stages κ).determinization.graph.Trim .entry := by
  rw [determinization_eq]
  apply trim_determinize (coherent_elimination hr) (no_epsilon_elimination hr) (trim_elimination hr)
  intro word hleads
  exact hr.mem_alphabet ((leads_elimination hr).mp hleads)

end Trim

end Stages

/-- In an automaton for a well-formed expression every edge is on the way of an accepted word, so it
reads a symbol of the alphabet. -/
lemma Regex.WellFormed.mem_alphabet_of_arrow {alphabet : Alphabet} {r : Regex}
    (hr : r.WellFormed alphabet) {g : Graph State κ} (h : g.Coherent) (ht : g.Trim .start)
    (hleads : ∀ word, g.Leads .start word ↔ r.Matches word) {v w : State} {c : Char}
    (ha : g.Arrow v (.symbol c) w) : c ∈ alphabet := by
  obtain ⟨word, hword, hc⟩ := ht.exists_leads h ha
  exact hr.mem_alphabet ((hleads word).mp hword) c hc

/-- In every automaton of a compiled text no edge leads to the entry and none leaves the accepting
sink. With ε edges the sink alone accepts, and the deterministic automaton has the entry in no set
but that of the entry alone. -/
theorem compile_ends [Coordinate κ] (compiler : Compiler) (text : String) (automata : Automata κ)
    (h : compiler.compile κ text = .ok automata) :
    (automata.epsilonNfa.IsSource .start ∧ automata.epsilonNfa.contains .final ∧
        automata.epsilonNfa.finals = [.final] ∧ automata.epsilonNfa.IsSink .final) ∧
      (automata.nfa.IsSource .start ∧ automata.nfa.IsSink .final) ∧
      automata.dfa.IsSource .entry ∧
        ∀ s, automata.dfa.contains s → (State.start ∈ s ↔ s = .entry) := by
  obtain ⟨r, hparse, hdraft, hnfa, hdfa⟩ := Compiler.exists_of_compile h
  have hr := (Regex.parse_sound hparse).1
  have hsource := hdraft.isSource (Stages.isSource_draft hr)
  have hfinals := hdraft.2.2.trans (Stages.finals_draft hr)
  refine ⟨⟨hsource, ?_, hfinals, hdraft.isSink (Stages.isSink_draft hr)⟩,
    ⟨hnfa.isSource (Stages.isSource_elimination hr), hnfa.isSink (Stages.isSink_elimination hr)⟩,
    hdfa.isSource (Stages.isSource_determinization hr), ?_⟩
  · have hstart := (Stages.isSource_draft (κ := κ) hr).present
    rw [hdraft.contains_eq]
    exact (Stages.coherent_draft hr).contains_of_reaches (Stages.useful_draft hstart).2
  · intro s hs
    rw [hdfa.contains_eq] at hs
    exact Stages.start_mem_iff_determinization hr hs

theorem compile_ends_loop :
    ∃ automata, ({} : Compiler).compile Rat "(a+b)*" = .ok automata ∧
      automata.epsilonNfa.IsSource .start ∧ automata.nfa.IsSink .final ∧
        ∀ s, automata.dfa.contains s → (State.start ∈ s ↔ s = .entry) := by
  have hparse : ({} : Compiler).parse "(a+b)*" =
      .ok (.word [.star (.word [.union (.start 'a') (.letter 'b')])]) := by
    rfl
  obtain ⟨automata, hautomata⟩ := Compiler.exists_compile_of_parse (κ := Rat) hparse
  obtain ⟨⟨hsource, -⟩, ⟨-, hsink⟩, -, hsets⟩ := compile_ends _ _ automata hautomata
  exact ⟨automata, hautomata, hsource, hsink, hsets⟩

/-- No automaton of a compiled text has a useless vertex: the entry leads to every vertex, and every
vertex leads to acceptance. So the deterministic automaton has an accepting set. -/
theorem compile_trim [Coordinate κ] (compiler : Compiler) (text : String) (automata : Automata κ)
    (h : compiler.compile κ text = .ok automata) :
    (∀ v, automata.epsilonNfa.contains v →
        automata.epsilonNfa.Reaches .start v ∧ automata.epsilonNfa.Reaches v .final) ∧
      automata.nfa.Trim .start ∧ automata.dfa.Trim .entry ∧
        ∃ s, automata.dfa.contains s ∧ automata.dfa.isFinal s := by
  obtain ⟨r, hparse, hdraft, hnfa, hdfa⟩ := Compiler.exists_of_compile h
  have hr := (Regex.parse_sound hparse).1
  have htrim := hdfa.trim (Stages.trim_determinization hr)
  refine ⟨?_, hnfa.trim (Stages.trim_elimination hr), htrim, ?_⟩
  · intro v hv
    rw [hdraft.contains_eq] at hv
    rw [hdraft.reaches_iff, hdraft.reaches_iff]
    exact Stages.useful_draft hv
  · have hentry := (hdfa.isSource (Stages.isSource_determinization hr)).present
    obtain ⟨-, s, hs, hfinal⟩ := htrim .entry hentry
    exact ⟨s, (hdfa.coherent Stages.coherent_determinization).contains_of_reaches hs, hfinal⟩

theorem compile_trim_loops :
    ∃ automata, ({} : Compiler).compile Rat "(a*+b*)b" = .ok automata ∧
      automata.nfa.Trim .start ∧ automata.dfa.Trim .entry ∧
        ∃ s, automata.dfa.contains s ∧ automata.dfa.isFinal s := by
  have hparse : ({} : Compiler).parse "(a*+b*)b" =
      .ok (.word [.word [.union (.star (.start 'a')) (.star (.letter 'b'))], .letter 'b']) := by
    rfl
  obtain ⟨automata, hautomata⟩ := Compiler.exists_compile_of_parse (κ := Rat) hparse
  exact ⟨automata, hautomata, (compile_trim _ _ automata hautomata).2⟩

end RegexCompiler
