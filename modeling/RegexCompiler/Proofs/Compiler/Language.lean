import RegexCompiler.Compiler
import RegexCompiler.Proofs.Automaton.Construction
import RegexCompiler.Proofs.Automaton.Determinization
import RegexCompiler.Proofs.Automaton.Elimination
import RegexCompiler.Proofs.Regex.Entry
import RegexCompiler.Proofs.Regex.Grammar

/-!
# The language of compiled automata

A compiled text has one language, which its grammar gives, and all automata that are built for it
have this language. Layouts do not take part in it.
-/

namespace RegexCompiler

open RegexCompiler.Graph

variable {κ : Type}

section Stages

variable {alphabet : Alphabet} {r : Regex}

lemma Stages.draft_ofRegex : (ofRegex alphabet r : Stages κ).draft = Draft.ofRegex r := by
  rw [ofRegex]

lemma Stages.elimination_ofRegex :
    (ofRegex alphabet r : Stages κ).elimination = (Draft.ofRegex r).graph.eliminateEpsilons := by
  rw [ofRegex]

lemma Stages.determinization_ofRegex :
    (ofRegex alphabet r : Stages κ).determinization =
      (Draft.ofRegex r).graph.eliminateEpsilons.graph.determinize alphabet := by
  rw [ofRegex]

lemma Stages.coherent_determinization :
    (ofRegex alphabet r : Stages κ).determinization.graph.Coherent := by
  rw [determinization_ofRegex]
  exact coherent_determinize

lemma Stages.deterministic_determinization :
    (ofRegex alphabet r : Stages κ).determinization.graph.Deterministic := by
  rw [determinization_ofRegex]
  exact deterministic_determinize

variable (hr : r.WellFormed alphabet)
include hr

lemma Stages.coherent_draft : (ofRegex alphabet r : Stages κ).draft.graph.Coherent := by
  rw [draft_ofRegex]
  exact Draft.coherent_ofRegex hr.markedAtEntry.2 hr.markedAtEntry.1

lemma Stages.leads_draft {word : List Char} :
    (ofRegex alphabet r : Stages κ).draft.graph.Leads .start word ↔ r.Matches word := by
  rw [draft_ofRegex]
  exact Draft.leads_ofRegex hr.markedAtEntry.2 hr.markedAtEntry.1

lemma Stages.coherent_elimination : (ofRegex alphabet r : Stages κ).elimination.graph.Coherent := by
  have hdraft : (ofRegex alphabet r : Stages κ).draft.graph.Coherent := coherent_draft hr
  rw [elimination_ofRegex]
  exact coherent_eliminateEpsilons hdraft

lemma Stages.leads_elimination {word : List Char} :
    (ofRegex alphabet r : Stages κ).elimination.graph.Leads .start word ↔ r.Matches word := by
  have hdraft : (ofRegex alphabet r : Stages κ).draft.graph.Coherent := coherent_draft hr
  rw [elimination_ofRegex, ← leads_draft (κ := κ) hr, draft_ofRegex]
  exact leads_eliminateEpsilons hdraft (Or.inr rfl)

/-- The words of the expression are all over the alphabet, so the deterministic automaton, which
follows no other symbols, loses none of them. -/
lemma Stages.leads_determinization {word : List Char} :
    (ofRegex alphabet r : Stages κ).determinization.graph.Leads .entry word ↔ r.Matches word := by
  have hdraft : (ofRegex alphabet r : Stages κ).draft.graph.Coherent := coherent_draft hr
  rw [draft_ofRegex] at hdraft
  rw [determinization_ofRegex, leads_determinize (no_epsilon_eliminateEpsilons hdraft),
    ← elimination_ofRegex, leads_elimination hr]
  exact and_iff_right_of_imp hr.mem_alphabet

end Stages

section Layout

variable [Coordinate κ] (automata : Automata κ)

lemma Automata.sameShape_epsilonNfa :
    automata.epsilonNfa.SameShape automata.withLayout.epsilonNfa :=
  sameShape_assignLayout _ _

lemma Automata.sameShape_nfa : automata.nfa.SameShape automata.withLayout.nfa :=
  sameShape_assignLayout _ _

lemma Automata.sameShape_dfa : automata.dfa.SameShape automata.withLayout.dfa :=
  sameShape_assignLayout _ _

end Layout

lemma Compiler.exists_of_compile [Coordinate κ] {compiler : Compiler} {text : String}
    {automata : Automata κ} (h : compiler.compile κ text = .ok automata) :
    ∃ r, compiler.parse text = .ok r ∧
      (Stages.ofRegex compiler.alphabet r).draft.graph.SameShape automata.epsilonNfa ∧
      (Stages.ofRegex compiler.alphabet r).elimination.graph.SameShape automata.nfa ∧
      (Stages.ofRegex compiler.alphabet r).determinization.graph.SameShape automata.dfa := by
  unfold Compiler.compile at h
  obtain ⟨r, hparse, h⟩ := Regex.bind_eq_ok.mp h
  refine ⟨r, hparse, ?_⟩
  generalize Stages.ofRegex compiler.alphabet r = stages at h ⊢
  have hautomata := Except.ok.inj h
  split at hautomata
  · subst hautomata
    exact ⟨Automata.sameShape_epsilonNfa _, Automata.sameShape_nfa _, Automata.sameShape_dfa _⟩
  · subst hautomata
    exact ⟨⟨rfl, rfl, rfl⟩, ⟨rfl, rfl, rfl⟩, ⟨rfl, rfl, rfl⟩⟩

lemma Automata.runDfa_iff_leads {dfa : Graph StateSet κ} (h : dfa.Deterministic)
    {word : List Char} : runDfa dfa word ↔ dfa.Leads .entry word := by
  unfold runDfa Leads
  rw [Bool.and_eq_true, walkAccepts_iff h]

/-- One vertex at a time is enough. A deterministic automaton is built from every automaton and over
every alphabet, and like all graphs by graph operations; and on whatever deterministic graph such
operations have built, compiled or not, the walk along single vertices accepts what the simulation
accepts. It may lack the entry, and a word may leave it midway. -/
theorem Automata.accepts_eq_simulation [Coordinate κ] :
    (∀ (g : Graph State κ) (alphabet : Alphabet),
        (g.determinize alphabet).graph.Deterministic ∧
          ∃ operations, (g.determinize alphabet).graph = ofOperations operations) ∧
      ∀ (automata : Automata κ) (operations : List (Operation StateSet κ)),
        automata.dfa = ofOperations operations → automata.dfa.Deterministic →
          ∀ word, automata.accepts word = automata.dfa.accepts .entry word := by
  refine ⟨fun g alphabet => ⟨deterministic_determinize, becomes_determinize⟩, ?_⟩
  intro automata operations hdfa hdeterministic word
  have h : automata.dfa.Coherent := by
    rw [hdfa]
    exact coherent_ofOperations operations
  rw [Bool.eq_iff_iff, Automata.accepts, runDfa_iff_leads hdeterministic, accepts_iff_leads h]

/-- A graph that no expression is compiled to: a symbol of no alphabet leads to an accepting vertex,
and no other one leads anywhere. -/
theorem Automata.accepts_eq_simulation_foreign :
    let operations : List (Operation StateSet Rat) := [
      .addEdge .entry (.ofList [.fresh 7]) (.symbol '+'), .markFinal (.ofList [.fresh 7])]
    let automata : Automata Rat := ⟨.letter 'a', empty, empty, ofOperations operations⟩
    automata.dfa.Deterministic ∧
      automata.accepts ['+'] = automata.dfa.accepts .entry ['+'] ∧
      automata.accepts ['+', 'a'] = automata.dfa.accepts .entry ['+', 'a'] := by
  intro operations automata
  have h : automata.dfa.Coherent := coherent_ofOperations operations
  have hedges : automata.dfa.edges = [⟨.entry, .ofList [.fresh 7], .symbol '+'⟩] := rfl
  have harrow : ∀ v label w, automata.dfa.Arrow v label w →
      label = .symbol '+' ∧ w = .ofList [.fresh 7] := by
    intro v label w ha
    have hmem : (⟨v, w, label⟩ : Edge StateSet) ∈ automata.dfa.edges := h.mem_edges.mpr ha
    rw [hedges, List.mem_singleton, Edge.mk.injEq] at hmem
    exact ⟨hmem.2.2, hmem.2.1⟩
  have hdeterministic : automata.dfa.Deterministic := by
    refine ⟨fun v w ha => ?_, fun v c w x hw hx => ?_⟩
    · cases (harrow _ _ _ ha).1
    · rw [(harrow _ _ _ hw).2, (harrow _ _ _ hx).2]
  have hsame := accepts_eq_simulation.2 automata operations rfl hdeterministic
  exact ⟨hdeterministic, hsame ['+'], hsame ['+', 'a']⟩

lemma Compiler.accepts_iff_inLanguage [Coordinate κ] {compiler : Compiler} {text : String}
    {automata : Automata κ} (h : compiler.compile κ text = .ok automata) {word : List Char} :
    automata.accepts word ↔ InLanguage text.toList word := by
  obtain ⟨r, hparse, -, -, hdfa⟩ := exists_of_compile h
  have hr := (Regex.parse_sound hparse).1
  have hdeterministic := hdfa.deterministic Stages.deterministic_determinization
  rw [Automata.accepts, Automata.runDfa_iff_leads hdeterministic, hdfa.leads_iff,
    Regex.inLanguage_iff_matches hparse]
  exact Stages.leads_determinization hr

/-- Every text that is compiled, with whatever settings, has the language that the grammar gives it,
and each of its automata accepts exactly this language, whichever way it is run. -/
theorem compile_accepts_language [Coordinate κ] (compiler : Compiler) (text : String)
    (automata : Automata κ) (h : compiler.compile κ text = .ok automata) (word : List Char) :
    (automata.epsilonNfa.accepts .start word ↔ InLanguage text.toList word) ∧
      (automata.nfa.accepts .start word ↔ InLanguage text.toList word) ∧
      (automata.dfa.accepts .entry word ↔ InLanguage text.toList word) ∧
      (automata.accepts word ↔ InLanguage text.toList word) := by
  have haccepts : automata.accepts word ↔ InLanguage text.toList word :=
    Compiler.accepts_iff_inLanguage h
  obtain ⟨r, hparse, hdraft, hnfa, hdfa⟩ := Compiler.exists_of_compile h
  have hr := (Regex.parse_sound hparse).1
  rw [Regex.inLanguage_iff_matches hparse] at haccepts ⊢
  refine ⟨?_, ?_, ?_, haccepts⟩
  · rw [accepts_iff_leads (hdraft.coherent (Stages.coherent_draft hr)), hdraft.leads_iff]
    exact Stages.leads_draft hr
  · rw [accepts_iff_leads (hnfa.coherent (Stages.coherent_elimination hr)), hnfa.leads_iff]
    exact Stages.leads_elimination hr
  · rw [accepts_iff_leads (hdfa.coherent Stages.coherent_determinization), hdfa.leads_iff]
    exact Stages.leads_determinization hr

lemma Compiler.exists_compile_of_parse [Coordinate κ] {compiler : Compiler} {text : String}
    {r : Regex} (h : compiler.parse text = .ok r) :
    ∃ automata, compiler.compile κ text = .ok automata := by
  unfold Compiler.compile
  rw [h]
  exact ⟨_, rfl⟩

/-- A repetition of alternatives at the entry. -/
theorem compile_accepts_language_star :
    ∃ automata, ({} : Compiler).compile Rat "(a*+(b))*ab" = .ok automata ∧
      (automata.accepts ['b', 'a', 'b'] ↔ InLanguage "(a*+(b))*ab".toList ['b', 'a', 'b']) := by
  have hparse : ({} : Compiler).parse "(a*+(b))*ab" = .ok (.word [.star (.word [.union
      (.star (.start 'a')) (.word [.letter 'b'])]), .letter 'a', .letter 'b']) := by
    rfl
  obtain ⟨automata, hautomata⟩ := Compiler.exists_compile_of_parse (κ := Rat) hparse
  exact ⟨automata, hautomata, (compile_accepts_language _ _ automata hautomata _).2.2.2⟩

end RegexCompiler
