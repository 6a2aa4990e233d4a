import RegexCompiler.Proofs.Compiler.Structure
import RegexCompiler.Proofs.Graph.Printed

/-!
# What exports tell of a language

The listing of an automaton with ε edges, or the JSON text of its snapshot in either form, tells all
its edges and therefore its language, over every alphabet in which `ε` is no symbol. No alphabet has
to be of that kind, and an edge that reads the symbol `ε` is written like one that reads nothing.
-/

namespace RegexCompiler

open RegexCompiler.Graph

variable {V κ : Type}

lemma Label.mark_eq_of_text_eq {a b : Label} (h : a.text = b.text) : a.mark = b.mark := by
  rw [text_eq, text_eq] at h
  simpa [Char.toString] using h

lemma Label.eq_of_text_eq {a b : Label} (ha : a ≠ .symbol 'ε') (hb : b ≠ .symbol 'ε')
    (h : a.text = b.text) : a = b := by
  have hmark := mark_eq_of_text_eq h
  cases a <;> cases b <;> grind [mark]

namespace Snapshot.PrintedAlike

variable [DecidableEq V] [Ord V] [Named V] {g g' : Graph V κ}

lemma symm {s t : Snapshot κ} (h : s.PrintedAlike t) : t.PrintedAlike s :=
  ⟨h.vertices.symm, h.edges.symm, h.finals.symm⟩

variable (hname : Function.Injective (Named.name (V := V)))
include hname

lemma arrow (h : g.snapshot.PrintedAlike g'.snapshot) {v w : V} {label : Label}
    (hlabel : label ≠ .symbol 'ε') (hother : ∀ {u u'}, ¬g'.Arrow u (.symbol 'ε') u')
    (ha : g.Arrow v label w) : g'.Arrow v label w := by
  have hmem : SnapshotEdge.ofEdge ⟨v, w, label⟩ ∈ g.snapshot.edges := by
    rw [mem_edges_snapshot hname]
    exact ha
  have hprinted := List.mem_map_of_mem (f := SnapshotEdge.printed) hmem
  rw [h.edges, edges_snapshot, List.map_map, List.mem_map] at hprinted
  obtain ⟨⟨v', w', label'⟩, harrow, heq⟩ := hprinted
  rw [mem_listedEdges] at harrow
  simp only [Function.comp, SnapshotEdge.printed, SnapshotEdge.ofEdge, Prod.mk.injEq] at heq
  obtain ⟨hv, hw, htext⟩ := heq
  have hlabel' : label' ≠ .symbol 'ε' := by
    rintro rfl
    exact hother harrow
  rw [← hname hv, ← hname hw, ← Label.eq_of_text_eq hlabel' hlabel htext]
  exact harrow

lemma arrow_iff (h : g.snapshot.PrintedAlike g'.snapshot)
    (hg : ∀ {u u'}, ¬g.Arrow u (.symbol 'ε') u') (hg' : ∀ {u u'}, ¬g'.Arrow u (.symbol 'ε') u')
    (v : V) (label : Label) (w : V) : g.Arrow v label w ↔ g'.Arrow v label w := by
  by_cases hlabel : label = .symbol 'ε'
  · rw [hlabel]
    exact iff_of_false hg hg'
  · exact ⟨h.arrow hname hlabel hg', h.symm.arrow hname hlabel hg⟩

lemma leads_iff (h : g.snapshot.PrintedAlike g'.snapshot)
    (harrow : ∀ v label w, g.Arrow v label w ↔ g'.Arrow v label w) (v : V) (word : List Char) :
    g.Leads v word ↔ g'.Leads v word := by
  have harrows : g.Arrow = g'.Arrow := by
    funext v label w
    exact propext (harrow v label w)
  have hfinal : ∀ w, g.isFinal w ↔ g'.isFinal w := fun w => by
    rw [← mem_finals_snapshot hname, h.finals, mem_finals_snapshot hname]
  have hcontains : g.contains v ↔ g'.contains v := by
    rw [← mem_vertices_snapshot hname, h.vertices, mem_vertices_snapshot hname]
  unfold Leads Graph.Path
  simp only [hcontains, harrows, hfinal]

end Snapshot.PrintedAlike

/-- The texts that an automaton is exported as. -/
inductive Export where
  | listing
  | compactJson
  | prettyJson

def Export.write (g : Graph State Float) : Export → String
  | listing => g.listing .plain false
  | compactJson => g.snapshot.toJson.compact
  | prettyJson => g.snapshot.toJson.pretty

/-- Over the alphabet an exported automaton with ε edges identifies its language: if two texts are
compiled, and their automata are exported as the same text, then the automata have the same edges
and accept the same words. -/
def Alphabet.ExportsIdentify (alphabet : Alphabet) (form : Export) : Prop :=
  ∀ (layout : Bool) (limit limit' : Option Nat) (text text' : String)
    (automata automata' : Automata Float),
    Compiler.compile ⟨alphabet, layout, limit⟩ Float text = .ok automata →
    Compiler.compile ⟨alphabet, layout, limit'⟩ Float text' = .ok automata' →
    form.write automata.epsilonNfa = form.write automata'.epsilonNfa →
    (∀ v label w, automata.epsilonNfa.Arrow v label w ↔ automata'.epsilonNfa.Arrow v label w) ∧
      ∀ word, automata.epsilonNfa.accepts .start word ↔ automata'.epsilonNfa.accepts .start word

variable {alphabet : Alphabet}

lemma Compiler.epsilonNfa_of_compile {compiler : Compiler} {text : String}
    {automata : Automata Float} (h : compiler.compile Float text = .ok automata) :
    automata.epsilonNfa.Coherent ∧
      ∀ {v c w}, automata.epsilonNfa.Arrow v (.symbol c) w → c ∈ compiler.alphabet := by
  obtain ⟨r, hparse, hdraft, -, -⟩ := exists_of_compile h
  have hr := (Regex.parse_sound hparse).1
  refine ⟨hdraft.coherent (Stages.coherent_draft hr), fun {v c w} ha => ?_⟩
  rw [hdraft.arrow_eq] at ha
  exact hr.mem_alphabet_of_arrow (Stages.coherent_draft hr) (Stages.trim_draft hr)
    (fun _ => Stages.leads_draft hr) ha

lemma Export.printedAlike {form : Export} {g g' : Graph State Float}
    (h : form.write g = form.write g') : g.snapshot.PrintedAlike g'.snapshot := by
  cases form with
  | listing => exact printedAlike_of_listing_eq h
  | compactJson => exact Snapshot.printedAlike_of_compact_eq h
  | prettyJson => exact Snapshot.printedAlike_of_pretty_eq h

lemma Export.write_eq {g g' : Graph State Float}
    (hlisting : g.listing .plain false = g'.listing .plain false)
    (hjson : g.snapshot.toJson = g'.snapshot.toJson) (form : Export) :
    form.write g = form.write g' := by
  cases form with
  | listing => exact hlisting
  | compactJson => exact congrArg Json.compact hjson
  | prettyJson => exact congrArg Json.pretty hjson

lemma Alphabet.exportsIdentify_of_not_mem (h : 'ε' ∉ alphabet) (form : Export) :
    alphabet.ExportsIdentify form := by
  intro layout limit limit' text text' automata automata' hcompile hcompile' hprinted
  obtain ⟨hcoherent, hsymbols⟩ := Compiler.epsilonNfa_of_compile hcompile
  obtain ⟨hcoherent', hsymbols'⟩ := Compiler.epsilonNfa_of_compile hcompile'
  have halike := Export.printedAlike hprinted
  have harrow := halike.arrow_iff State.name_injective (fun ha => h (hsymbols ha))
    fun ha => h (hsymbols' ha)
  refine ⟨harrow, fun word => ?_⟩
  rw [accepts_iff_leads hcoherent, accepts_iff_leads hcoherent']
  exact halike.leads_iff State.name_injective harrow .start word

/-! ### The symbol that is written like ε -/

/-- Two edges one after the other, from the entry to acceptance, that carry the same label. -/
def chain (label : Label) : Graph State κ where
  outgoing := [(.final, []), (.fresh 0, [(label, .final)]), (.start, [(label, .fresh 0)])]
  incoming := [(.final, [(label, .fresh 0)]), (.fresh 0, [(label, .start)]), (.start, [])]
  finals := [.final]
  layout := []

lemma graph_ofRegex_nothing : (Draft.ofRegex (.word []) : Draft κ).graph = chain .epsilon := by
  simp [Draft.ofRegex, Draft.attach, Draft.initial, Draft.mint, Draft.addEdge, Graph.empty,
    Graph.addVertex, Graph.addEdge, Graph.markFinal, Graph.contains, Graph.hasEdge, Graph.isFinal,
    Adjacency.neighbours, Adjacency.modify, List.lookup_cons, beq_eq_decide, chain]

lemma graph_ofRegex_pair (c : Char) :
    (Draft.ofRegex (.word [.start c, .letter c]) : Draft κ).graph = chain (.symbol c) := by
  simp [Draft.ofRegex, Draft.attach, Draft.attachAll, Draft.initial, Draft.mint, Draft.addEdge,
    Graph.empty, Graph.addVertex, Graph.addEdge, Graph.markFinal, Graph.contains, Graph.hasEdge,
    Graph.isFinal, Adjacency.neighbours, Adjacency.modify, List.lookup_cons, beq_eq_decide, chain]

lemma lines_chain {a b : Label} (h : a.mark = b.mark) :
    (chain a : Graph State Float).lines = (chain b).lines := by
  apply List.map_congr_left
  intro v _
  congr 1
  by_cases hfinal : v = .final
  · simp [hfinal, sortedEdges, chain, Adjacency.neighbours_cons]
  · by_cases hfresh : v = .fresh 0
    · simp [hfresh, sortedEdges, chain, Adjacency.neighbours_cons, h]
    · by_cases hstart : v = .start
      · simp [hstart, sortedEdges, chain, Adjacency.neighbours_cons, h]
      · simp [hfinal, hfresh, hstart, sortedEdges, chain, Adjacency.neighbours_cons]

lemma listing_chain {a b : Label} (h : a.mark = b.mark) :
    (chain a).listing .plain false = (chain b).listing .plain false := by
  apply String.toList_inj.mp
  rw [toList_listing, toList_listing, lines_chain h]
  rfl

lemma toJson_chain {a b : Label} (h : a.mark = b.mark) :
    (chain a).snapshot.toJson = (chain b).snapshot.toJson :=
  (printedAlike_of_lines_eq (lines_chain h) rfl).toJson_eq rfl

lemma Compiler.compile_of_wellFormed {r : Regex} (hr : r.WellFormed alphabet) {text : String}
    (htext : r.spellRoot = text.toList) : compile ⟨alphabet, false, none⟩ Float text =
      .ok (.ofStages r (.ofRegex alphabet r)) := by
  have hparse : Compiler.parse ⟨alphabet, false, none⟩ text = .ok r :=
    Regex.parse_none_iff.mpr ⟨hr, htext⟩
  unfold compile
  rw [hparse]
  rfl

lemma Stages.accepts_draft {r : Regex} (hr : r.WellFormed alphabet) {word : List Char} :
    (ofRegex alphabet r : Stages κ).draft.graph.accepts .start word ↔ r.Matches word := by
  rw [accepts_iff_leads (coherent_draft hr), leads_draft hr]

/-- Two expressions over an alphabet with the symbol `ε`, the one of two such symbols and the empty
one, that are exported alike. -/
lemma Alphabet.exists_alike (h : 'ε' ∈ alphabet) : ∃ automata automata' : Automata Float,
    Compiler.compile ⟨alphabet, false, none⟩ Float "εε" = .ok automata ∧
      Compiler.compile ⟨alphabet, false, none⟩ Float "" = .ok automata' ∧
      automata.epsilonNfa.listing .plain false = automata'.epsilonNfa.listing .plain false ∧
      automata.epsilonNfa.snapshot.toJson = automata'.epsilonNfa.snapshot.toJson ∧
      automata.epsilonNfa.accepts .start ['ε', 'ε'] ∧
      ¬automata'.epsilonNfa.accepts .start ['ε', 'ε'] := by
  let pair : Regex := .word [.start 'ε', .letter 'ε']
  have hpair : pair.WellFormed alphabet := by
    simp [pair, Regex.WellFormed, Regex.BindAll, Regex.Binds, Regex.MarkedAll, Regex.Marked,
      Regex.OnlyOpened, Regex.leavesOf, Regex.leaves, Regex.spell, h]
  have hnothing : (Regex.word []).WellFormed alphabet := by
    simp [Regex.WellFormed, Regex.BindAll, Regex.MarkedAll, Regex.leavesOf]
  refine ⟨_, _, Compiler.compile_of_wellFormed hpair rfl,
    Compiler.compile_of_wellFormed hnothing rfl, ?_, ?_, ?_, ?_⟩
  · simp only [Automata.ofStages, Stages.draft_ofRegex, pair, graph_ofRegex_pair,
      graph_ofRegex_nothing]
    exact listing_chain rfl
  · simp only [Automata.ofStages, Stages.draft_ofRegex, pair, graph_ofRegex_pair,
      graph_ofRegex_nothing]
    exact toJson_chain rfl
  · refine (Stages.accepts_draft hpair).mpr ⟨['ε'], ['ε'], rfl, ⟨['ε'], [], rfl, rfl, rfl⟩, rfl⟩
  · refine mt (Stages.accepts_draft hnothing).mp ?_
    simp [Regex.Matches, Regex.MatchesInOrder]

lemma Alphabet.not_exportsIdentify (h : 'ε' ∈ alphabet) (form : Export) :
    ¬alphabet.ExportsIdentify form := by
  intro hidentify
  obtain ⟨automata, automata', hpair, hnothing, hlisting, hjson, haccepts, hrejects⟩ :=
    exists_alike h
  obtain ⟨-, hsame⟩ := hidentify false none none _ _ _ _ hpair hnothing
    (Export.write_eq hlisting hjson form)
  exact hrejects ((hsame _).mp haccepts)

/-- Every form of export identifies languages exactly over the alphabets without the symbol `ε`, and
over these alone every symbol is printed otherwise than ε. -/
theorem exports_identify_iff (alphabet : Alphabet) :
    (∀ form, alphabet.ExportsIdentify form ↔ 'ε' ∉ alphabet) ∧
      ((∀ c ∈ alphabet, (Label.symbol c).text ≠ Label.epsilon.text) ↔ 'ε' ∉ alphabet) := by
  refine ⟨fun form => ⟨fun hidentify hmem => ?_, fun h => ?_⟩,
    fun htexts hmem => htexts 'ε' hmem rfl, fun hnot c hc heq => ?_⟩
  · exact Alphabet.not_exportsIdentify hmem form hidentify
  · exact Alphabet.exportsIdentify_of_not_mem h form
  · have hmark : c = 'ε' := Label.mark_eq_of_text_eq heq
    exact hnot (hmark ▸ hc)

/-- The alphabet of the one symbol `ε` is accepted, and over it two different languages are exported
as the same text. -/
theorem exports_identify_fails :
    ∃ alphabet, Alphabet.ofText "ε" = .ok alphabet ∧ (∀ form, ¬alphabet.ExportsIdentify form) ∧
      ∃ automata automata' : Automata Float,
        Compiler.compile ⟨alphabet, false, none⟩ Float "εε" = .ok automata ∧
          Compiler.compile ⟨alphabet, false, none⟩ Float "" = .ok automata' ∧
          automata.epsilonNfa.listing .plain false = automata'.epsilonNfa.listing .plain false ∧
          automata.epsilonNfa.snapshot.toJson = automata'.epsilonNfa.snapshot.toJson ∧
          automata.epsilonNfa.accepts .start ['ε', 'ε'] ∧
          ¬automata'.epsilonNfa.accepts .start ['ε', 'ε'] := by
  obtain ⟨alphabet, halphabet, hmem⟩ :
      ∃ alphabet, Alphabet.ofText "ε" = .ok alphabet ∧ 'ε' ∈ alphabet :=
    ⟨_, rfl, by decide⟩
  exact ⟨alphabet, halphabet, Alphabet.not_exportsIdentify hmem, Alphabet.exists_alike hmem⟩

end RegexCompiler
