import RegexCompiler.Proofs.Compiler.Structure
import RegexCompiler.Proofs.Graph.Layers

/-!
# Layouts of compiled automata

A compiler that gives positions builds the same automata as one that does not. Every vertex of an
automaton with ε edges leads to its accepting sink, so none stands below it.
-/

namespace RegexCompiler

open RegexCompiler.Graph

variable {κ : Type}

/-- Automata of the same tree that differ at most in the positions of their vertices. -/
structure Automata.SameShape (automata others : Automata κ) : Prop where
  regex : others.regex = automata.regex
  epsilonNfa : automata.epsilonNfa.SameShape others.epsilonNfa
  nfa : automata.nfa.SameShape others.nfa
  dfa : automata.dfa.SameShape others.dfa

section Inert

variable [Coordinate κ]

lemma Automata.sameShape_withLayout (automata : Automata κ) :
    automata.SameShape automata.withLayout where
  regex := rfl
  epsilonNfa := automata.sameShape_epsilonNfa
  nfa := automata.sameShape_nfa
  dfa := automata.sameShape_dfa

lemma Compiler.compile_layout (compiler : Compiler) (text : String) :
    { compiler with layout := true }.compile κ text =
      ({ compiler with layout := false }.compile κ text).map Automata.withLayout := by
  have hparse : ∀ layout, { compiler with layout := layout }.parse text = compiler.parse text :=
    fun _ => rfl
  unfold Compiler.compile
  rw [hparse true, hparse false]
  generalize (Stages.ofRegex compiler.alphabet : Regex → Stages κ) = build
  cases compiler.parse text <;> rfl

lemma Compiler.exists_of_compile_layout {compiler : Compiler} {text : String}
    {drawn : Automata κ} (h : { compiler with layout := true }.compile κ text = .ok drawn) :
    ∃ plain, { compiler with layout := false }.compile κ text = .ok plain ∧
      drawn = plain.withLayout := by
  rw [compile_layout] at h
  cases hplain : { compiler with layout := false }.compile κ text with
  | error fault =>
    rw [hplain] at h
    cases h
  | ok plain =>
    rw [hplain] at h
    exact ⟨plain, rfl, (Except.ok.inj h).symm⟩

lemma Compiler.compile_layout_eq_error_iff (compiler : Compiler) (text : String) (fault : Fault) :
    { compiler with layout := true }.compile κ text = .error fault ↔
      { compiler with layout := false }.compile κ text = .error fault := by
  rw [compile_layout]
  cases { compiler with layout := false }.compile κ text <;> simp [Except.map]

end Inert

lemma Compiler.exists_position_of_compile {compiler : Compiler} {text : String}
    {drawn : Automata Rat} (h : { compiler with layout := true }.compile Rat text = .ok drawn)
    {v : State} (hv : drawn.epsilonNfa.contains v) :
    ∃ (d : Nat) (x : Rat), drawn.epsilonNfa.IsDistance v d .final ∧
      drawn.epsilonNfa.position v = some ⟨x, -150 * d⟩ := by
  obtain ⟨plain, hplain, rfl⟩ := exists_of_compile_layout h
  obtain ⟨r, hparse, hdraft, -⟩ := exists_of_compile hplain
  have hcoherent := hdraft.coherent (Stages.coherent_draft (Regex.parse_sound hparse).1)
  have hshape := plain.sameShape_epsilonNfa
  have hreach : plain.epsilonNfa.Reaches v .final := by
    rw [hshape.contains_eq, hdraft.contains_eq] at hv
    exact hdraft.reaches_iff.mpr (Stages.useful_draft hv).2
  obtain ⟨d, hd⟩ := hcoherent.exists_isDistance hreach
  obtain ⟨x, hx⟩ := (hcoherent.laidOut .final drawingOrigin).above v d hreach.1 hd
  have hheight : (drawingOrigin : Position Rat).y - 150 * d = -150 * d := by
    have horigin : (drawingOrigin : Position Rat).y = 0 := rfl
    rw [horigin]
    ring
  rw [hheight] at hx
  exact ⟨d, x, hshape.isDistance_iff.mpr hd, hx⟩

/-- A layout puts every vertex of a graph that operations have built where it belongs, whatever
positions there were before, and changes nothing else. So compiling with and without positions gives
the same tree and the same automata up to their positions, or the same fault; and in a drawn
automaton with ε edges the height of a vertex is its distance to the accepting sink. -/
theorem layout_breadth_first {V : Type} [DecidableEq V] [Coordinate κ] :
    (∀ (operations : List (Operation V Rat)) (anchor : V) (origin : Position Rat),
        let g := ofOperations operations
        g.LaidOut (g.assignLayout anchor origin) anchor origin ∧
          g.clearLayout.assignLayout anchor origin = g.assignLayout anchor origin) ∧
      ∀ (compiler : Compiler) (text : String),
        (∀ fault, { compiler with layout := true }.compile κ text = .error fault ↔
            { compiler with layout := false }.compile κ text = .error fault) ∧
          (∀ drawn plain, { compiler with layout := true }.compile κ text = .ok drawn →
            { compiler with layout := false }.compile κ text = .ok plain → plain.SameShape drawn) ∧
          ∀ drawn, { compiler with layout := true }.compile Rat text = .ok drawn →
            ∀ v, drawn.epsilonNfa.contains v →
              ∃ (d : Nat) (x : Rat), drawn.epsilonNfa.IsDistance v d .final ∧
                drawn.epsilonNfa.position v = some ⟨x, -150 * d⟩ := by
  refine ⟨fun operations anchor origin => ?_, fun compiler text => ⟨?_, ?_, ?_⟩⟩
  · exact ⟨(coherent_ofOperations operations).laidOut anchor origin, rfl⟩
  · exact compiler.compile_layout_eq_error_iff text
  · intro drawn plain hdrawn hplain
    obtain ⟨plain', hplain', rfl⟩ := Compiler.exists_of_compile_layout hdrawn
    obtain rfl := Except.ok.inj (hplain.symm.trans hplain')
    exact plain.sameShape_withLayout
  · intro drawn hdrawn v hv
    exact Compiler.exists_position_of_compile hdrawn hv

/-- A vertex right above the sink of a small graph, beside one that does not lead there, and the
entry of a compiled repetition. -/
theorem layout_breadth_first_loop :
    (∃ x, ((ofOperations [.addEdge .final (.fresh 0) .epsilon, .addEdge .start .final .epsilon] :
        Graph State Rat).assignLayout .final ⟨10, 20⟩).position .start = some ⟨x, -130⟩) ∧
      ∃ drawn plain, ({} : Compiler).compile Rat "(a+b)*" = .ok drawn ∧
        ({ layout := false } : Compiler).compile Rat "(a+b)*" = .ok plain ∧
          plain.SameShape drawn ∧ drawn.epsilonNfa.contains .start ∧
            ∃ (d : Nat) (x : Rat), drawn.epsilonNfa.IsDistance .start d .final ∧
              drawn.epsilonNfa.position .start = some ⟨x, -150 * d⟩ := by
  obtain ⟨hlayout, hcompile⟩ := layout_breadth_first (κ := Rat) (V := State)
  constructor
  · obtain ⟨hlaid, -⟩ := hlayout
      [.addEdge .final (.fresh 0) .epsilon, .addEdge .start .final .epsilon] .final ⟨10, 20⟩
    have hpositive : ∀ m, (ofOperations [.addEdge .final (.fresh 0) .epsilon,
        .addEdge .start .final .epsilon] : Graph State Rat).Steps .start m .final → 1 ≤ m := by
      intro m hm
      cases hm
      exact Nat.succ_pos _
    obtain ⟨x, hx⟩ := hlaid.above .start 1 rfl
      ⟨.cons (List.mem_singleton.mpr rfl) (.refl _), hpositive⟩
    refine ⟨x, ?_⟩
    rw [hx]
    norm_num
  · have hparse : ∀ layout, ({ layout := layout } : Compiler).parse "(a+b)*" =
        .ok (.word [.star (.word [.union (.start 'a') (.letter 'b')])]) := by
      intro layout
      rfl
    obtain ⟨drawn, hdrawn⟩ := Compiler.exists_compile_of_parse (κ := Rat) (hparse true)
    obtain ⟨plain, hplain⟩ := Compiler.exists_compile_of_parse (κ := Rat) (hparse false)
    obtain ⟨-, hsame, hheight⟩ := hcompile {} "(a+b)*"
    have hstart : drawn.epsilonNfa.contains .start := by
      obtain ⟨r, hr, hdraft, -⟩ := Compiler.exists_of_compile hdrawn
      rw [hdraft.contains_eq]
      exact (Stages.isSource_draft (Regex.parse_sound hr).1).present
    exact ⟨drawn, plain, hdrawn, hplain, hsame drawn plain hdrawn hplain, hstart,
      hheight drawn hdrawn .start hstart⟩

end RegexCompiler
