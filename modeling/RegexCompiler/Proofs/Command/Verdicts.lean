import RegexCompiler.Command.Run
import RegexCompiler.Proofs.Alphabet
import RegexCompiler.Proofs.Compiler.Language

/-!
# Verdicts

The report on a list of inputs has one line for every input, in their order, since a quoted input
never breaks a line. A line says whether its input belongs to the language of the expression, and
the exit status whether all of them do. There is no report only where there is no automaton.
-/

namespace RegexCompiler

namespace Text

lemma newline_not_mem_hexadecimal (c : Char) : '\n' ∉ hexadecimal c := by
  have hdigit : ∀ k < 16, Nat.digitChar k ≠ '\n' := by decide
  unfold hexadecimal
  induction c.toNat using Nat.strongRecOn with
  | ind n ih =>
    rw [Nat.toDigits_eq_if (by omega)]
    split
    · rename_i hn
      exact fun h => hdigit n hn (List.mem_singleton.mp h).symm
    · rw [List.mem_append, not_or]
      refine ⟨ih (n / 16) (by omega), ?_⟩
      exact fun h => hdigit (n % 16) (by omega) (List.mem_singleton.mp h).symm

lemma newline_not_mem_escape (c : Char) : '\n' ∉ escape c := by
  unfold escape
  split
  case h_7 =>
    rename_i hnewline _ _
    have hself : '\n' ≠ c := fun h => hnewline h.symm
    split
    · simpa using hself
    · split
      · simp [newline_not_mem_hexadecimal]
      · simpa using hself
  all_goals decide

theorem newline_not_mem_quoted (text : String) : '\n' ∉ (quoted text).toList := by
  unfold quoted
  rw [String.toList_ofList]
  simp [newline_not_mem_escape]

end Text

lemma Compiler.compile_eq_error {κ : Type} [Coordinate κ] {compiler : Compiler} {text : String}
    {fault : Fault} (h : compiler.parse text = .error fault) :
    compiler.compile κ text = .error fault := by
  unfold compile
  rw [h]
  rfl

namespace Command

/-- A line that says `accept` if the input belongs to the language of the expression, and `reject`
if it does not, and then shows the input. -/
def Reports (palette : Palette) (regex input line : String) : Prop :=
  (InLanguage regex.toList input.toList ∧
      line = palette.accept ++ "accept" ++ palette.reset ++ "  " ++ Text.quoted input) ∨
    (¬InLanguage regex.toList input.toList ∧
      line = palette.muted ++ "reject" ++ palette.reset ++ "  " ++ Text.quoted input)

/-- The end of a run that tells verdicts: one line for each input, in the order of the inputs, and a
status that tells whether all of them belong to the language. -/
structure Outcome.Decides (outcome : Outcome) (palette : Palette) (regex : String)
    (inputs : List String) : Prop where
  lines : ∃ lines : List String, outcome.output = String.join (lines.map (· ++ "\n")) ∧
    List.Forall₂ (Reports palette regex) inputs lines ∧ ∀ line ∈ lines, '\n' ∉ line.toList
  status_zero : outcome.status = 0 ↔ ∀ input ∈ inputs, InLanguage regex.toList input.toList
  status_one : outcome.status = 1 ↔ ∃ input ∈ inputs, ¬InLanguage regex.toList input.toList

lemma exists_report {compiler : Compiler} {regex : String} {automata : Automata Float}
    (h : compiler.compile Float regex = .ok automata) (coloured : Bool) (input : String) :
    ∃ line, verdictLine automata (Palette.choose coloured) input = line ++ "\n" ∧
      Reports (Palette.choose coloured) regex input line ∧ '\n' ∉ line.toList := by
  have hlanguage : automata.accepts input.toList ↔ InLanguage regex.toList input.toList :=
    Compiler.accepts_iff_inLanguage h
  have hquoted := Text.newline_not_mem_quoted input
  unfold verdictLine
  refine ⟨_, rfl, ?_, ?_⟩
  · by_cases haccepts : automata.accepts input.toList
    · rw [if_pos haccepts]
      exact Or.inl ⟨hlanguage.mp haccepts, rfl⟩
    · rw [if_neg haccepts]
      exact Or.inr ⟨mt hlanguage.mpr haccepts, rfl⟩
  · cases coloured <;> split <;>
      simpa [Palette.choose, Palette.plain, Palette.terminal] using hquoted

lemma decides_verdicts {compiler : Compiler} {regex : String} {automata : Automata Float}
    (h : compiler.compile Float regex = .ok automata) (coloured : Bool) (inputs : List String)
    (log : String) :
    let report := verdicts automata (Palette.choose coloured) inputs
    Outcome.Decides ⟨report.1, report.2, log⟩ (Palette.choose coloured) regex inputs := by
  have hall : inputs.all (fun input => automata.accepts input.toList) ↔
      ∀ input ∈ inputs, InLanguage regex.toList input.toList := by
    simp [Compiler.accepts_iff_inLanguage h]
  choose line hline hreports hnewline using exists_report h coloured
  constructor
  · refine ⟨inputs.map line, ?_, ?_, ?_⟩
    · simp only [verdicts, List.map_map]
      congr 1
      exact List.map_congr_left fun input _ => hline input
    · rw [List.forall₂_map_right_iff, List.forall₂_same]
      exact fun input _ => hreports input
    · rw [List.forall_mem_map]
      exact fun input _ => hnewline input
  · rw [← hall]
    simp [verdicts]
  · have hsome : (∃ input ∈ inputs, ¬InLanguage regex.toList input.toList) ↔
        ¬∀ input ∈ inputs, InLanguage regex.toList input.toList := by
      push Not
      rfl
    rw [hsome, ← hall]
    simp [verdicts]

/-- Whether no automaton can be built: the symbols make no alphabet, or the expression is faulty
over them. -/
def Unusable (symbols regex : String) : Prop :=
  (∃ refusal, Alphabet.ofText symbols = .error refusal) ∨
    ∃ alphabet fault, Alphabet.ofText symbols = .ok alphabet ∧
      Regex.parse alphabet (some Regex.standardLimit) regex.toList = .error fault

lemma unusable_iff {symbols regex : String} : Unusable symbols regex ↔
    symbols.toList = [] ∨ (∃ c ∈ symbols.toList, symbolRefusal c ≠ none) ∨
      ∃ alphabet fault, (∀ c, c ∈ alphabet ↔ c ∈ symbols.toList) ∧
        Regex.parse alphabet (some Regex.standardLimit) regex.toList = .error fault := by
  constructor
  · rintro (⟨refusal, hrefusal⟩ | ⟨alphabet, fault, halphabet, hfault⟩)
    · rcases Alphabet.ofText_eq_error_iff.mp hrefusal with
        ⟨hnil, -⟩ | ⟨before, c, after, hsplit, hc, -⟩
      · exact Or.inl hnil
      · refine Or.inr (Or.inl ⟨c, ?_, by simp [hc]⟩)
        rw [hsplit]
        exact List.mem_append_right before List.mem_cons_self
    · exact Or.inr (Or.inr ⟨alphabet, fault, Alphabet.mem_of_ofText halphabet, hfault⟩)
  · rintro (hnil | ⟨c, hc, hrefused⟩ | ⟨alphabet, fault, hsymbols, hfault⟩)
    · exact Or.inl ⟨.empty, Alphabet.ofText_eq_error_iff.mpr (Or.inl ⟨hnil, rfl⟩)⟩
    · cases halphabet : Alphabet.ofText symbols with
      | error refusal => exact Or.inl ⟨refusal, halphabet⟩
      | ok alphabet =>
        exact absurd ((Alphabet.ofText_eq_ok_iff.mp halphabet).2.1 c hc) hrefused
    · obtain ⟨hne, hadmissible⟩ := Alphabet.admissible_of_mem_iff hsymbols
      have halphabet := Alphabet.ofText_eq_ok_iff.mpr ⟨hne, hadmissible, hsymbols⟩
      exact Or.inr ⟨alphabet, fault, halphabet, hfault⟩

theorem run_check_decides (symbols regex : String) (inputs : List String) (colour : ColourChoice)
    (verbosity : Nat) (terminal : Bool) :
    let outcome := run ⟨.check inputs, regex, symbols, colour, verbosity⟩ terminal
    (outcome.status = 2 ∧ outcome.output = "" ↔ Unusable symbols regex) ∧
      (Unusable symbols regex ∨
        outcome.Decides (Palette.choose (colour.colours terminal)) regex inputs) := by
  intro outcome
  cases halphabet : Alphabet.ofText symbols with
  | error refusal =>
    have hunusable : Unusable symbols regex := Or.inl ⟨refusal, halphabet⟩
    have houtcome : outcome = refused "" ("error: " ++ refusal.message) := by
      simp only [outcome, run, halphabet]
    refine ⟨?_, Or.inl hunusable⟩
    rw [houtcome]
    exact iff_of_true ⟨rfl, rfl⟩ hunusable
  | ok alphabet =>
    let compiler : Compiler := { alphabet := alphabet }
    let log := compilationLog compiler verbosity regex
    let coloured := colour.colours terminal
    cases hparse : compiler.parse regex with
    | error fault =>
      have hunusable : Unusable symbols regex := Or.inr ⟨alphabet, fault, halphabet, hparse⟩
      have houtcome : outcome = refused log (fault.render regex coloured) := by
        simp only [outcome, run, halphabet, runOver]
        rw [Compiler.compile_eq_error hparse]
      refine ⟨?_, Or.inl hunusable⟩
      rw [houtcome]
      exact iff_of_true ⟨rfl, rfl⟩ hunusable
    | ok r =>
      obtain ⟨automata, hautomata⟩ := Compiler.exists_compile_of_parse (κ := Float) hparse
      let report := verdicts automata (Palette.choose coloured) inputs
      have houtcome : outcome = ⟨report.1, report.2, log⟩ := by
        simp only [outcome, run, halphabet, runOver]
        rw [show compiler.compile Float regex = .ok automata from hautomata]
      have hdecides := decides_verdicts hautomata coloured inputs log
      rw [houtcome]
      refine ⟨iff_of_false ?_ ?_, Or.inr hdecides⟩
      · rintro ⟨hstatus, -⟩
        have htwo : report.1 ≠ 2 := by
          simp only [report, verdicts]
          split <;> decide
        exact htwo hstatus
      · rintro (⟨refusal, hrefusal⟩ | ⟨other, fault, hother, hfault⟩)
        · rw [halphabet] at hrefusal
          cases hrefusal
        · rw [halphabet] at hother
          cases hother
          rw [show Regex.parse alphabet (some Regex.standardLimit) regex.toList = .ok r
            from hparse] at hfault
          cases hfault

end Command

end RegexCompiler
