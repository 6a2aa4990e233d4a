import Mathlib.Data.Char
import Mathlib.Data.List.Shortlex
import RegexCompiler.Graph.Run
import RegexCompiler.Proofs.Automaton.Subsets

/-!
# The order of the deterministic automaton

Shorter words come before longer ones, and words of one length in the order of their symbols. In
this order the words lead to the sets of the deterministic automaton for the first time, and in this
order the search finds them: a set that waits in the queue has been found by its first word, and
what was seen before lies ahead of all that its successors will be found by. So the automaton does
not show in which order the one without ε edges was built.
-/

namespace RegexCompiler

/-- Shorter words come first, and words of one length in the order of their symbols. -/
abbrev Earlier : List Char → List Char → Prop :=
  List.Shortlex (· < ·)

namespace Earlier

lemma trans {u v w : List Char} (h : Earlier u v) (h' : Earlier v w) : Earlier u w := by
  rcases List.shortlex_def.mp h with hlt | ⟨heq, hlex⟩
  · rcases List.shortlex_def.mp h' with hlt' | ⟨heq', -⟩
    · exact .of_length_lt (hlt.trans hlt')
    · exact .of_length_lt (heq' ▸ hlt)
  · rcases List.shortlex_def.mp h' with hlt' | ⟨heq', hlex'⟩
    · exact .of_length_lt (heq ▸ hlt')
    · exact .of_lex (heq.trans heq') (List.lt_trans hlex hlex')

lemma concat {u v : List Char} (h : Earlier u v) (c d : Char) :
    Earlier (u ++ [c]) (v ++ [d]) := by
  rcases List.shortlex_def.mp h with hlt | ⟨heq, hlex⟩
  · apply List.Shortlex.of_length_lt
    simpa using hlt
  · apply List.Shortlex.of_lex
    · simpa using heq
    · clear h
      induction hlex with
      | nil => cases heq
      | cons _ ih => exact .cons (ih (Nat.succ.inj heq))
      | rel hlt => exact .rel hlt

lemma of_symbol {c d : Char} (h : c < d) (word : List Char) :
    Earlier (word ++ [c]) (word ++ [d]) :=
  ((List.shortlex_singleton_iff c d).mpr h).append_left word

end Earlier

/-- The first word is the second one or comes before it. -/
def NotLater (u v : List Char) : Prop :=
  u = v ∨ Earlier u v

namespace NotLater

lemma trans {u v w : List Char} (h : NotLater u v) (h' : NotLater v w) : NotLater u w := by
  rcases h with rfl | h
  · exact h'
  · rcases h' with rfl | h'
    · exact Or.inr h
    · exact Or.inr (h.trans h')

lemma concat {u v : List Char} (h : NotLater u v) (c : Char) :
    NotLater (u ++ [c]) (v ++ [c]) := by
  rcases h with rfl | h
  · exact Or.inl rfl
  · exact Or.inr (h.concat c c)

lemma of_symbol {c d : Char} (h : c ≤ d) (word : List Char) :
    NotLater (word ++ [c]) (word ++ [d]) := by
  rcases h.eq_or_lt with rfl | h
  · exact Or.inl rfl
  · exact Or.inr (.of_symbol h word)

end NotLater

namespace Graph

variable {κ : Type} {g : Graph State κ} {alphabet : Alphabet}

/-- No word over the alphabet leads to the set earlier than this one. -/
def IsFirstWord (g : Graph State κ) (alphabet : Alphabet) (s : StateSet) (word : List Char) :
    Prop :=
  (∀ c ∈ word, c ∈ alphabet) ∧ g.statesAfter word = s ∧
    ∀ other, (∀ c ∈ other, c ∈ alphabet) → g.statesAfter other = s → NotLater word other

lemma pairwise_symbols : alphabet.symbols.Pairwise (· < ·) :=
  alphabet.ascending.imp fun h => compareOfLessAndEq_eq_lt.mp h

lemma pairwise_moves (s : StateSet) :
    (g.moves alphabet s).Pairwise fun a b => a.1 < b.1 := by
  unfold moves
  refine List.Pairwise.filterMap _ ?_ pairwise_symbols
  intro c d hlt a ha b hb
  dsimp only at ha hb
  split at ha
  · cases ha
  · split at hb
    · cases hb
    · cases ha
      cases hb
      exact hlt

lemma exists_first_moves (seen : List StateSet) {moves : List (Char × StateSet)}
    (h : moves.Pairwise fun a b => a.1 < b.1) :
    ∃ first : List (Char × StateSet), first.Sublist moves ∧
      first.map Prod.snd = newcomers seen (moves.map Prod.snd) ∧
      ∀ move ∈ moves, move.2 ∈ seen ∨ ∃ c ≤ move.1, (c, move.2) ∈ first := by
  induction moves generalizing seen with
  | nil => exact ⟨[], .slnil, rfl, by simp⟩
  | cons move moves ih =>
    obtain ⟨hmove, hmoves⟩ := List.pairwise_cons.mp h
    rw [List.map_cons, newcomers]
    by_cases hseen : move.2 ∈ seen
    · obtain ⟨first, hsub, hmap, hfirst⟩ := ih seen hmoves
      refine ⟨first, hsub.cons move, ?_, ?_⟩
      · rw [if_pos hseen, hmap]
      · rw [List.forall_mem_cons]
        exact ⟨Or.inl hseen, hfirst⟩
    · obtain ⟨first, hsub, hmap, hfirst⟩ := ih (move.2 :: seen) hmoves
      refine ⟨move :: first, hsub.cons_cons move, ?_, ?_⟩
      · rw [if_neg hseen, List.map_cons, hmap]
      · rw [List.forall_mem_cons]
        refine ⟨Or.inr ⟨move.1, le_rfl, List.mem_cons_self⟩, fun other hother => ?_⟩
        rcases hfirst other hother with hknown | ⟨c, hc, hmem⟩
        · rcases List.mem_cons.mp hknown with heq | hknown
          · rw [heq]
            exact Or.inr ⟨move.1, (hmove other hother).le, List.mem_cons_self⟩
          · exact Or.inl hknown
        · exact Or.inr ⟨c, hc, List.mem_cons_of_mem _ hmem⟩

/-! ### The search in the order of words -/

/-- The sets that have been seen, each with a word that leads there, in the order of the words.
Those in the queue are the last of them, and no word is later than the ones by which their
successors will be found. -/
structure Ledger (g : Graph State κ) (alphabet : Alphabet)
    (seen queue : List (List Char × StateSet)) : Prop where
  ordered : seen.Pairwise fun a b => Earlier a.1 b.1
  leads : ∀ entry ∈ seen, (∀ c ∈ entry.1, c ∈ alphabet) ∧ g.statesAfter entry.1 = entry.2
  queued : queue.Sublist seen
  ahead : ∀ entry ∈ seen, ∀ waiting ∈ queue, ∀ c, Earlier entry.1 (waiting.1 ++ [c])

namespace Ledger

variable {seen queue : List (List Char × StateSet)}

lemma initial : Ledger g alphabet [([], .entry)] [([], .entry)] where
  ordered := List.pairwise_singleton _ _
  leads := by simp [statesAfter]
  queued := List.Sublist.refl _
  ahead := by
    simp only [List.mem_singleton, forall_eq]
    exact fun c => .of_length_lt Nat.zero_lt_one

/-- Taking a set from the queue finds its new successors, by the words of their first symbols, and
every successor has then been found by a word that is not later than any that leads there from the
set. -/
lemma step {word : List Char} {s : StateSet} (h : Ledger g alphabet seen ((word, s) :: queue)) :
    ∃ found : List (List Char × StateSet),
      found.map Prod.snd = newcomers (seen.map Prod.snd) (g.nextSets alphabet s) ∧
      Ledger g alphabet (seen ++ found) (queue ++ found) ∧
      ∀ c t, (c, t) ∈ g.moves alphabet s →
        ∃ first, (first, t) ∈ seen ++ found ∧ NotLater first (word ++ [c]) := by
  have hsymbols : (g.moves alphabet s).Pairwise fun a b => a.1 < b.1 := pairwise_moves s
  obtain ⟨first, hsub, hmap, hfirst⟩ := exists_first_moves (seen.map Prod.snd) hsymbols
  obtain ⟨hword, hset⟩ := h.leads _ (h.queued.subset List.mem_cons_self)
  have hqueue : queue.Sublist seen := (List.sublist_cons_self _ _).trans h.queued
  have hlater : ∀ waiting ∈ queue, Earlier word waiting.1 :=
    (List.pairwise_cons.mp (h.ordered.sublist h.queued)).1
  have hahead := fun entry hentry => h.ahead entry hentry (word, s) List.mem_cons_self
  refine ⟨first.map fun move => (word ++ [move.1], move.2), ?_, ⟨?_, ?_, ?_, ?_⟩, ?_⟩
  · rw [List.map_map]
    exact hmap
  · rw [List.pairwise_append, List.pairwise_map]
    refine ⟨h.ordered, ?_, ?_⟩
    · exact (hsymbols.sublist hsub).imp fun hlt => .of_symbol hlt word
    · intro entry hentry other hother
      obtain ⟨move, -, rfl⟩ := List.mem_map.mp hother
      exact hahead entry hentry move.1
  · rw [List.forall_mem_append]
    refine ⟨h.leads, fun entry hentry => ?_⟩
    obtain ⟨⟨c, t⟩, hmove, rfl⟩ := List.mem_map.mp hentry
    obtain ⟨hc, rfl, -⟩ := mem_moves.mp (hsub.subset hmove)
    rw [List.forall_mem_append, List.forall_mem_singleton, statesAfter_concat, hset]
    exact ⟨⟨hword, hc⟩, rfl⟩
  · exact hqueue.append (List.Sublist.refl _)
  · intro entry hentry waiting hwaiting d
    rcases List.mem_append.mp hentry with hentry | hentry
    · rcases List.mem_append.mp hwaiting with hwaiting | hwaiting
      · exact h.ahead entry hentry waiting (List.mem_cons_of_mem _ hwaiting) d
      · obtain ⟨move, -, rfl⟩ := List.mem_map.mp hwaiting
        exact (hahead entry hentry move.1).append_right [d]
    · obtain ⟨move, -, rfl⟩ := List.mem_map.mp hentry
      rcases List.mem_append.mp hwaiting with hwaiting | hwaiting
      · exact (hlater waiting hwaiting).concat move.1 d
      · obtain ⟨other, -, rfl⟩ := List.mem_map.mp hwaiting
        exact .of_length_lt (by simp)
  · intro c t hmove
    rcases hfirst (c, t) hmove with hknown | ⟨b, hb, hmem⟩
    · obtain ⟨entry, hentry, rfl⟩ := List.mem_map.mp hknown
      exact ⟨entry.1, List.mem_append_left _ hentry, Or.inr (hahead entry hentry c)⟩
    · exact ⟨word ++ [b], List.mem_append_right _ (List.mem_map.mpr ⟨(b, t), hmem, rfl⟩),
        .of_symbol hb word⟩

/-- The whole search keeps the order of the words. At its end every successor of a set that was
taken from the queue is known by a word that is not later than those through this set. -/
lemma run (bounded : Bounded (g.nextSets alphabet)) (h : Ledger g alphabet seen queue) :
    ∃ found : List (List Char × StateSet),
      found.map Prod.snd = (breadthFirst (g.nextSets alphabet) bounded (queue.map Prod.snd)
        (seen.map Prod.snd)).flatMap Prod.snd ∧
      Ledger g alphabet (seen ++ found) [] ∧
      ∀ entry ∈ queue ++ found, ∀ c t, (c, t) ∈ g.moves alphabet entry.2 →
        ∃ first, (first, t) ∈ seen ++ found ∧ NotLater first (entry.1 ++ [c]) := by
  generalize hq : queue.map Prod.snd = sets
  generalize hs : seen.map Prod.snd = known
  fun_induction breadthFirst (g.nextSets alphabet) bounded sets known generalizing seen queue with
  | case1 =>
    obtain rfl := List.map_eq_nil_iff.mp hq
    refine ⟨[], rfl, ?_, by simp⟩
    rw [List.append_nil]
    exact h
  | case2 known s sets new =>
    rename_i ih
    obtain ⟨⟨word, _⟩, queue, rfl, rfl, rfl⟩ := List.map_eq_cons_iff.mp hq
    obtain ⟨found, hfound, hledger, hmoves⟩ := h.step
    rw [hs] at hfound
    obtain ⟨rest, hrest, hlast, hall⟩ := ih hledger (by rw [List.map_append, hfound])
      (by rw [List.map_append, hs, hfound])
    refine ⟨found ++ rest, ?_, ?_, ?_⟩
    · rw [List.map_append, hfound, hrest, List.flatMap_cons]
    · rwa [← List.append_assoc]
    · rw [List.cons_append, ← List.append_assoc, ← List.append_assoc, List.forall_mem_cons]
      refine ⟨fun c t hmove => ?_, hall⟩
      obtain ⟨first, hmem, hfirst⟩ := hmoves c t hmove
      exact ⟨first, List.mem_append_left _ hmem, hfirst⟩

end Ledger

theorem exists_first_words (g : Graph State κ) (alphabet : Alphabet) :
    ∃ ledger : List (List Char × StateSet), ledger.map Prod.snd = g.reachableSets alphabet ∧
      (ledger.Pairwise fun a b => Earlier a.1 b.1) ∧
      ∀ entry ∈ ledger, g.IsFirstWord alphabet entry.2 entry.1 := by
  have hinitial : Ledger g alphabet [([], .entry)] [([], .entry)] := .initial
  obtain ⟨found, hfound, hledger, hmoves⟩ := hinitial.run (g.nextSets_bounded alphabet)
  have hsets : (([], .entry) :: found).map Prod.snd = g.reachableSets alphabet := by
    unfold reachableSets
    rw [breadthFirst_visited, List.map_cons, hfound]
    rfl
  have hnodup : (g.reachableSets alphabet).Nodup := reachableSets_nodup
  rw [← hsets] at hnodup
  -- symbol by symbol, a word is followed by first words that are not later
  have hfirst : ∀ word, (∃ v, v ∈ g.statesAfter word) → (∀ c ∈ word, c ∈ alphabet) →
      ∃ first, (first, g.statesAfter word) ∈ ([], .entry) :: found ∧ NotLater first word := by
    intro word hmember hword
    induction word using List.reverseRecOn with
    | nil => exact ⟨[], List.mem_cons_self, Or.inl rfl⟩
    | append_singleton word c ih =>
      rw [List.forall_mem_append, List.forall_mem_singleton] at hword
      rw [statesAfter_concat] at hmember ⊢
      obtain ⟨before, hbefore, hle⟩ := ih (exists_mem_of_successorSet hmember) hword.1
      obtain ⟨first, hmem, hle'⟩ := hmoves _ hbefore c _ (mem_moves.mpr ⟨hword.2, rfl, hmember⟩)
      exact ⟨first, hmem, hle'.trans (hle.concat c)⟩
  refine ⟨_, hsets, hledger.ordered, fun entry hentry => ?_⟩
  obtain ⟨hword, hset⟩ := hledger.leads entry hentry
  refine ⟨hword, hset, fun other hother hsame => ?_⟩
  have hmember : ∃ v, v ∈ g.statesAfter other := by
    rw [hsame]
    exact (mem_reachableSets.mp (hsets ▸ List.mem_map_of_mem hentry)).1
  obtain ⟨first, hmem, hle⟩ := hfirst other hmember hother
  rw [hsame] at hmem
  have heq := List.inj_on_of_nodup_map hnodup hmem hentry rfl
  rwa [← heq]

lemma transitionsFrom_nodup (s : StateSet) : (g.transitionsFrom alphabet s).Nodup := by
  unfold transitionsFrom
  refine List.pairwise_map.mpr ((pairwise_moves s).imp fun hlt heq => hlt.ne ?_)
  simp only [Edge.mk.injEq, Label.symbol.injEq] at heq
  exact heq.2.2

section Installed

variable {dfa : Graph StateSet κ}

lemma neighbours_installSet {s : StateSet} (hnew : ∀ label t, ¬dfa.Arrow s label t)
    (t : StateSet) : (g.installSet alphabet dfa s).outgoing.neighbours t =
      dfa.outgoing.neighbours t ++
        if t = s then (g.transitionsFrom alphabet s).map fun edge => (edge.label, edge.target)
        else [] := by
  have hnew' : ∀ edge ∈ g.transitionsFrom alphabet s,
      ¬dfa.Arrow edge.source edge.label edge.target := by
    intro edge hedge
    rw [source_of_mem_transitionsFrom edge hedge]
    exact hnew _ _
  unfold installSet
  split
  · rw [neighbours_foldl_addEdge (transitionsFrom_nodup s) source_of_mem_transitionsFrom,
      outgoing_markFinal]
    intro edge hedge
    rw [arrow_markFinal]
    exact hnew' edge hedge
  · exact neighbours_foldl_addEdge (transitionsFrom_nodup s) source_of_mem_transitionsFrom hnew' t

lemma neighbours_foldl_installSet {sets : List StateSet} (hnodup : sets.Nodup)
    (hnew : ∀ s ∈ sets, ∀ label t, ¬dfa.Arrow s label t) (t : StateSet) :
    (sets.foldl (g.installSet alphabet) dfa).outgoing.neighbours t =
      dfa.outgoing.neighbours t ++
        if t ∈ sets then (g.transitionsFrom alphabet t).map fun edge => (edge.label, edge.target)
        else [] := by
  induction sets generalizing dfa with
  | nil => simp
  | cons s sets ih =>
    rw [List.nodup_cons] at hnodup
    rw [List.forall_mem_cons] at hnew
    have hrest : ∀ u ∈ sets, ∀ label t, ¬(g.installSet alphabet dfa s).Arrow u label t := by
      intro u hu label t ha
      rcases arrow_installSet.mp ha with hold | hedge
      · exact hnew.2 u hu label t hold
      · obtain rfl : u = s := source_of_mem_transitionsFrom _ hedge
        exact hnodup.1 hu
    rw [List.foldl_cons, ih hnodup.2 hrest, neighbours_installSet hnew.1, List.append_assoc]
    congr 1
    by_cases hts : t = s
    · subst hts
      simp [hnodup.1]
    · simp [hts]

end Installed

theorem exists_symbols_subsetGraph (s : StateSet) :
    ∃ symbols : List Char, symbols.Pairwise (· < ·) ∧
      ((g.subsetGraph alphabet).outgoing.neighbours s).map Prod.fst =
        symbols.map Label.symbol := by
  have hnone : ∀ t ∈ g.reachableSets alphabet, ∀ label u,
      ¬((empty : Graph StateSet κ).addVertex .entry).Arrow t label u := by
    intro t _ label u
    rw [arrow_addVertex]
    exact List.not_mem_nil
  unfold subsetGraph
  rw [neighbours_foldl_installSet reachableSets_nodup hnone, neighbours_addVertex]
  split
  · refine ⟨(g.moves alphabet s).map Prod.fst, List.pairwise_map.mpr (pairwise_moves s), ?_⟩
    unfold transitionsFrom
    simp [empty, Function.comp_def]
  · exact ⟨[], List.Pairwise.nil, rfl⟩

/-- The deterministic automaton depends on what an automaton contains, not on the order in which it
was built. -/
theorem determinize_congr {g' : Graph State κ} (hvertices : ∀ v, g'.contains v ↔ g.contains v)
    (harrows : ∀ v label w, g'.Arrow v label w ↔ g.Arrow v label w)
    (hfinals : ∀ v, g'.isFinal v ↔ g.isFinal v) :
    g'.determinize alphabet = g.determinize alphabet := by
  have hsuccessors : g'.successorSet = g.successorSet := by
    funext s c
    apply StateSet.ext
    intro v
    simp only [mem_successorSet, harrows]
  have hmoves : g'.moves alphabet = g.moves alphabet := by
    funext s
    rw [moves, moves, hsuccessors]
  have hmarks : g'.isFinal = g.isFinal := by
    funext v
    rw [Bool.eq_iff_iff, hfinals]
  exact determinize_eq_of_moves hmoves (Bool.eq_iff_iff.mpr (hvertices .start)) hmarks

/-! ### The order of the whole automaton -/

lemma exists_first_accepted {s : StateSet} (hs : (g.subsetGraph alphabet).finals.head? = some s) :
    ∃ word, (g.subsetGraph alphabet).accepts .entry word ∧
      (g.subsetGraph alphabet).Path .entry word s ∧
      ∀ other, (g.subsetGraph alphabet).accepts .entry other → NotLater word other := by
  obtain ⟨ledger, hsets, hordered, hfirst⟩ := exists_first_words g alphabet
  rw [finals_subsetGraph, List.head?_filter, ← hsets, List.find?_map] at hs
  obtain ⟨⟨word, _⟩, hfind, rfl⟩ := Option.map_eq_some_iff.mp hs
  obtain ⟨hmark, before, after, heq, hbefore⟩ := List.find?_eq_some_iff_append.mp hfind
  dsimp only [Function.comp_apply] at hmark hbefore
  obtain ⟨hword, hset, -⟩ := hfirst _ (List.mem_of_find?_eq_some hfind)
  obtain ⟨v, hv, hfinal⟩ := List.any_eq_true.mp hmark
  have hpath := path_entry_subsetGraph.mpr ⟨hword, hset, v, hv⟩
  refine ⟨word, ?_, hpath, fun other hother => ?_⟩
  · rw [accepts_iff_leads coherent_subsetGraph]
    refine ⟨contains_entry_subsetGraph, _, hpath, isFinal_subsetGraph.mpr ⟨?_, v, hv, hfinal⟩⟩
    exact mem_reachableSets.mpr ⟨⟨v, hv⟩, word, hword, hset⟩
  · -- the other set comes later or is the same one, and so is its first word
    rw [accepts_iff_leads coherent_subsetGraph] at hother
    obtain ⟨-, t, ht, hfinal'⟩ := hother
    obtain ⟨hother, hset', -⟩ := path_entry_subsetGraph.mp ht
    obtain ⟨hmem, hmark'⟩ := isFinal_subsetGraph.mp hfinal'
    rw [← hsets] at hmem
    obtain ⟨⟨first, t⟩, hentry, rfl⟩ := List.mem_map.mp hmem
    have hle := (hfirst _ hentry).2.2 other hother hset'
    rw [heq] at hentry hordered
    rcases List.mem_append.mp hentry with hearlier | hlater
    · have hnot := hbefore _ hearlier
      rw [Bool.not_eq_true', ← Bool.not_eq_true, List.any_eq_true] at hnot
      exact absurd hmark' hnot
    · rcases List.mem_cons.mp hlater with hsame | hlater
      · rwa [← (Prod.mk.inj hsame).1]
      · have hafter := (List.pairwise_cons.mp (List.pairwise_append.mp hordered).2.1).1
        exact NotLater.trans (Or.inr (hafter _ hlater)) hle

/-- The deterministic automaton is laid down in the order of words: its sets in the order of the
first words that lead to them, its accepting sets in the same order, and the edges of each set in
the order of their symbols. So automata that contain the same have one deterministic automaton, with
all orders, however they were built, and its first accepting set is where the first accepted word
leads. -/
theorem determinize_in_order_of_words (g : Graph State κ) (alphabet : Alphabet)
    (hstart : g.contains .start) :
    let d := (g.determinize alphabet).graph
    (∃ words : List (List Char), words.Pairwise Earlier ∧
        List.Forall₂ (g.IsFirstWord alphabet) d.vertices words) ∧
      (∀ s, s ∈ d.vertices ↔
        (∃ v, v ∈ s) ∧ ∃ word, (∀ c ∈ word, c ∈ alphabet) ∧ g.statesAfter word = s) ∧
      (d.finals = d.vertices.filter fun s => s.members.any g.isFinal) ∧
      (∀ s, ∃ symbols : List Char, symbols.Pairwise (· < ·) ∧
        (d.outgoing.neighbours s).map Prod.fst = symbols.map Label.symbol) ∧
      (∀ g' : Graph State κ, (∀ v, g'.contains v ↔ g.contains v) →
        (∀ v label w, g'.Arrow v label w ↔ g.Arrow v label w) →
        (∀ v, g'.isFinal v ↔ g.isFinal v) → g'.determinize alphabet = g.determinize alphabet) ∧
      ∀ s, d.finals.head? = some s → ∃ word, d.accepts .entry word ∧ d.Path .entry word s ∧
        ∀ other, d.accepts .entry other → NotLater word other := by
  intro d
  have hgraph : d = g.subsetGraph alphabet := determinize_graph_eq hstart
  rw [hgraph]
  refine ⟨?_, ?_, ?_, exists_symbols_subsetGraph, fun _ => determinize_congr,
    fun _ => exists_first_accepted⟩
  · obtain ⟨ledger, hsets, hordered, hfirst⟩ := exists_first_words g alphabet
    refine ⟨ledger.map Prod.fst, List.pairwise_map.mpr hordered, ?_⟩
    rw [vertices_subsetGraph, ← hsets, List.forall₂_map_left_iff, List.forall₂_map_right_iff,
      List.forall₂_same]
    exact hfirst
  · intro s
    rw [vertices_subsetGraph]
    exact mem_reachableSets
  · rw [finals_subsetGraph, vertices_subsetGraph]

/-- One automaton, built in two ways. -/
theorem determinize_in_order_of_words_rebuilt :
    let operations : List (Operation State Rat) := [
      .addEdge .start (.fresh 0) (.symbol 'b'), .addEdge .start .final (.symbol 'a'),
      .addEdge .start (.fresh 0) (.symbol 'a'), .markFinal (.fresh 0), .markFinal .final]
    let reordered : List (Operation State Rat) := [
      .addVertex .final, .addVertex .start, .addEdge .start (.fresh 0) (.symbol 'a'),
      .addEdge .start .final (.symbol 'a'), .addEdge .start (.fresh 0) (.symbol 'b'),
      .markFinal .final, .markFinal (.fresh 0)]
    let g := ofOperations operations
    let g' := ofOperations reordered
    g.contains .start ∧ g'.vertices ≠ g.vertices ∧
      g'.determinize .standard = g.determinize .standard := by
  intro operations reordered g g'
  have hstart : g.contains .start := by decide
  have hvertices : ∀ v, g'.contains v ↔ g.contains v := by
    intro v
    rw [contains_iff, contains_iff]
    change v ∈ [.final, .start, .fresh 0] ↔ v ∈ [.start, .fresh 0, .final]
    simp only [List.mem_cons, List.not_mem_nil]
    tauto
  have hfinals : ∀ v, g'.isFinal v ↔ g.isFinal v := by
    intro v
    rw [isFinal_iff, isFinal_iff]
    change v ∈ [.final, .fresh 0] ↔ v ∈ [.fresh 0, .final]
    simp only [List.mem_cons, List.not_mem_nil]
    tauto
  have harrows : ∀ v label w, g'.Arrow v label w ↔ g.Arrow v label w := by
    intro v label w
    have hperm : g'.edges.Perm g.edges := by decide
    have hg : g.Coherent := coherent_ofOperations operations
    have hg' : g'.Coherent := coherent_ofOperations reordered
    have hedges : (⟨v, w, label⟩ : Edge State) ∈ g'.edges ↔ ⟨v, w, label⟩ ∈ g.edges :=
      hperm.mem_iff
    rwa [hg'.mem_edges, hg.mem_edges] at hedges
  obtain ⟨-, -, -, -, hsame, -⟩ := determinize_in_order_of_words g .standard hstart
  exact ⟨hstart, by decide, hsame g' hvertices harrows hfinals⟩

end Graph

end RegexCompiler
