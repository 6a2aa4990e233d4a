import RegexCompiler.Graph.Run
import RegexCompiler.Proofs.Graph.Searches

/-!
# Runs follow paths

The simulation accepts a word from a vertex exactly if some path from there to an accepting vertex
spells it (`accepts_iff_leads`). Where no ε edge and no choice between edges is met, the walk along
single vertices gives the same answer.
-/

namespace RegexCompiler.Graph

variable {V κ : Type} [DecidableEq V] {g : Graph V κ}

lemma mem_merge {members others : List V} {v : V} :
    v ∈ merge members others ↔ v ∈ members ∨ v ∈ others := by
  unfold merge
  rw [List.mem_append, mem_newcomers_iff]
  tauto

lemma mem_foldl_merge {α : Type} {collect : α → List V} {sources : List α} {members : List V}
    {v : V} :
    v ∈ sources.foldl (fun next a => merge next (collect a)) members ↔
      v ∈ members ∨ ∃ a ∈ sources, v ∈ collect a := by
  induction sources generalizing members with
  | nil => simp
  | cons a sources ih =>
    rw [List.foldl_cons, ih, mem_merge, or_assoc]
    simp

lemma mem_targets {v w : V} {label : Label} : w ∈ g.targets v label ↔ g.Arrow v label w := by
  unfold targets Arrow
  rw [List.mem_map]
  constructor
  · rintro ⟨⟨mark, u⟩, hu, rfl⟩
    obtain ⟨hmem, hmark⟩ := List.mem_filter.mp hu
    rwa [← of_decide_eq_true hmark]
  · intro h
    exact ⟨_, List.mem_filter.mpr ⟨h, by simp⟩, rfl⟩

lemma mem_step (h : g.Coherent) {c : Char} {current : List V} {w : V} :
    w ∈ g.step c current ↔
      ∃ v ∈ current, ∃ u, g.Arrow v (.symbol c) u ∧ g.Path u [] w := by
  unfold step
  rw [mem_foldl_merge]
  simp only [List.not_mem_nil, false_or, List.mem_flatMap, mem_targets, mem_epsilonClosure]
  constructor
  · rintro ⟨u, ⟨v, hv, hvu⟩, -, hu⟩
    exact ⟨v, hv, u, hvu, hu⟩
  · rintro ⟨v, hv, u, hvu, hu⟩
    exact ⟨u, ⟨v, hv, hvu⟩, h.contains_target hvu, hu⟩

/-- Whatever a vertex of the list leads to over ε edges is in the list too. -/
def SilentlyClosed (g : Graph V κ) (current : List V) : Prop :=
  ∀ v ∈ current, ∀ w, g.Path v [] w → w ∈ current

lemma silentlyClosed_epsilonClosure (v : V) : g.SilentlyClosed (g.epsilonClosure v) := by
  intro u hu w hw
  rw [mem_epsilonClosure] at hu ⊢
  exact ⟨hu.1, hu.2.trans hw⟩

lemma silentlyClosed_step (h : g.Coherent) (c : Char) (current : List V) :
    g.SilentlyClosed (g.step c current) := by
  intro u hu w hw
  rw [mem_step h] at hu ⊢
  obtain ⟨v, hv, x, hvx, hx⟩ := hu
  exact ⟨v, hv, x, hvx, hx.trans hw⟩

theorem acceptsFrom_iff (h : g.Coherent) {current : List V} (hclosed : g.SilentlyClosed current)
    {word : List Char} :
    g.acceptsFrom current word ↔
      ∃ v ∈ current, ∃ w, g.Path v word w ∧ g.isFinal w := by
  induction word generalizing current with
  | nil =>
    rw [acceptsFrom, List.any_eq_true]
    constructor
    · rintro ⟨v, hv, hfinal⟩
      exact ⟨v, hv, v, .refl v, hfinal⟩
    · rintro ⟨v, hv, w, hw, hfinal⟩
      exact ⟨w, hclosed v hv w hw, hfinal⟩
  | cons c word ih =>
    have hstep : g.acceptsFrom (g.step c current) word ↔
        ∃ v ∈ current, ∃ w, g.Path v (c :: word) w ∧ g.isFinal w := by
      rw [ih (silentlyClosed_step h c current)]
      constructor
      · rintro ⟨u, hu, w, hw, hfinal⟩
        obtain ⟨v, hv, x, hvx, hx⟩ := (mem_step h).mp hu
        exact ⟨v, hv, w, Walk.cons hvx (hx.trans hw), hfinal⟩
      · rintro ⟨v, hv, w, hw, hfinal⟩
        obtain ⟨x, y, hx, hxy, hy⟩ := Walk.symbol_iff.mp hw
        have hxcurrent := hclosed v hv x hx
        exact ⟨y, (mem_step h).mpr ⟨x, hxcurrent, y, hxy, .refl y⟩, w, hy, hfinal⟩
    rw [acceptsFrom]
    split
    · rename_i hempty
      have hnone : ¬g.acceptsFrom (g.step c current) word := by
        rw [ih (silentlyClosed_step h c current), List.isEmpty_iff.mp hempty]
        simp
      rw [← hstep]
      simp [hnone]
    · exact hstep

/-- The simulation accepts exactly the words over which a vertex leads to acceptance. -/
theorem accepts_iff_leads (h : g.Coherent) {v : V} {word : List Char} :
    g.accepts v word ↔ g.Leads v word := by
  unfold accepts Leads
  rw [acceptsFrom_iff h (silentlyClosed_epsilonClosure v)]
  constructor
  · rintro ⟨u, hu, w, hw, hfinal⟩
    obtain ⟨hv, hvu⟩ := mem_epsilonClosure.mp hu
    exact ⟨hv, w, hvu.trans hw, hfinal⟩
  · rintro ⟨hv, w, hw, hfinal⟩
    exact ⟨v, mem_epsilonClosure.mpr ⟨hv, .refl v⟩, w, hw, hfinal⟩

lemma SameShape.reaches_iff {g' : Graph V κ} (hs : g.SameShape g') {v w : V} :
    g'.Reaches v w ↔ g.Reaches v w := by
  unfold Reaches Path
  rw [hs.arrow_eq, hs.contains_eq]

lemma SameShape.leads_iff {g' : Graph V κ} (hs : g.SameShape g') {v : V} {word : List Char} :
    g'.Leads v word ↔ g.Leads v word := by
  unfold Leads Path contains isFinal
  rw [hs.arrow_eq, hs.1, hs.2.2]

/-- No vertex has an ε edge or two edges with the same symbol. -/
structure Deterministic (g : Graph V κ) : Prop where
  no_epsilon : ∀ v w, ¬g.Arrow v .epsilon w
  unique : ∀ v c w x, g.Arrow v (.symbol c) w → g.Arrow v (.symbol c) x → w = x

lemma SameShape.deterministic {g' : Graph V κ} (hs : g.SameShape g') (h : g.Deterministic) :
    g'.Deterministic := by
  refine ⟨?_, ?_⟩
  · rw [hs.arrow_eq]
    exact h.no_epsilon
  · rw [hs.arrow_eq]
    exact h.unique

lemma eq_of_path_nil (h : ∀ v w, ¬g.Arrow v .epsilon w) {v w : V} (hw : g.Path v [] w) :
    w = v := by
  generalize hnil : [] = word at hw
  cases hw with
  | refl => rfl
  | @cons _ _ _ label _ ha _ =>
    cases label with
    | symbol c => cases hnil
    | epsilon => exact absurd ha (h _ _)

lemma path_cons_iff (h : ∀ v w, ¬g.Arrow v .epsilon w) {v w : V} {c : Char} {word : List Char} :
    g.Path v (c :: word) w ↔ ∃ u, g.Arrow v (.symbol c) u ∧ g.Path u word w := by
  rw [Path, Walk.symbol_iff]
  constructor
  · rintro ⟨x, y, hx, hxy, hy⟩
    rw [eq_of_path_nil h hx] at hxy
    exact ⟨y, hxy, hy⟩
  · rintro ⟨u, hu, hw⟩
    exact ⟨v, u, .refl v, hu, hw⟩

theorem walkAccepts_iff (h : g.Deterministic) {v : V} {word : List Char} :
    g.walkAccepts v word ↔ ∃ w, g.Path v word w ∧ g.isFinal w := by
  induction word generalizing v with
  | nil =>
    rw [walkAccepts]
    constructor
    · exact fun hv => ⟨v, .refl v, hv⟩
    · rintro ⟨w, hw, hfinal⟩
      rwa [← eq_of_path_nil h.no_epsilon hw]
  | cons c word ih =>
    rw [walkAccepts]
    split
    · rename_i target htarget
      have ha : g.Arrow v (.symbol c) target := mem_targets.mp (List.mem_of_mem_head? htarget)
      rw [ih]
      constructor
      · rintro ⟨w, hw, hfinal⟩
        exact ⟨w, (path_cons_iff h.no_epsilon).mpr ⟨target, ha, hw⟩, hfinal⟩
      · rintro ⟨w, hw, hfinal⟩
        obtain ⟨u, hu, hw⟩ := (path_cons_iff h.no_epsilon).mp hw
        rw [h.unique v c u target hu ha] at hw
        exact ⟨w, hw, hfinal⟩
    · rename_i htargets
      constructor
      · intro hfalse
        cases hfalse
      · rintro ⟨w, hw, -⟩
        obtain ⟨u, hu, -⟩ := (path_cons_iff h.no_epsilon).mp hw
        rw [List.head?_eq_none_iff] at htargets
        rw [← mem_targets, htargets] at hu
        exact absurd hu List.not_mem_nil

end RegexCompiler.Graph
