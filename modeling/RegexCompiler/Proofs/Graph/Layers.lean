import Mathlib.Tactic.FieldSimp
import Mathlib.Tactic.Ring
import RegexCompiler.Graph.Layers
import RegexCompiler.Proofs.Graph.Distances
import RegexCompiler.Proofs.Graph.Layouts
import RegexCompiler.Proofs.Graph.Pruning

/-!
# Layouts are breadth-first

The search that places the vertices finds from each one those whose first successor in the order of
the search it is. They are one step farther from the anchor and get their places one layer above it,
so the layers count the edges of shortest ways.
-/

namespace RegexCompiler

variable {V : Type} [DecidableEq V]

lemma eraseDups_filter (p : V → Bool) (vs : List V) :
    (vs.filter p).eraseDups = vs.eraseDups.filter p := by
  induction hlength : vs.length using Nat.strongRecOn generalizing vs with
  | ind n ih =>
    cases vs with
    | nil => rfl
    | cons v vs =>
      have hrest := ih _ (by
        rw [← hlength, List.length_cons, Nat.lt_succ_iff]
        exact List.length_filter_le (fun u => !u == v) vs) (vs.filter fun u => !u == v) rfl
      rw [List.eraseDups_cons, List.filter_cons, List.filter_cons]
      by_cases hv : p v
      · rw [if_pos hv, if_pos hv, List.eraseDups_cons, ← hrest, List.filter_filter,
          List.filter_filter]
        simp only [Bool.and_comm]
      · rw [if_neg hv, if_neg hv, ← hrest, List.filter_filter]
        congr 1
        apply List.filter_congr
        intro u _
        by_cases huv : u = v
        · subst huv
          simpa using hv
        · simp [huv]

lemma newcomers_eq_filter (seen vs : List V) :
    newcomers seen vs = vs.eraseDups.filter (· ∉ seen) := by
  induction vs generalizing seen with
  | nil => rfl
  | cons v vs ih =>
    rw [newcomers, List.eraseDups_cons, eraseDups_filter, List.filter_cons, List.filter_filter, ih,
      ih]
    by_cases hv : v ∈ seen
    · rw [if_pos hv, if_neg (by simpa using hv)]
      apply List.filter_congr
      grind
    · rw [if_neg hv, if_pos (by simpa using hv)]
      congr 1
      apply List.filter_congr
      grind

omit [DecidableEq V] in
lemma find?_eq_some_iff_of_not_mem {before after : List V} {v : V} {p : V → Bool}
    (hv : v ∉ before) (hp : p v) :
    (before ++ v :: after).find? p = some v ↔ ∀ u ∈ before, ¬p u := by
  rw [List.find?_append, List.find?_cons_of_pos hp]
  cases hfind : before.find? p with
  | none => simpa using hfind
  | some u =>
    have hu := List.mem_of_find?_eq_some hfind
    constructor
    · intro heq
      obtain rfl : u = v := by simpa using heq
      exact absurd hu hv
    · intro hnone
      exact absurd (List.find?_some hfind) (hnone u hu)

section Search

variable {next : V → List V} {bounded : Bounded next} {queue seen : List V}

/-- From a visited vertex those successors are found that were not known before the search and that
no vertex leads to that is visited earlier. -/
lemma found_eq_filter {before after : List (V × List V)} {v : V} {found : List V}
    (hsplit : breadthFirst next bounded queue seen = before ++ (v, found) :: after) :
    found = (next v).eraseDups.filter fun w =>
      w ∉ seen ∧ ∀ u ∈ before.map Prod.fst, w ∉ next u := by
  fun_induction breadthFirst next bounded queue seen generalizing before with
  | case1 => simp at hsplit
  | case2 seen u queue newly =>
    rename_i ih
    cases before with
    | nil =>
      rw [List.nil_append, List.cons.injEq, Prod.mk.injEq] at hsplit
      obtain ⟨⟨rfl, rfl⟩, -⟩ := hsplit
      refine (newcomers_eq_filter seen (next u)).trans (List.filter_congr fun w _ => ?_)
      simp
    | cons visit before =>
      rw [List.cons_append, List.cons.injEq] at hsplit
      obtain ⟨rfl, hsplit⟩ := hsplit
      refine (ih hsplit).trans (List.filter_congr fun w _ => ?_)
      rw [decide_eq_decide, List.map_cons, List.forall_mem_cons, List.mem_append,
        mem_newcomers_iff]
      tauto

end Search

namespace Graph

section Order

variable {κ : Type} {g : Graph V κ} {anchor : V}

lemma mem_predecessors {u v : V} : u ∈ g.predecessors v ↔ u ∈ g.incoming.successors v :=
  List.mem_eraseDups

lemma found_eq_firstReached {visit : V × List V} (hvisit : visit ∈ g.incoming.discoveries anchor) :
    visit.2 = g.firstReached anchor ((g.incoming.discoveries anchor).map Prod.fst) visit.1 := by
  obtain ⟨v, found⟩ := visit
  have hnodup : ((g.incoming.discoveries anchor).map Prod.fst).Nodup := visited_nodup anchor
  obtain ⟨before, after, hsplit⟩ := List.append_of_mem hvisit
  have hfound := found_eq_filter hsplit
  rw [hsplit, List.map_append, List.map_cons] at hnodup ⊢
  have hv : v ∉ before.map Prod.fst := fun hmem =>
    (List.nodup_append.mp hnodup).2.2 v hmem v List.mem_cons_self rfl
  refine hfound.trans (List.filter_congr fun w hw => ?_)
  have hfirst : (before.map Prod.fst ++ v :: after.map Prod.fst).find? (w ∈ g.predecessors ·) =
      some v ↔ ∀ u ∈ before.map Prod.fst, ¬decide (w ∈ g.predecessors u) :=
    find?_eq_some_iff_of_not_mem hv (decide_eq_true hw)
  rw [decide_eq_decide, List.mem_singleton, hfirst]
  simp only [decide_eq_true_eq, mem_predecessors]

lemma Steps.exists_path {n : Nat} {v w : V} (h : g.Steps v n w) : ∃ word, g.Path v word w := by
  induction h with
  | refl v => exact ⟨[], .refl v⟩
  | cons ha _ ih =>
    obtain ⟨word, hword⟩ := ih
    exact ⟨_, .cons ha hword⟩

lemma exists_steps_of_path {v w : V} {word : List Char} (h : g.Path v word w) :
    ∃ n, g.Steps v n w := by
  induction h with
  | refl v => exact ⟨0, .refl v⟩
  | cons ha _ ih =>
    obtain ⟨n, hn⟩ := ih
    exact ⟨n + 1, .cons ha hn⟩

lemma Steps.congr {g' : Graph V κ} (harrow : g'.Arrow = g.Arrow) {n : Nat} {v w : V}
    (h : g.Steps v n w) : g'.Steps v n w := by
  induction h with
  | refl v => exact .refl v
  | cons ha _ ih =>
    rw [← harrow] at ha
    exact .cons ha ih

lemma SameShape.isDistance_iff {g' : Graph V κ} (hs : g.SameShape g') {n : Nat} {v w : V} :
    g'.IsDistance v n w ↔ g.IsDistance v n w := by
  have hsteps : ∀ m, g'.Steps v m w ↔ g.Steps v m w := fun m =>
    ⟨fun h => h.congr hs.arrow_eq.symm, fun h => h.congr hs.arrow_eq⟩
  unfold IsDistance
  simp only [hsteps]

namespace Coherent

variable (hg : g.Coherent)
include hg

lemma mem_successors_incoming {u v : V} :
    u ∈ g.incoming.successors v ↔ ∃ label, g.Arrow u label v := by
  rw [Adjacency.mem_successors]
  exact exists_congr fun label => (hg.mirrored u label v).symm

lemma hops_incoming {n : Nat} {v : V} :
    Hops g.incoming.successors anchor n v ↔ g.Steps v n anchor := by
  constructor
  · intro h
    induction h with
    | refl => exact .refl anchor
    | step _ hw ih =>
      obtain ⟨label, ha⟩ := hg.mem_successors_incoming.mp hw
      exact .cons ha ih
  · intro h
    induction h with
    | refl => exact .refl
    | cons ha _ ih => exact ih.step (hg.mem_successors_incoming.mpr ⟨_, ha⟩)

lemma isDepth_incoming {n : Nat} {v : V} :
    IsDepth g.incoming.successors anchor n v ↔ g.IsDistance v n anchor := by
  unfold IsDepth IsDistance
  simp only [hg.hops_incoming]

lemma exists_isDistance {v : V} (h : g.Reaches v anchor) : ∃ n, g.IsDistance v n anchor := by
  obtain ⟨-, word, hpath⟩ := h
  obtain ⟨n, hn⟩ := exists_steps_of_path hpath
  obtain ⟨d, -, hdepth⟩ := (hg.hops_incoming.mpr hn).exists_isDepth
  exact ⟨d, hg.isDepth_incoming.mp hdepth⟩

lemma mem_visited_incoming (h : g.contains anchor) {v : V} :
    v ∈ (g.incoming.discoveries anchor).map Prod.fst ↔ g.Reaches v anchor := by
  have hswap : (fun u w => w ∈ g.incoming.successors u) =
      Function.swap fun u w => w ∈ g.outgoing.successors u := by
    funext u w
    exact propext (hg.mem_successors_incoming.trans Adjacency.mem_successors.symm)
  rw [Adjacency.discoveries, mem_visited_iff, hswap, Relation.reflTransGen_swap, reaches_iff_path]
  constructor
  · rintro ⟨word, hpath⟩
    refine ⟨?_, word, hpath⟩
    cases hpath with
    | refl => exact h
    | cons ha _ => exact ha.contains_source
  · exact And.right

theorem breadthFirst_placeLayers [Coordinate κ] (anchor : V) (origin : Position κ) :
    g.BreadthFirst anchor ((g.placeLayers anchor origin).map Prod.fst) := by
  have hnodup := g.placeLayers_nodup anchor origin
  by_cases h : g.contains anchor
  · rw [keys_placeLayers h] at hnodup ⊢
    refine ⟨hnodup, fun v => hg.mem_visited_incoming h, ?_, ?_⟩
    · rw [List.pairwise_map]
      simp only [← hg.isDepth_incoming]
      exact visits_in_order_of_depth
    · have hfound : (g.incoming.discoveries anchor).flatMap Prod.snd =
          ((g.incoming.discoveries anchor).map Prod.fst).flatMap
            (g.firstReached anchor ((g.incoming.discoveries anchor).map Prod.fst)) := by
        rw [List.flatMap_map]
        exact List.flatMap_congr fun visit hvisit => found_eq_firstReached hvisit
      rw [if_pos h, ← hfound]
      exact Adjacency.map_fst_discoveries _ anchor
  · have hnone : g.placeLayers anchor origin = [] := if_neg h
    rw [hnone]
    refine ⟨List.nodup_nil, fun v => ?_, List.Pairwise.nil, ?_⟩
    · constructor
      · intro hv
        exact absurd hv List.not_mem_nil
      · intro hreach
        exact absurd (hg.contains_of_reaches hreach) h
    · rw [if_neg h]
      rfl

end Coherent

end Order

/-! ### Places -/

section Places

variable {κ : Type} [Coordinate κ]

lemma subset_foldl_placeNext (visits : List (V × List V)) (placed : List (V × Position κ)) :
    placed ⊆ visits.foldl (fun placed (v, layer) => placeNext placed v layer) placed := by
  induction visits generalizing placed with
  | nil => exact List.Subset.refl placed
  | cons visit visits ih =>
    obtain ⟨v, layer⟩ := visit
    have hnext : placed ⊆ placeNext placed v layer := by
      unfold placeNext
      split
      · exact List.subset_append_left _ _
      · exact List.Subset.refl placed
    exact List.Subset.trans hnext (ih _)

lemma exists_placeLayer_subset {next : V → List V} {bounded : Bounded next} {queue seen : List V}
    {placed : List (V × Position κ)} (h : PlacesSeen queue seen placed) {visit : V × List V}
    (hvisit : visit ∈ breadthFirst next bounded queue seen) :
    ∃ below, (visit.1, below) :: placeLayer below visit.2 ⊆
      (breadthFirst next bounded queue seen).foldl
        (fun placed (v, layer) => placeNext placed v layer) placed := by
  fun_induction breadthFirst next bounded queue seen generalizing placed with
  | case1 => exact absurd hvisit List.not_mem_nil
  | case2 seen v queue found =>
    rename_i ih
    rw [List.foldl_cons]
    rcases List.mem_cons.mp hvisit with rfl | hvisit
    · obtain ⟨below, hbelow, hnext⟩ := exists_placeNext_eq h.head found
      refine ⟨below, List.Subset.trans ?_ (subset_foldl_placeNext _ _)⟩
      change _ ⊆ placeNext placed v found
      rw [hnext, List.cons_subset]
      exact ⟨List.mem_append_left _ hbelow, List.subset_append_right _ _⟩
    · exact ih (h.visit found) hvisit

variable {g : Graph V κ} {anchor : V} {origin : Position κ}

lemma anchor_mem_placeLayers (h : g.contains anchor) (origin : Position κ) :
    (anchor, origin) ∈ g.placeLayers anchor origin := by
  rw [placeLayers, if_pos h]
  exact subset_foldl_placeNext _ _ List.mem_cons_self

lemma exists_row_subset_placeLayers (h : g.contains anchor) {visit : V × List V}
    (hvisit : visit ∈ g.incoming.discoveries anchor) (origin : Position κ) :
    ∃ below, (visit.1, below) :: placeLayer below visit.2 ⊆ g.placeLayers anchor origin := by
  rw [placeLayers, if_pos h]
  exact exists_placeLayer_subset (.initial anchor origin) hvisit

lemma Coherent.position_assignLayout (hg : g.Coherent) {v : V} {place : Position κ}
    (hmem : (v, place) ∈ g.places anchor origin) :
    (g.assignLayout anchor origin).position v = some place := by
  unfold position
  rw [hg.layout_assignLayout]
  exact lookup_eq_some_of_mem (hg.places_nodup anchor origin) hmem

open Classical in
lemma Coherent.stragglers_eq (hg : g.Coherent) (anchor : V) (origin : Position κ) :
    (g.vertices.filter fun v => ((g.placeLayers anchor origin).lookup v).isNone) =
      g.vertices.filter fun v => ¬g.Reaches v anchor := by
  refine List.filter_congr fun v _ => ?_
  rw [Bool.eq_iff_iff, lookup_isNone_iff, (hg.breadthFirst_placeLayers anchor origin).mem_iff,
    decide_eq_true_iff]

end Places

/-! ### Places in exact numbers -/

section Exact

omit [DecidableEq V] in
lemma mem_placeLayer {below : Position Rat} {layer : List V} {i : Nat} {v : V}
    (hi : layer[i]? = some v) :
    (v, ⟨if layer.length = 1 then below.x
        else below.x - 150 + 300 / (layer.length - 1 : Nat) * i, below.y - 150⟩) ∈
      placeLayer below layer := by
  unfold placeLayer
  rw [List.mem_map]
  refine ⟨(v, i), List.mk_mem_zipIdx_iff_getElem?.mpr hi, ?_⟩
  have hgap : (layerGap : Rat) = 150 := rfl
  have hspread : (spread : Rat) = 300 := rfl
  have hofNat : ∀ n : Nat, (Coordinate.ofNat n : Rat) = n := fun _ => rfl
  simp only [hgap, hspread, hofNat]
  congr 2
  split
  · rfl
  · ring

variable {g : Graph V Rat} {anchor : V} {origin : Position Rat}

lemma exists_mem_placeLayers (h : g.contains anchor) {n : Nat} {v : V}
    (hdepth : IsDepth g.incoming.successors anchor n v)
    (hv : v ∈ (g.incoming.discoveries anchor).map Prod.fst) (origin : Position Rat) :
    ∃ x, (v, ⟨x, origin.y - 150 * n⟩) ∈ g.placeLayers anchor origin := by
  induction n generalizing v with
  | zero =>
    obtain rfl := hdepth.eq_origin
    have hanchor := anchor_mem_placeLayers h origin
    exact ⟨origin.x, by simpa using hanchor⟩
  | succ n ih =>
    rw [Adjacency.map_fst_discoveries] at hv
    rcases List.mem_cons.mp hv with rfl | hv
    · exact absurd (hdepth.unique isDepth_origin) (Nat.succ_ne_zero n)
    · obtain ⟨visit, hvisit, hmem⟩ := List.mem_flatMap.mp hv
      obtain ⟨d, hbefore, hfound⟩ := exists_depth_of_visit hvisit
      obtain rfl : d = n := Nat.succ.inj ((hfound v hmem).unique hdepth)
      obtain ⟨x, hx⟩ := ih hbefore (List.mem_map_of_mem hvisit)
      obtain ⟨below, hsubset⟩ := exists_row_subset_placeLayers h hvisit origin
      rw [List.cons_subset] at hsubset
      obtain rfl : below = ⟨x, origin.y - 150 * d⟩ := by
        have hnodup := g.placeLayers_nodup anchor origin
        have hbelow := lookup_eq_some_of_mem hnodup hsubset.1
        rwa [lookup_eq_some_of_mem hnodup hx, Option.some.injEq, eq_comm] at hbelow
      obtain ⟨i, hi⟩ := List.mem_iff_getElem?.mp hmem
      have hplace := hsubset.2 (mem_placeLayer hi)
      have hheight : origin.y - 150 * (d + 1 : Nat) = origin.y - 150 * d - 150 := by
        push_cast
        ring
      rw [hheight]
      exact ⟨_, hplace⟩

lemma mem_placeStragglers {placed : List (V × Position Rat)} {k : Nat} {v : V}
    (hk : (g.vertices.filter fun v => (placed.lookup v).isNone)[k]? = some v) :
    (v, ⟨origin.x + 300 * k, origin.y + 150⟩) ∈ g.placeStragglers placed origin :=
  List.mem_map.mpr ⟨(v, k), List.mk_mem_zipIdx_iff_getElem?.mpr hk, rfl⟩

lemma Coherent.inRow (hg : g.Coherent) {below : Position Rat} {row : List V}
    (hsubset : placeLayer below row ⊆ g.places anchor origin) :
    (g.assignLayout anchor origin).InRow row below where
  single v hrow := by
    subst hrow
    have hplace := hsubset (mem_placeLayer (i := 0) rfl)
    rw [List.length_singleton, if_pos rfl] at hplace
    exact hg.position_assignLayout hplace
  several hrow := by
    refine ⟨300 / (row.length - 1 : Nat), ?_, fun i v hi => ?_⟩
    · have hpos : ((row.length - 1 : Nat) : Rat) ≠ 0 := by
        rw [Nat.cast_ne_zero]
        omega
      rw [← Nat.cast_pred (by omega)]
      field_simp
    · have hplace := hsubset (mem_placeLayer hi)
      rw [if_neg (by omega)] at hplace
      exact hg.position_assignLayout hplace

theorem Coherent.laidOut (hg : g.Coherent) (anchor : V) (origin : Position Rat) :
    g.LaidOut (g.assignLayout anchor origin) anchor origin where
  outgoing := (sameShape_assignLayout anchor origin).1
  incoming := (sameShape_assignLayout anchor origin).2.1
  finals := (sameShape_assignLayout anchor origin).2.2
  placed_once := by
    rw [hg.layout_assignLayout]
    exact hg.places_nodup anchor origin
  placed_iff v := by
    rw [hg.layout_assignLayout]
    exact hg.mem_places
  anchored h :=
    hg.position_assignLayout (List.mem_append_left _ (anchor_mem_placeLayers h origin))
  above v n hv hn := by
    have hreach : g.Reaches v anchor := ⟨hv, hn.1.exists_path⟩
    have hanchor := hg.contains_of_reaches hreach
    obtain ⟨x, hx⟩ := exists_mem_placeLayers hanchor (hg.isDepth_incoming.mpr hn)
      ((hg.mem_visited_incoming hanchor).mpr hreach) origin
    exact ⟨x, hg.position_assignLayout (List.mem_append_left _ hx)⟩
  rows := by
    refine ⟨(g.placeLayers anchor origin).map Prod.fst,
      hg.breadthFirst_placeLayers anchor origin, ?_, fun v hv => ?_⟩
    · rw [hg.layout_assignLayout, places, List.map_append, keys_placeStragglers,
        hg.stragglers_eq]
    · have hanchor := hg.contains_of_reaches
        (((hg.breadthFirst_placeLayers anchor origin).mem_iff v).mp hv)
      rw [keys_placeLayers hanchor] at hv ⊢
      obtain ⟨visit, hvisit, rfl⟩ := List.mem_map.mp hv
      obtain ⟨below, hsubset⟩ := exists_row_subset_placeLayers hanchor hvisit origin
      rw [List.cons_subset] at hsubset
      rw [← found_eq_firstReached hvisit]
      refine ⟨below, hg.position_assignLayout (List.mem_append_left _ hsubset.1), hg.inRow ?_⟩
      exact List.Subset.trans hsubset.2 (List.subset_append_left _ _)
  below k v hk := by
    rw [← hg.stragglers_eq anchor origin] at hk
    exact hg.position_assignLayout (List.mem_append_right _ (mem_placeStragglers hk))

end Exact

end Graph

end RegexCompiler
