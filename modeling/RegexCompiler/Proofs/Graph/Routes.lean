import RegexCompiler.Proofs.Graph.Runs

/-!
# Runs follow routes

A path can be told edge by edge. So the simulation, which only keeps the vertices that a run can
have reached, accepts a word exactly if the edges of some route to an accepting vertex spell it.
-/

namespace RegexCompiler.Graph

variable {V κ : Type} [DecidableEq V] {g : Graph V κ}

omit [DecidableEq V] in
lemma spelled_cons (edge : Edge V) (route : List (Edge V)) :
    spelled (edge :: route) = edge.label.word ++ spelled route := by
  unfold spelled
  cases hlabel : edge.label with
  | symbol c => simp [hlabel, Label.symbol?, Label.word]
  | epsilon => simp [hlabel, Label.symbol?, Label.word]

lemma Coherent.route_of_path (h : g.Coherent) {v w : V} {word : List Char}
    (hw : g.Path v word w) : ∃ route, g.Route v route w ∧ spelled route = word := by
  induction hw with
  | refl v => exact ⟨[], rfl, rfl⟩
  | @cons u v w label word ha _ ih =>
    obtain ⟨route, hroute, rfl⟩ := ih
    have hedge : (⟨u, v, label⟩ : Edge V) ∈ g.edges := h.mem_edges.mpr ha
    exact ⟨⟨u, v, label⟩ :: route, ⟨hedge, rfl, hroute⟩, spelled_cons _ _⟩

lemma Coherent.path_of_route (h : g.Coherent) {v w : V} {route : List (Edge V)}
    (hroute : g.Route v route w) : g.Path v (spelled route) w := by
  induction route generalizing v with
  | nil =>
    obtain rfl : v = w := hroute
    exact .refl v
  | cons edge route ih =>
    obtain ⟨hedge, rfl, hrest⟩ := hroute
    rw [spelled_cons]
    exact .cons (h.mem_edges.mp hedge) (ih hrest)

lemma Coherent.path_iff_route (h : g.Coherent) {v w : V} {word : List Char} :
    g.Path v word w ↔ ∃ route, g.Route v route w ∧ spelled route = word := by
  constructor
  · exact h.route_of_path
  · rintro ⟨route, hroute, rfl⟩
    exact h.path_of_route hroute

/-- Whatever graph operations have built, the simulation accepts a word from a vertex of the graph
if and only if some route from there to an accepting vertex spells the word, however many ε edges it
takes on the way; from anywhere else it accepts nothing. -/
theorem accepts_iff_exists_route [Coordinate κ] (operations : List (Operation V κ)) (v : V)
    (word : List Char) :
    let g := ofOperations operations
    g.accepts v word ↔
      g.contains v ∧ ∃ route w, g.Route v route w ∧ spelled route = word ∧ g.isFinal w := by
  intro g
  have h : g.Coherent := coherent_ofOperations operations
  rw [accepts_iff_leads h, Leads]
  simp only [h.path_iff_route]
  constructor
  · rintro ⟨hv, w, ⟨route, hroute, hword⟩, hfinal⟩
    exact ⟨hv, route, w, hroute, hword, hfinal⟩
  · rintro ⟨hv, route, w, hroute, hword, hfinal⟩
    exact ⟨hv, w, ⟨route, hroute, hword⟩, hfinal⟩

end RegexCompiler.Graph
