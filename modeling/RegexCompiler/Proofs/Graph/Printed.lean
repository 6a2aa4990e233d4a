import RegexCompiler.Proofs.Graph.Canonical
import RegexCompiler.Proofs.Json

/-!
# What printed exports tell

The JSON text of a snapshot and the plain listing of an automaton can both be read back: they tell
the names of the vertices, of the accepting vertices and of the ends of every edge, and how the
label of every edge is written. They tell no more of a label than that.
-/

namespace RegexCompiler

open Text

/-! ### Snapshots as JSON -/

/-- What exports print of an edge: the names of its ends and the text of its label. -/
def SnapshotEdge.printed (edge : SnapshotEdge) : String × String × String :=
  (edge.source, edge.target, edge.label.text)

namespace Snapshot

/-- The snapshots print the same vertices, edges and accepting vertices. -/
structure PrintedAlike {κ : Type} (s t : Snapshot κ) : Prop where
  vertices : s.vertices = t.vertices
  edges : s.edges.map SnapshotEdge.printed = t.edges.map SnapshotEdge.printed
  finals : s.finals = t.finals

def printedJson (edge : String × String × String) : Json :=
  .record [("source", .text edge.1), ("target", .text edge.2.1), ("label", .text edge.2.2)]

lemma toList_printedJson (edge : String × String × String) : (printedJson edge).compact.toList =
    "\x7b\"source\":".toList ++ ((Json.quoted edge.1).toList ++
      (",\"target\":".toList ++ ((Json.quoted edge.2.1).toList ++
        (",\"label\":".toList ++ ((Json.quoted edge.2.2).toList ++ ['\x7d']))))) := by
  have hsource : Json.quoted "source" = "\"source\"" := by decide
  have htarget : Json.quoted "target" = "\"target\"" := by decide
  have hlabel : Json.quoted "label" = "\"label\"" := by decide
  simp [printedJson, Json.compact, Json.compactFields, hsource, htarget, hlabel]

lemma printedJson_delimited :
    Delimited (fun edge => (printedJson edge).compact.toList) fun _ => True := by
  intro a b s t _ _ heq
  simp only [toList_printedJson, List.append_assoc] at heq
  obtain ⟨hsource, heq⟩ := Json.quoted_append_inj (List.append_cancel_left heq)
  obtain ⟨htarget, heq⟩ := Json.quoted_append_inj (List.append_cancel_left heq)
  obtain ⟨hlabel, heq⟩ := Json.quoted_append_inj (List.append_cancel_left heq)
  exact ⟨Prod.ext hsource (Prod.ext htarget hlabel), List.append_cancel_left heq⟩

def namesText (names : List String) : List Char :=
  (Json.list (names.map .text)).compact.toList

def edgesText (edges : List (String × String × String)) : List Char :=
  (Json.list (edges.map printedJson)).compact.toList

lemma namesText_delimited : Delimited namesText fun _ => True := by
  apply Json.list_delimited
  · simpa only [Json.compact] using Json.quoted_delimited
  · intro name s
    simp [Json.compact, Json.quoted]

lemma edgesText_delimited : Delimited edgesText fun _ => True := by
  apply Json.list_delimited printedJson_delimited
  intro edge s
  simp [toList_printedJson]

lemma map_edgeJson (edges : List SnapshotEdge) :
    edges.map edgeJson = (edges.map SnapshotEdge.printed).map printedJson := by
  rw [List.map_map]
  rfl

lemma exists_rest_of_toJson (s : Snapshot Float) : ∃ rest, s.toJson.compact.toList =
    "\x7b\"vertices\":".toList ++ (namesText s.vertices ++
      (",\"edges\":".toList ++ (edgesText (s.edges.map SnapshotEdge.printed) ++
        (",\"finals\":".toList ++ (namesText s.finals ++ rest))))) := by
  have hvertices : Json.quoted "vertices" = "\"vertices\"" := by decide
  have hedges : Json.quoted "edges" = "\"edges\"" := by decide
  have hfinals : Json.quoted "finals" = "\"finals\"" := by decide
  unfold toJson namesText edgesText
  rw [map_edgeJson]
  dsimp only
  split <;>
    simp [Json.compact, Json.compactFields, hvertices, hedges, hfinals]

lemma PrintedAlike.toJson_eq {s t : Snapshot Float} (h : s.PrintedAlike t)
    (hlayout : s.layout = t.layout) : s.toJson = t.toJson := by
  unfold toJson
  rw [map_edgeJson, map_edgeJson, h.vertices, h.edges, h.finals, hlayout]

/-- The JSON text of a snapshot can be read back up to the texts of the labels. -/
theorem printedAlike_of_compact_eq {s t : Snapshot Float}
    (h : s.toJson.compact = t.toJson.compact) : s.PrintedAlike t := by
  obtain ⟨rest, hs⟩ := exists_rest_of_toJson s
  obtain ⟨rest', ht⟩ := exists_rest_of_toJson t
  rw [h, ht] at hs
  obtain ⟨hvertices, heq⟩ := namesText_delimited trivial trivial (List.append_cancel_left hs)
  obtain ⟨hedges, heq⟩ := edgesText_delimited trivial trivial (List.append_cancel_left heq)
  obtain ⟨hfinals, -⟩ := namesText_delimited trivial trivial (List.append_cancel_left heq)
  exact ⟨hvertices.symm, hedges.symm, hfinals.symm⟩

theorem printedAlike_of_pretty_eq {s t : Snapshot Float}
    (h : s.toJson.pretty = t.toJson.pretty) : s.PrintedAlike t := by
  apply printedAlike_of_compact_eq
  rw [← String.toList_inj, ← Json.unspaced_pretty, ← Json.unspaced_pretty, h]

end Snapshot

/-! ### Plain listings -/

/-- The character that a label is written as. -/
def Label.mark : Label → Char
  | symbol c => c
  | epsilon => 'ε'

lemma Label.text_eq (label : Label) : label.text = label.mark.toString := by
  cases label <;> rfl

namespace Graph

/-- How an edge is written behind its source. -/
def edgeText (edge : Char × State) : List Char :=
  [edge.1, ' ', '→', ' '] ++ edge.2.name.toList

/-- How a vertex is written with its edges. -/
def lineText (line : State × List (Char × State)) : List Char :=
  line.1.name.toList ++ ([':', ' '] ++ separated edgeText [',', ' '] ['∅'] line.2 ++ ['\n'])

lemma edgeText_delimited : Delimited edgeText (Leaves Char.isAlphanum) := by
  rintro ⟨c, v⟩ ⟨d, w⟩ s t hs ht heq
  simp only [edgeText, List.cons_append, List.nil_append, List.cons.injEq, true_and] at heq
  obtain ⟨hv, hst⟩ := State.name_delimited hs ht heq.2
  exact ⟨Prod.ext heq.1 hv, hst⟩

lemma edgeTexts_delimited :
    Delimited (separated edgeText [',', ' '] ['∅']) (·.head? = some '\n') := by
  apply edgeText_delimited.separated
  · simp
  · intro s hs
    exact leaves_of_head hs (by decide)
  · simp
  · -- behind the character of a label stands a space, and behind the mark of emptiness none
    rintro ⟨c, w⟩ s t ht heq
    simp only [edgeText, List.cons_append, List.nil_append, List.cons.injEq] at heq
    rw [← heq.2] at ht
    cases ht

lemma lineText_delimited : Delimited lineText fun _ => True := by
  have hedges := edgeTexts_delimited.between [':', ' '] ['\n'] (fun s (_ : True) => rfl)
  apply State.name_delimited.append hedges
  simp

lemma lineText_ne_accept (line : State × List (Char × State)) (s : List Char) :
    (lineText line ++ s).takeWhile Char.isAlphanum ≠ "accept".toList := by
  rw [lineText, List.append_assoc, takeWhile_append_of_leaves line.1.isAlphanum_of_mem_name
    (by simp)]
  intro hname
  cases hv : line.1 with
  | start => simp [hv, State.name] at hname
  | fresh n =>
    rw [hv, State.name] at hname
    exact @State.toString_ne "accept" 'a' (by decide) (by decide) n (String.toList_inj.mp hname)
  | final => simp [hv, State.name] at hname

variable {g g' : Graph State Float}

/-- What a plain listing tells of the vertices and their edges. -/
def lines (g : Graph State Float) : List (State × List (Char × State)) :=
  (sorted g.vertices).map fun v => (v, (g.sortedEdges v).map fun (label, w) => (label.mark, w))

lemma toList_listed {α : Type} (name : α → String) (values : List α) :
    (listed .plain (values.map name)).toList =
      separated (fun a => (name a).toList) [',', ' '] ['∅'] values := by
  cases values with
  | nil => simp [listed, paint, Palette.plain, separated]
  | cons a values =>
    have hwritten := intercalate_map (fun a => (name a).toList) [',', ' '] (a :: values)
    simp only [separated] at hwritten ⊢
    rw [← hwritten, listed, if_neg (by simp), String.toList_intercalate, List.map_map]
    rfl

lemma toList_listedEdge (edge : Label × State) :
    (listedEdge .plain edge).toList = edgeText (edge.1.mark, edge.2) := by
  obtain ⟨label, v⟩ := edge
  cases label <;> simp [listedEdge, listedLabel, paint, Palette.plain, edgeText, Label.mark] <;> rfl

lemma toList_listedVertex (v : State) : (listedVertex .plain false g v).toList =
    lineText (v, (g.sortedEdges v).map fun (label, w) => (label.mark, w)) := by
  have hedges : (listed .plain ((g.sortedEdges v).map (listedEdge .plain))).toList =
      separated edgeText [',', ' '] ['∅']
        ((g.sortedEdges v).map fun (label, w) => (label.mark, w)) := by
    rw [toList_listed, separated_map]
    simp only [toList_listedEdge]
  simp only [listedVertex, String.toList_append, hedges, lineText]
  simp [paint, Palette.plain, Named.name]

lemma toList_listing : (g.listing .plain false).toList =
    g.lines.flatMap lineText ++ ("accept: ".toList ++
      (separated (fun v : State => v.name.toList) [',', ' '] ['∅'] (sorted g.finals) ++
        ['\n'])) := by
  have hfinals : (listed .plain ((sorted g.finals).map fun v =>
      paint .plain Palette.plain.accept (Named.name v))).toList =
        separated (fun v : State => v.name.toList) [',', ' '] ['∅'] (sorted g.finals) := by
    rw [toList_listed]
    simp [paint, Palette.plain, Named.name]
  simp only [listing, String.toList_append, String.toList_join, hfinals, lines, List.flatMap_def,
    List.map_map, Function.comp_def, toList_listedVertex, List.append_assoc]
  rfl

lemma takeWhile_accept (s : List Char) :
    ("accept: ".toList ++ s).takeWhile Char.isAlphanum = "accept".toList := by
  have hsplit : "accept: ".toList = "accept".toList ++ [':', ' '] := rfl
  rw [hsplit, List.append_assoc,
    takeWhile_append_of_leaves (List.all_eq_true.mp (by decide)) (by simp)]

lemma vertices_snapshot_eq : g.snapshot.vertices = g.lines.map fun line => line.1.name := by
  simp only [snapshot, lines, List.map_map]
  rfl

lemma printed_edges_snapshot_eq : g.snapshot.edges.map SnapshotEdge.printed =
    g.lines.flatMap fun line =>
      line.2.map fun edge => (line.1.name, edge.2.name, edge.1.toString) := by
  simp only [snapshot, lines, List.map_flatMap, List.flatMap_map, List.map_map]
  congr 1
  funext v
  apply List.map_congr_left
  rintro ⟨label, w⟩ _
  simp [SnapshotEdge.printed, Label.text_eq, Named.name]

lemma printedAlike_of_lines_eq (hlines : g.lines = g'.lines)
    (hfinals : sorted g.finals = sorted g'.finals) : g.snapshot.PrintedAlike g'.snapshot where
  vertices := by rw [vertices_snapshot_eq, vertices_snapshot_eq, hlines]
  edges := by rw [printed_edges_snapshot_eq, printed_edges_snapshot_eq, hlines]
  finals := by rw [snapshot, snapshot, hfinals]

/-- The plain listing of an automaton can be read back up to the texts of the labels. -/
theorem printedAlike_of_listing_eq (h : g.listing .plain false = g'.listing .plain false) :
    g.snapshot.PrintedAlike g'.snapshot := by
  have hlines : Delimited (List.flatMap lineText) fun s =>
      s.takeWhile Char.isAlphanum = "accept".toList :=
    lineText_delimited.flatMap (fun _ _ => trivial) (fun _ _ => trivial) lineText_ne_accept
  have hnames : Delimited (separated (fun v : State => v.name.toList) [',', ' '] ['∅'])
      (·.head? = some '\n') :=
    State.names_delimited (leaves_cons.mpr (by decide)) (by decide) (by decide)
  have hwritten := congrArg String.toList h
  rw [toList_listing, toList_listing] at hwritten
  obtain ⟨hlines, haccept⟩ := hlines (takeWhile_accept _) (takeWhile_accept _) hwritten
  obtain ⟨hfinals, -⟩ := hnames rfl rfl (List.append_cancel_left haccept)
  exact printedAlike_of_lines_eq hlines hfinals

end Graph

end RegexCompiler
