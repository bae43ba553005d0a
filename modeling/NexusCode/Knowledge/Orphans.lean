/-
  Edges of the knowledge graph that lead nowhere, and their repair.

  1. `orphanEdges` — the rows that `check` selects.  `AND` binds stronger than `OR`, so that an edge
     whose target has no live node is selected whatever its own state is.
  2. `deleteOrphanEdges` — the first step of `repair`: what a report lists is deleted by key.
  3. **`orphans_exact_iff`** — the report lists the live edges with a dead end, and the repair keeps
     every superseded edge, exactly if every superseded edge leads to a live node.
  4. **`history_deleted`** — otherwise a superseded edge is reported and deleted.
-/
import NexusCode.Knowledge.Store

namespace NexusCode.Knowledge

open Lib List

namespace Tables

/-- `EXISTS (SELECT 1 FROM zlcts_graph_nodes n WHERE n.node_id = ? AND n.superseded_by IS NULL)`. -/
def liveNode (s : Tables) (id : String) : Bool :=
  s.nodes.entries.any fun e => e.1.1 == id && e.2.superseded_by.isNone

/-- The condition of the query: `superseded_by IS NULL AND NOT EXISTS (..) OR NOT EXISTS (..)`. -/
def selectsEdge (s : Tables) (edge : EdgeRow) : Bool :=
  (edge.superseded_by.isNone && !s.liveNode edge.from_node) || !s.liveNode edge.to_node

/-- `orphanEdges` of `check()`. -/
def orphanEdges (s : Tables) : List GraphEdge :=
  (s.edges.entries.filter fun e => s.selectsEdge e.2).map fun e => deserializeEdge e.1 e.2

/-- `DELETE FROM zlcts_graph_edges WHERE edge_id = ? AND version = ?`. -/
def deleteEdge (s : Tables) (edge : GraphEdge) : Tables :=
  { s with edges := s.edges.delete (edge.edgeId, edge.version) }

/-- Step 1 of `repair(report)`. -/
def deleteOrphanEdges (report : List GraphEdge) (s : Tables) : Tables := report.foldl deleteEdge s

/-! ## What is meant -/

/-- The edge is live, and one of its ends has no live node. -/
def Orphan (s : Tables) (edge : EdgeRow) : Prop :=
  edge.superseded_by = none ∧ (s.liveNode edge.from_node = false ∨ s.liveNode edge.to_node = false)

instance (s : Tables) (edge : EdgeRow) : Decidable (s.Orphan edge) :=
  inferInstanceAs (Decidable (_ ∧ _))

/-- The edges a report should list, in the order of their rows. -/
def orphans (s : Tables) : List GraphEdge :=
  (s.edges.entries.filter fun e => s.Orphan e.2).map fun e => deserializeEdge e.1 e.2

/-- The superseded edges of some tables are among those of others. -/
def KeepsHistory (s s' : Tables) : Prop :=
  ∀ e ∈ s.edges.entries, e.2.superseded_by ≠ none → e ∈ s'.edges.entries

/-- Every superseded edge leads to a live node. -/
def HistoryLeadsOn (s : Tables) : Prop :=
  ∀ e ∈ s.edges.entries, e.2.superseded_by ≠ none → s.liveNode e.2.to_node = true

/-! ## The repair -/

/-- The key of an edge. -/
def keyOf (edge : GraphEdge) : String × Rat := (edge.edgeId, edge.version)

/-- The edges that a repair leaves: the ones whose keys are not reported. -/
theorem entries_deleteOrphanEdges (report : List GraphEdge) (s : Tables) :
    (s.deleteOrphanEdges report).edges.entries =
      s.edges.entries.filter fun e => e.1 ∉ report.map keyOf := by
  induction report generalizing s with
  | nil => exact (filter_eq_self.mpr fun _ _ => decide_eq_true not_mem_nil).symm
  | cons edge report ih =>
    have hstep : (s.deleteOrphanEdges (edge :: report)).edges.entries =
      ((s.deleteEdge edge).deleteOrphanEdges report).edges.entries := rfl
    have hedges : (s.deleteEdge edge).edges.entries =
      s.edges.entries.filter fun e => e.1 ≠ keyOf edge := rfl
    rw [hstep, ih, hedges, filter_filter]
    refine filter_congr fun e _ => ?_
    rw [map_cons, ← Bool.decide_and]
    refine decide_eq_decide.mpr ?_
    rw [mem_cons, not_or, and_comm]

theorem mem_repaired_iff {s : Tables} {e : (String × Rat) × EdgeRow} (he : e ∈ s.edges.entries) :
    e ∈ (s.deleteOrphanEdges s.orphanEdges).edges.entries ↔ s.selectsEdge e.2 = false := by
  rw [entries_deleteOrphanEdges, mem_filter, decide_eq_true_eq, and_iff_right he]
  have hkey : e.1 ∈ s.orphanEdges.map keyOf ↔ s.selectsEdge e.2 = true := by
    unfold orphanEdges
    rw [map_map]
    constructor
    · intro h
      obtain ⟨e', he', hsame⟩ := mem_map.mp h
      obtain ⟨hmem, hselected⟩ := mem_filter.mp he'
      -- rows with the same primary key are the same row
      have heq : e' = e := inj_on_of_nodup_map s.edges.nodup hmem he hsame
      rwa [heq] at hselected
    · intro h
      exact mem_map.mpr ⟨e, mem_filter.mpr ⟨he, h⟩, rfl⟩
  rw [hkey, Bool.not_eq_true]

/-! ## Exactness -/

theorem selectsEdge_live {s : Tables} {edge : EdgeRow} (h : edge.superseded_by = none) :
    s.selectsEdge edge = true ↔ s.Orphan edge := by
  unfold selectsEdge Orphan
  rw [h]
  simp

/-- A superseded edge is selected exactly if it leads to no live node. -/
theorem selectsEdge_superseded {s : Tables} {edge : EdgeRow} (h : edge.superseded_by ≠ none) :
    s.selectsEdge edge = true ↔ s.liveNode edge.to_node = false := by
  have hsome : edge.superseded_by.isNone = false := by
    cases hby : edge.superseded_by with
    | none => exact absurd hby h
    | some _ => rfl
  unfold selectsEdge
  rw [hsome]
  simp

/-- **The report is exact and the repair keeps history** exactly if every superseded edge leads to a
    live node. -/
theorem orphans_exact_iff (s : Tables) :
    s.orphanEdges = s.orphans ∧ s.KeepsHistory (s.deleteOrphanEdges s.orphanEdges) ↔
      s.HistoryLeadsOn := by
  constructor
  · rintro ⟨-, hkeeps⟩ e he hsuperseded
    have hselected := (mem_repaired_iff he).mp (hkeeps e he hsuperseded)
    rw [← Bool.not_eq_true, selectsEdge_superseded hsuperseded, Bool.not_eq_false] at hselected
    exact hselected
  · intro hleads
    have hnot : ∀ e ∈ s.edges.entries, e.2.superseded_by ≠ none → s.selectsEdge e.2 = false := by
      intro e he hsuperseded
      rw [← Bool.not_eq_true, selectsEdge_superseded hsuperseded, hleads e he hsuperseded]
      exact Bool.noConfusion
    refine ⟨?_, fun e he hsuperseded => (mem_repaired_iff he).mpr (hnot e he hsuperseded)⟩
    unfold orphanEdges orphans
    congr 1
    refine filter_congr fun e he => Bool.eq_iff_iff.mpr ?_
    rw [decide_eq_true_eq]
    by_cases hlive : e.2.superseded_by = none
    · exact selectsEdge_live hlive
    · rw [hnot e he hlive]
      exact iff_of_false Bool.false_ne_true fun h => hlive h.1

/-- A superseded edge to a node that was never put. -/
def supersededEdge : Tables where
  items := .empty
  nodes := (JsMap.empty : JsMap (String × Rat) NodeRow).set ("a", 1) {
    type := .file, label := some "a", attrs_json := none, item_refs_json := none, created_at := 0
    superseded_by := none, coverage := some .full }
  edges := (JsMap.empty : JsMap (String × Rat) EdgeRow).set ("e", 1) {
    from_node := "a", to_node := "b", kind := .imports, w := none, confidence := none
    verified := true, created_at := 0, superseded_by := some "f" }

/-- **A superseded edge is reported as an orphan and deleted.** -/
theorem history_deleted : supersededEdge.orphanEdges ≠ supersededEdge.orphans ∧
    ¬ supersededEdge.KeepsHistory (supersededEdge.deleteOrphanEdges supersededEdge.orphanEdges) := by
  constructor
  · decide +kernel
  · unfold KeepsHistory
    decide +kernel

end Tables

end NexusCode.Knowledge
