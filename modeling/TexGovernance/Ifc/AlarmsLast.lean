import TexGovernance.Ifc.FlowExact
import TexGovernance.Ifc.Laundering

/-!
# Alarms last

A run under fresh ids leaves every node and edge in place, so no continuation of a session silences
a query that has found something.
-/

namespace TexGovernance.Ifc.ProvenanceGraph
open PyStr PyDict PyRepr Pipeline GraphSearch

variable {g g' : ProvenanceGraph}

structure Kept (g g' : ProvenanceGraph) : Prop where
  nodes : ∀ id node, g.nodes.get? id = some node → g'.nodes.get? id = some node
  edges : ∀ e : Edge, e ∈ g.outs e.source → e ∈ g'.outs e.source

theorem Kept.trans {g'' : ProvenanceGraph} (h : Kept g g') (h' : Kept g' g'') : Kept g g'' :=
  ⟨fun id node hnode => h'.nodes id node (h.nodes id node hnode), fun e he => h'.edges e (h.edges e he)⟩

theorem Kept.mem_keys (h : Kept g g') {id : Str} (hid : id ∈ g.nodes.keys) : id ∈ g'.nodes.keys := by
  obtain ⟨node, hnode⟩ := Option.isSome_iff_exists.mp ((hasNode_iff id).mpr hid)
  exact (hasNode_iff id).mp (Option.isSome_iff_exists.mpr ⟨node, h.nodes id node hnode⟩)

theorem walk_mono {κ α : Type} {edge edge' : α → κ → α → Prop} (h : ∀ a k b, edge a k b → edge' a k b)
    {x z : α} {ps : List (α × κ)} (hwalk : Walk edge x ps z) : Walk edge' x ps z := by
  induction hwalk with
  | nil x => exact .nil x
  | cons hedge _ ih => exact .cons (h _ _ _ hedge) ih

theorem Kept.launders (h : Kept g g') {denial id : Str} (hfound : g.Launders denial id) : g'.Launders denial id := by
  obtain ⟨⟨node, hnode, hkind⟩, hid, path, hwalk, hcrossed⟩ := hfound
  exact ⟨⟨node, h.nodes denial node hnode, hkind⟩, h.mem_keys hid, path,
    walk_mono (fun a k b he => h.edges ⟨a, b, k⟩ he) hwalk, hcrossed⟩

end TexGovernance.Ifc.ProvenanceGraph
