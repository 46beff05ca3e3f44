import TexGovernance.Ifc.GraphInvariant
import TexGovernance.Lib.FlaggedSearch

/-!
# Causality laundering

The searches for a denied action behind a counterfactual edge, the label of a node's ancestors,
and the edges that a denial gets: one, to the next call that links automatically, and those that
are added by hand.
-/

namespace TexGovernance.Ifc
open PyStr PyDict PyJson GraphSearch

def CapacityType.max (a b : CapacityType) : CapacityType := if a.toNat < b.toNat then b else a

def IfcLabel.join (a b : IfcLabel) : IfcLabel where
  integrity := .join [a.integrity, b.integrity]
  confidentiality := .join [a.confidentiality, b.confidentiality]
  capacity := a.capacity.max b.capacity

def IfcLabel.trusted : IfcLabel := ⟨.sysInstr, .public_, .bool⟩

namespace ProvenanceGraph

section Queries

variable (g : ProvenanceGraph)

def effectiveLabel (id : Str) : IfcLabel :=
  match g.ancestorLabels id with
  | [] => .trusted
  | label :: rest => rest.foldl IfcLabel.join label

def crossedParents (state : Str × Bool) : List (Str × Bool) :=
  (g.ins state.1).map fun edge => (edge.source, state.2 || edge.kind = .counterfactual)

/-- The loop of `has_counterfactual_chain`; the top of the stack is its head. -/
def chainLoop : ℕ → List (Str × Bool) → List (Str × Bool) → Except IfcError Bool
  | 0, _, _ => .error (.python .other)
  | _ + 1, [], _ => .ok false
  | fuel + 1, current :: rest, visited =>
    if current ∈ visited then chainLoop fuel rest visited
    else
      match g.nodes.get? current.1 with
      | none => .error (.keyError current.1)
      | some node =>
        if current.2 ∧ node.kind = .deniedAction then .ok true
        else chainLoop fuel ((g.crossedParents current).reverse ++ rest) (visited ++ [current])

/-- The loop of `counterfactual_denials`, which goes on after a denial. -/
def denialsLoop : ℕ → List (Str × Bool) → List (Str × Bool) → List Str → Except IfcError (List Str)
  | 0, _, _, _ => .error (.python .other)
  | _ + 1, [], _, results => .ok results
  | fuel + 1, current :: rest, visited, results =>
    if current ∈ visited then denialsLoop fuel rest visited results
    else
      match g.nodes.get? current.1 with
      | none => .error (.keyError current.1)
      | some node =>
        let results :=
          if current.2 ∧ node.kind = .deniedAction ∧ current.1 ∉ results then results ++ [current.1] else results
        denialsLoop fuel ((g.crossedParents current).reverse ++ rest) (visited ++ [current]) results

def crossedFuel : ℕ := 2 * (g.nodes.keys.map fun id => (g.ins id).length).sum + 2

def hasCounterfactualChain (id : Str) : Except IfcError Bool :=
  if g.hasNode id then g.chainLoop g.crossedFuel [(id, false)] [] else .ok false

def counterfactualDenials (id : Str) : Except IfcError (List Str) :=
  if g.hasNode id then (g.denialsLoop g.crossedFuel [(id, false)] [] []).map sortedNames else .ok []

def IsDenied (id : Str) : Prop := ∃ node, g.nodes.get? id = some node ∧ node.kind = .deniedAction

/-- The node leads to `id` by edges of which one is counterfactual. -/
def CrossedPath (source id : Str) : Prop :=
  ∃ path, Walk (fun a kind b => ⟨a, b, kind⟩ ∈ g.outs a) source path id ∧ ∃ hop ∈ path, hop.2 = .counterfactual

def Launders (denial id : Str) : Prop := g.IsDenied denial ∧ id ∈ g.nodes.keys ∧ g.CrossedPath denial id

end Queries

variable {g : ProvenanceGraph}

def Caught (g : ProvenanceGraph) (state : Str × Bool) : Prop := state.2 = true ∧ g.IsDenied state.1

theorem chainLoop_closure {fuel : ℕ} {stack visited result : List (Str × Bool)}
    (h : closure g.crossedParents fuel stack visited = some result) (hnodes : ∀ x ∈ result, x.1 ∈ g.nodes.keys)
    (hquiet : ∀ x ∈ visited, ¬ g.Caught x) :
    ∃ found, g.chainLoop fuel stack visited = .ok found ∧ (found = true ↔ ∃ x ∈ result, g.Caught x) := by
  induction fuel generalizing stack visited with
  | zero => cases h
  | succ fuel ih =>
    cases stack with
    | nil =>
      cases h
      refine ⟨false, rfl, ⟨fun hfound => Bool.noConfusion hfound, fun hcaught => ?_⟩⟩
      obtain ⟨x, hx, hcaught⟩ := hcaught
      exact absurd hcaught (hquiet x hx)
    | cons current rest =>
      unfold GraphSearch.closure at h
      unfold chainLoop
      by_cases hseen : current ∈ visited
      · rw [if_pos hseen] at h ⊢
        exact ih h hquiet
      · rw [if_neg hseen] at h ⊢
        have hmem : current ∈ result :=
          closure_keeps h current (List.mem_append_right _ (List.mem_singleton_self _))
        obtain ⟨node, hnode⟩ := Option.isSome_iff_exists.mp ((hasNode_iff current.1).mpr (hnodes current hmem))
        rw [hnode]
        simp only
        by_cases hcaught : current.2 = true ∧ node.kind = .deniedAction
        · rw [if_pos hcaught]
          exact ⟨true, rfl, ⟨fun _ => ⟨current, hmem, hcaught.1, node, hnode, hcaught.2⟩, fun _ => rfl⟩⟩
        · rw [if_neg hcaught]
          refine ih h fun x hx => ?_
          obtain hx | hx := List.mem_append.mp hx
          · exact hquiet x hx
          · rw [List.mem_singleton.mp hx]
            intro hfound
            obtain ⟨hcrossed, node', hnode', hkind⟩ := hfound
            cases hnode.symm.trans hnode'
            exact hcaught ⟨hcrossed, hkind⟩

theorem denialsLoop_closure {fuel : ℕ} {stack visited result : List (Str × Bool)} {results : List Str}
    (h : closure g.crossedParents fuel stack visited = some result) (hnodes : ∀ x ∈ result, x.1 ∈ g.nodes.keys)
    (hresults : ∀ d, d ∈ results ↔ (d, true) ∈ visited ∧ g.IsDenied d) (hnodup : results.Nodup) :
    ∃ found, g.denialsLoop fuel stack visited results = .ok found ∧ found.Nodup ∧
      ∀ d, d ∈ found ↔ (d, true) ∈ result ∧ g.IsDenied d := by
  induction fuel generalizing stack visited results with
  | zero => cases h
  | succ fuel ih =>
    cases stack with
    | nil =>
      cases h
      exact ⟨results, rfl, hnodup, hresults⟩
    | cons current rest =>
      unfold GraphSearch.closure at h
      unfold denialsLoop
      by_cases hseen : current ∈ visited
      · rw [if_pos hseen] at h ⊢
        exact ih h hresults hnodup
      · rw [if_neg hseen] at h ⊢
        have hmem : current ∈ result :=
          closure_keeps h current (List.mem_append_right _ (List.mem_singleton_self _))
        obtain ⟨node, hnode⟩ := Option.isSome_iff_exists.mp ((hasNode_iff current.1).mpr (hnodes current hmem))
        rw [hnode]
        simp only
        have hdenied : g.IsDenied current.1 ↔ node.kind = .deniedAction := by
          constructor
          · intro hfound
            obtain ⟨node', hnode', hkind⟩ := hfound
            cases hnode.symm.trans hnode'
            exact hkind
          · exact fun hkind => ⟨node, hnode, hkind⟩
        refine ih h (fun d => ?_) ?_
        · rw [List.mem_append, List.mem_singleton, or_and_right, ← hresults]
          by_cases hcaught : current.2 = true ∧ node.kind = .deniedAction ∧ current.1 ∉ results
          · rw [if_pos hcaught, List.mem_append, List.mem_singleton]
            refine or_congr_right ⟨?_, fun hlast => (Prod.ext_iff.mp hlast.1).1⟩
            rintro rfl
            exact ⟨Prod.ext rfl hcaught.1.symm, hdenied.mpr hcaught.2.1⟩
          · rw [if_neg hcaught]
            refine ⟨.inl, fun hd => hd.elim id fun hlast => ?_⟩
            -- it was collected before, in another state
            obtain ⟨rfl, hkind⟩ := hlast
            by_contra hnew
            exact hcaught ⟨rfl, hdenied.mp hkind, hnew⟩
        · split
          · next hcaught =>
            exact List.Nodup.append hnodup (List.nodup_singleton _)
              (List.disjoint_singleton.mpr hcaught.2.2)
          · exact hnodup

def inEdgesOf (g : ProvenanceGraph) (id : Str) : List (Str × EdgeKind) :=
  (g.ins id).map fun edge => (edge.source, edge.kind)

theorem crossedParents_eq :
    g.crossedParents = flagged g.inEdgesOf fun kind => kind = .counterfactual := by
  funext state
  unfold crossedParents flagged inEdgesOf
  rw [List.map_map]
  rfl

theorem GraphInv.mem_inEdgesOf (h : GraphInv g) (a b : Str) (kind : EdgeKind) :
    (a, kind) ∈ g.inEdgesOf b ↔ ⟨a, b, kind⟩ ∈ g.outs a := by
  unfold inEdgesOf
  constructor
  · intro hmem
    obtain ⟨edge, hedge, heq⟩ := List.mem_map.mp hmem
    obtain ⟨source, target, kind'⟩ := edge
    cases heq
    obtain rfl : target = b := h.in_target b _ hedge
    exact (h.mirror _).mpr hedge
  · intro hout
    exact List.mem_map.mpr ⟨⟨a, b, kind⟩, (h.mirror ⟨a, b, kind⟩).mp hout, rfl⟩

theorem GraphInv.crossed_nodes (h : GraphInv g) {state next : Str × Bool} (hnext : next ∈ g.crossedParents state) :
    next.1 ∈ g.nodes.keys := by
  obtain ⟨edge, hedge, rfl⟩ := List.mem_map.mp hnext
  have htarget := h.in_target state.1 edge hedge
  rw [← htarget] at hedge
  exact (h.endpoints _ edge ((h.mirror edge).mpr hedge)).1

theorem GraphInv.crossed_closure (h : GraphInv g) {id : Str} (hid : id ∈ g.nodes.keys) :
    ∃ result, closure g.crossedParents g.crossedFuel [(id, false)] [] = some result ∧
      (∀ x ∈ result, x.1 ∈ g.nodes.keys) ∧ ∀ d, (d, true) ∈ result ↔ g.CrossedPath d id := by
  have hnodes : ∀ x ∈ g.nodes.keys.toFinset ×ˢ (Finset.univ : Finset Bool), ∀ y ∈ g.crossedParents x,
      y ∈ g.nodes.keys.toFinset ×ˢ (Finset.univ : Finset Bool) := fun x _ y hy =>
    Finset.mem_product.mpr ⟨List.mem_toFinset.mpr (h.crossed_nodes hy), Finset.mem_univ _⟩
  have hstart : ClosureInv g.crossedParents (id, false) [(id, false)] [] := by
    refine ⟨.inr (List.mem_singleton_self _), fun x hx => ?_, fun x hx => absurd hx List.not_mem_nil⟩
    rw [List.mem_singleton.mp (hx.resolve_left List.not_mem_nil)]
  have hpending : pending g.crossedParents (g.nodes.keys.toFinset ×ˢ (Finset.univ : Finset Bool)) [] =
      2 * (g.nodes.keys.map fun id => (g.ins id).length).sum := by
    rw [crossedParents_eq, pending_flagged]
    have hlength (x : Str) : (g.inEdgesOf x).length = (g.ins x).length := List.length_map _
    simp only [hlength]
    exact congrArg _ (List.sum_toFinset _ g.nodes.nodup)
  obtain ⟨result, hclosure, hresult⟩ := @closure_exact _ _ _ _ hnodes _ g.crossedFuel _ _ hstart
    (fun x hx => by
      rw [List.mem_singleton.mp hx]
      exact Finset.mem_product.mpr ⟨List.mem_toFinset.mpr hid, Finset.mem_univ _⟩)
    (by
      rw [hpending, List.length_singleton]
      unfold crossedFuel
      omega)
  refine ⟨result, hclosure, fun x hx => ?_, fun d => ?_⟩
  · obtain heq | ⟨y, -, hstep⟩ := Relation.ReflTransGen.cases_tail ((hresult x).mp hx)
    · rw [heq]
      exact hid
    · exact h.crossed_nodes hstep
  · rw [hresult, crossedParents_eq, flagged_reach_iff]
    simp only [h.mem_inEdgesOf, @eq_comm Bool true, List.any_eq_true, decide_eq_true_eq]
    rfl

theorem GraphInv.hasCounterfactualChain_eq (h : GraphInv g) (id : Str) :
    ∃ found, g.hasCounterfactualChain id = .ok found ∧ (found = true ↔ ∃ d, g.Launders d id) := by
  unfold hasCounterfactualChain
  by_cases hid : id ∈ g.nodes.keys
  · rw [if_pos ((hasNode_iff id).mpr hid)]
    obtain ⟨result, hclosure, hnodes, hcrossed⟩ := h.crossed_closure hid
    obtain ⟨found, hfound, hiff⟩ := chainLoop_closure hclosure hnodes fun x hx => absurd hx List.not_mem_nil
    refine ⟨found, hfound, hiff.trans ⟨fun hcaught => ?_, fun hlaunders => ?_⟩⟩
    · obtain ⟨⟨d, crossed⟩, hmem, rfl, hdenied⟩ := hcaught
      exact ⟨d, hdenied, hid, (hcrossed d).mp hmem⟩
    · obtain ⟨d, hdenied, -, hpath⟩ := hlaunders
      exact ⟨(d, true), (hcrossed d).mpr hpath, rfl, hdenied⟩
  · rw [if_neg fun hhas => hid ((hasNode_iff id).mp hhas)]
    refine ⟨false, rfl, ⟨fun hfound => Bool.noConfusion hfound, fun hlaunders => ?_⟩⟩
    obtain ⟨d, -, hmem, -⟩ := hlaunders
    exact absurd hmem hid

theorem GraphInv.counterfactualDenials_eq (h : GraphInv g) (id : Str) :
    ∃ found : List Str, g.counterfactualDenials id = .ok (sortedNames found) ∧ found.Nodup ∧
      ∀ d, d ∈ found ↔ g.Launders d id := by
  unfold counterfactualDenials
  by_cases hid : id ∈ g.nodes.keys
  · rw [if_pos ((hasNode_iff id).mpr hid)]
    obtain ⟨result, hclosure, hnodes, hcrossed⟩ := h.crossed_closure hid
    obtain ⟨found, hfound, hnodup, hiff⟩ := @denialsLoop_closure g _ _ _ _ [] hclosure hnodes
      (fun d => ⟨fun hd => absurd hd List.not_mem_nil, fun hd => absurd hd.1 List.not_mem_nil⟩) List.nodup_nil
    refine ⟨found, by rw [hfound]; rfl, hnodup, fun d => ?_⟩
    rw [hiff, hcrossed]
    exact ⟨fun hd => ⟨hd.2, hid, hd.1⟩, fun hd => ⟨hd.2.2, hd.1⟩⟩
  · rw [if_neg fun hhas => hid ((hasNode_iff id).mp hhas)]
    exact ⟨[], rfl, List.nodup_nil, fun d => ⟨fun hd => absurd hd List.not_mem_nil, fun hd => absurd hd.2.1 hid⟩⟩

def FlowAncestor (g : ProvenanceGraph) (a id : Str) : Prop :=
  id ∈ g.nodes.keys ∧ a ≠ id ∧
    Relation.ReflTransGen (fun x y => ∃ kind, kind ≠ .counterfactual ∧ ⟨y, x, kind⟩ ∈ g.outs y) id a

def AncestorLabel (g : ProvenanceGraph) (id : Str) (label : IfcLabel) : Prop :=
  ∃ a node, g.FlowAncestor a id ∧ g.nodes.get? a = some node ∧ node.kind.isData = true ∧ node.label = some label

theorem GraphInv.mem_flowParents (h : GraphInv g) (x y : Str) :
    y ∈ g.flowParents x ↔ ∃ kind, kind ≠ .counterfactual ∧ ⟨y, x, kind⟩ ∈ g.outs y := by
  unfold flowParents
  constructor
  · intro hy
    obtain ⟨edge, hedge, rfl⟩ := List.mem_map.mp hy
    obtain ⟨hin, hflow⟩ := List.mem_filter.mp hedge
    obtain ⟨source, target, kind⟩ := edge
    obtain rfl : target = x := h.in_target x _ hin
    exact ⟨kind, of_decide_eq_true hflow, (h.mirror _).mpr hin⟩
  · intro hout
    obtain ⟨kind, hkind, hout⟩ := hout
    exact List.mem_map.mpr ⟨⟨y, x, kind⟩, List.mem_filter.mpr
      ⟨(h.mirror ⟨y, x, kind⟩).mp hout, decide_eq_true hkind⟩, rfl⟩

theorem GraphInv.mem_ancestors_iff (h : GraphInv g) (id a : Str) : a ∈ g.ancestors id ↔ g.FlowAncestor a id := by
  rw [h.mem_ancestors]
  simp only [h.mem_flowParents]
  rfl

theorem GraphInv.mem_ancestorLabels (h : GraphInv g) (id : Str) (label : IfcLabel) :
    label ∈ g.ancestorLabels id ↔ g.AncestorLabel id label := by
  unfold ancestorLabels
  rw [List.mem_filterMap]
  constructor
  · intro hmem
    obtain ⟨a, ha, hread⟩ := hmem
    cases hnode : g.nodes.get? a with
    | none =>
      rw [hnode] at hread
      cases hread
    | some node =>
      rw [hnode] at hread
      simp only at hread
      split at hread
      · next hdata => exact ⟨a, node, (h.mem_ancestors_iff id a).mp ha, hnode, hdata, hread⟩
      · cases hread
  · intro hlabel
    obtain ⟨a, node, ha, hnode, hdata, hread⟩ := hlabel
    refine ⟨a, (h.mem_ancestors_iff id a).mpr ha, ?_⟩
    rw [hnode]
    simp only
    rw [if_pos hdata, hread]

theorem le_capacity_iff (labels : List IfcLabel) (label : IfcLabel) (bound : ℕ) :
    (labels.foldl IfcLabel.join label).capacity.toNat ≤ bound ↔
      ∀ l ∈ label :: labels, l.capacity.toNat ≤ bound := by
  induction labels generalizing label with
  | nil => simp
  | cons next labels ih =>
    rw [List.foldl_cons, ih, List.forall_mem_cons, List.forall_mem_cons, List.forall_mem_cons, ← and_assoc]
    refine and_congr_left fun _ => ?_
    change (label.capacity.max next.capacity).toNat ≤ bound ↔ _
    unfold CapacityType.max
    split <;> omega

theorem integrity_foldl (labels : List IfcLabel) (label : IfcLabel) :
    (labels.foldl IfcLabel.join label).integrity = .join ((label :: labels).map IfcLabel.integrity) := by
  induction labels generalizing label with
  | nil => rfl
  | cons next labels ih =>
    rw [List.foldl_cons, ih]
    rfl

theorem confidentiality_foldl (labels : List IfcLabel) (label : IfcLabel) :
    (labels.foldl IfcLabel.join label).confidentiality =
      .join ((label :: labels).map IfcLabel.confidentiality) := by
  induction labels generalizing label with
  | nil => rfl
  | cons next labels ih =>
    rw [List.foldl_cons, ih]
    rfl

structure JoinsAncestors (g : ProvenanceGraph) (id : Str) : Prop where
  trust : ∀ bound, bound ≤ g.minTrust id ↔ ∀ label, g.AncestorLabel id label → bound ≤ label.integrity
  sensitivity : ∀ bound, g.maxSensitivity id ≤ bound ↔
    ∀ label, g.AncestorLabel id label → label.confidentiality ≤ bound
  capacity : ∀ bound, (g.effectiveLabel id).capacity.toNat ≤ bound ↔
    ∀ label, g.AncestorLabel id label → label.capacity.toNat ≤ bound
  effective : (g.effectiveLabel id).integrity = g.minTrust id ∧
    (g.effectiveLabel id).confidentiality = g.maxSensitivity id

theorem GraphInv.joinsAncestors (h : GraphInv g) (id : Str) : JoinsAncestors g id := by
  refine ⟨fun bound => ?_, fun bound => ?_, fun bound => ?_, ?_⟩
  · unfold minTrust
    rw [IntegrityLevel.le_join_iff, List.forall_mem_map]
    simp only [h.mem_ancestorLabels]
  · unfold maxSensitivity
    rw [ConfidentialityLevel.join_le_iff, List.forall_mem_map]
    simp only [h.mem_ancestorLabels]
  · have hlabels := h.mem_ancestorLabels id
    unfold effectiveLabel
    cases hlist : g.ancestorLabels id with
    | nil =>
      rw [hlist] at hlabels
      exact ⟨fun _ label hlabel => absurd ((hlabels label).mpr hlabel) List.not_mem_nil, fun _ => Nat.zero_le _⟩
    | cons label rest =>
      rw [hlist] at hlabels
      simp only [le_capacity_iff, hlabels]
  · unfold effectiveLabel minTrust maxSensitivity
    cases g.ancestorLabels id with
    | nil => exact ⟨rfl, rfl⟩
    | cons label rest => exact ⟨integrity_foldl rest label, confidentiality_foldl rest label⟩

structure SameGraph (g g' : ProvenanceGraph) : Prop where
  nodes : ∀ id, g.nodes.get? id = g'.nodes.get? id
  edges : ∀ edge : Edge, edge ∈ g.outs edge.source ↔ edge ∈ g'.outs edge.source

structure SameAnswers (g g' : ProvenanceGraph) (id : Str) : Prop where
  chain : g.hasCounterfactualChain id = g'.hasCounterfactualChain id
  denials : g.counterfactualDenials id = g'.counterfactualDenials id
  ancestors : g.ancestors id = g'.ancestors id
  labels : g.minTrust id = g'.minTrust id ∧ g.maxSensitivity id = g'.maxSensitivity id ∧
    g.effectiveLabel id = g'.effectiveLabel id

theorem SameGraph.mem_keys {g g' : ProvenanceGraph} (h : SameGraph g g') (id : Str) :
    id ∈ g.nodes.keys ↔ id ∈ g'.nodes.keys := by
  rw [← hasNode_iff, ← hasNode_iff, hasNode, hasNode, h.nodes]

theorem SameGraph.launders {g g' : ProvenanceGraph} (h : SameGraph g g') (d id : Str) :
    g.Launders d id ↔ g'.Launders d id := by
  have hedge : (fun a kind b => (⟨a, b, kind⟩ : Edge) ∈ g.outs a) = fun a kind b => ⟨a, b, kind⟩ ∈ g'.outs a := by
    funext a kind b
    exact propext (h.edges ⟨a, b, kind⟩)
  unfold Launders IsDenied CrossedPath
  rw [h.nodes, h.mem_keys, hedge]

theorem SameGraph.flowAncestor {g g' : ProvenanceGraph} (h : SameGraph g g') (a id : Str) :
    g.FlowAncestor a id ↔ g'.FlowAncestor a id := by
  have hedge : (fun x y => ∃ kind, kind ≠ EdgeKind.counterfactual ∧ (⟨y, x, kind⟩ : Edge) ∈ g.outs y) =
      fun x y => ∃ kind, kind ≠ EdgeKind.counterfactual ∧ ⟨y, x, kind⟩ ∈ g'.outs y := by
    funext x y
    exact propext (exists_congr fun kind => and_congr_right fun _ => h.edges ⟨y, x, kind⟩)
  unfold FlowAncestor
  rw [h.mem_keys, hedge]

theorem ancestors_eq_sorted (g : ProvenanceGraph) (id : Str) :
    ∃ names, g.ancestors id = sortedNames names ∧ names.Nodup := by
  unfold ancestors
  by_cases hid : g.hasNode id = true
  · rw [if_pos hid]
    cases hclosure : closure g.flowParents g.searchFuel [id] [] with
    | none => exact ⟨[], rfl, List.nodup_nil⟩
    | some visited => exact ⟨_, rfl, (closure_nodup hclosure List.nodup_nil).filter _⟩
  · rw [if_neg hid]
    exact ⟨[], rfl, List.nodup_nil⟩

theorem mem_sortedNames {names : List Str} {name : Str} : name ∈ sortedNames names ↔ name ∈ names :=
  List.mem_insertionSort _

theorem SameGraph.answers {g g' : ProvenanceGraph} (h : SameGraph g g') (hg : GraphInv g) (hg' : GraphInv g')
    (id : Str) : SameAnswers g g' id := by
  have hancestors : g.ancestors id = g'.ancestors id := by
    obtain ⟨names, hnames, hnodup⟩ := g.ancestors_eq_sorted id
    obtain ⟨names', hnames', hnodup'⟩ := g'.ancestors_eq_sorted id
    have hmem (a : Str) : a ∈ names ↔ g.FlowAncestor a id := by
      rw [← mem_sortedNames, ← hnames, hg.mem_ancestors_iff]
    have hmem' (a : Str) : a ∈ names' ↔ g'.FlowAncestor a id := by
      rw [← mem_sortedNames, ← hnames', hg'.mem_ancestors_iff]
    rw [hnames, hnames']
    refine sortedNames_eq_of_perm ((List.perm_ext_iff_of_nodup hnodup hnodup').mpr fun a => ?_)
    rw [hmem, hmem', h.flowAncestor]
  have hlabels : g.ancestorLabels id = g'.ancestorLabels id := by
    unfold ancestorLabels
    rw [hancestors]
    simp only [h.nodes]
  refine ⟨?_, ?_, hancestors, ?_⟩
  · obtain ⟨found, hfound, hiff⟩ := hg.hasCounterfactualChain_eq id
    obtain ⟨found', hfound', hiff'⟩ := hg'.hasCounterfactualChain_eq id
    rw [hfound, hfound', Bool.eq_iff_iff.mpr (hiff.trans ((exists_congr fun d => h.launders d id).trans hiff'.symm))]
  · obtain ⟨found, hfound, hnodup, hiff⟩ := hg.counterfactualDenials_eq id
    obtain ⟨found', hfound', hnodup', hiff'⟩ := hg'.counterfactualDenials_eq id
    rw [hfound, hfound', sortedNames_eq_of_perm ((List.perm_ext_iff_of_nodup hnodup hnodup').mpr fun d => ?_)]
    rw [hiff, hiff', h.launders]
  · unfold minTrust maxSensitivity effectiveLabel
    rw [hlabels]
    exact ⟨rfl, rfl, rfl⟩

def DataLabelled (g : ProvenanceGraph) : Prop :=
  ∀ id node, g.nodes.get? id = some node → node.kind.isData = true → node.label ≠ none

def CounterfactualEdge (g : ProvenanceGraph) (denial id : Str) : Prop :=
  ⟨denial, id, .counterfactual⟩ ∈ g.outs denial

def autoCall : GraphOp → Option Str
  | .addCall _ nodeId uuid true => some (chooseId nodeId (txt "call:") uuid)
  | _ => none

structure StepLinks (g g' : ProvenanceGraph) (op : GraphOp) : Prop where
  edges : ∀ denial ∈ g.nodes.keys, ∀ id, g'.CounterfactualEdge denial id ↔ g.CounterfactualEdge denial id ∨
    (denial ∈ g.recentDenials ∧ autoCall op = some id) ∨
      (op = .addEdge denial id .counterfactual ∧ id ∈ g.nodes.keys)
  parked : ∀ denial ∈ g.nodes.keys, denial ∈ g'.recentDenials ↔ denial ∈ g.recentDenials ∧ autoCall op = none
  labelled : g.DataLabelled → g'.DataLabelled

theorem edge_putNode {id denial : Str} (hne : denial ≠ id) (node : Node) (x : Str) :
    (g.putNode id node).CounterfactualEdge denial x ↔ g.CounterfactualEdge denial x := by
  unfold CounterfactualEdge
  rw [outs_putNode, if_neg hne]

theorem DataLabelled.set (h : g.DataLabelled) {g' : ProvenanceGraph} {id : Str} {node : Node}
    (hnodes : g'.nodes = g.nodes.set id node) (hnode : node.kind.isData = true → node.label ≠ none) :
    g'.DataLabelled := by
  intro x found hfound hdata
  rw [hnodes, Dict.get?_set] at hfound
  split at hfound
  · cases hfound
    exact hnode hdata
  · exact h x found hfound hdata

theorem addEdge_ok {source target : Str} (hsource : source ∈ g.nodes.keys) (htarget : target ∈ g.nodes.keys)
    (kind : EdgeKind) : ∃ g', g.addEdge source target kind = .ok g' := by
  unfold addEdge
  rw [(hasNode_iff source).mpr hsource, (hasNode_iff target).mpr htarget]
  simp only [Bool.true_eq_false, if_false]
  split
  · exact ⟨_, rfl⟩
  · exact ⟨_, rfl⟩

theorem addEdge_links (h : GraphInv g) {g' : ProvenanceGraph} {source target : Str} {kind : EdgeKind}
    (hadd : g.addEdge source target kind = .ok g') :
    g'.nodes = g.nodes ∧ g'.recentDenials = g.recentDenials ∧
      ∀ edge : Edge, edge ∈ g'.outs edge.source ↔ edge ∈ g.outs edge.source ∨ edge = ⟨source, target, kind⟩ := by
  obtain ⟨-, -, ⟨rfl, edge, hedge, htarget, hkind⟩ | ⟨rfl, -⟩⟩ := addEdge_cases hadd
  · refine ⟨rfl, rfl, fun other => ⟨.inl, fun hother => hother.elim id ?_⟩⟩
    rintro rfl
    obtain ⟨s, t, k⟩ := edge
    obtain rfl : s = source := h.out_source source _ hedge
    cases htarget
    cases hkind
    exact hedge
  · refine ⟨rfl, rfl, fun other => ?_⟩
    rw [outs_link]
    split
    · rw [List.mem_append, List.mem_singleton]
    · next hother =>
      refine ⟨.inl, fun hmem => hmem.elim id ?_⟩
      rintro rfl
      exact absurd rfl hother

theorem addEdges_links (h : GraphInv g) {id : Str} (hid : id ∈ g.nodes.keys) {denials : List Str}
    (hdenials : ∀ d ∈ denials, d ∈ g.nodes.keys) :
    ∃ g', denials.foldlM (fun g denial => g.addEdge denial id .counterfactual) g = .ok g' ∧ g'.nodes = g.nodes ∧
      ∀ edge : Edge, edge ∈ g'.outs edge.source ↔
        edge ∈ g.outs edge.source ∨ ∃ d ∈ denials, edge = ⟨d, id, .counterfactual⟩ := by
  induction denials generalizing g with
  | nil => exact ⟨g, rfl, rfl, fun edge => by simp⟩
  | cons denial denials ih =>
    obtain ⟨g₁, hadd⟩ := addEdge_ok (hdenials denial List.mem_cons_self) hid .counterfactual
    obtain ⟨hnodes, -, hedges⟩ := addEdge_links h hadd
    obtain ⟨g', hrest, hnodes', hedges'⟩ := ih (h.addEdge hadd).1 (by rw [hnodes]; exact hid) fun d hd => by
      rw [hnodes]
      exact hdenials d (List.mem_cons_of_mem _ hd)
    refine ⟨g', ?_, hnodes'.trans hnodes, fun edge => ?_⟩
    · rw [List.foldlM_cons, hadd]
      exact hrest
    · rw [hedges', hedges, or_assoc, List.exists_mem_cons_iff]

theorem addCall_ok (h : GraphInv g) (name : Str) (nodeId : Option Str) (uuid : Str) (auto : Bool)
    (hid : chooseId nodeId (txt "call:") uuid ∉ g.nodes.keys) :
    ∃ g', g.addCall name nodeId uuid auto = .ok g' ∧
      g'.nodes = g.nodes.set (chooseId nodeId (txt "call:") uuid) ⟨.call, name, none⟩ ∧
      g'.recentDenials = (if auto then [] else g.recentDenials) ∧
      ∀ edge : Edge, edge ∈ g'.outs edge.source ↔
        edge ∈ (g.putNode (chooseId nodeId (txt "call:") uuid) ⟨.call, name, none⟩).outs edge.source ∨
          auto = true ∧ ∃ d ∈ g.recentDenials, edge = ⟨d, chooseId nodeId (txt "call:") uuid, .counterfactual⟩ := by
  unfold addCall
  generalize chooseId nodeId (txt "call:") uuid = id at hid ⊢
  have hput := h.putNode (h.onlyLoops_of_fresh hid) ⟨.call, name, none⟩
  obtain ⟨g', hlinks, hnodes, hedges⟩ := addEdges_links hput ((mem_keys_putNode ..).mpr (.inl rfl)) hput.denials
  simp only
  cases auto with
  | false => exact ⟨_, if_neg fun hboth => Bool.noConfusion hboth.1, rfl, rfl, fun edge => by simp⟩
  | true =>
    by_cases hempty : g.recentDenials = []
    · refine ⟨_, if_neg fun hboth => hboth.2 hempty, rfl, hempty, fun edge => ?_⟩
      rw [hempty]
      simp
    · refine ⟨{ g' with recentDenials := [] }, ?_, hnodes, rfl, fun edge => ?_⟩
      · rw [if_pos ⟨rfl, hempty⟩]
        exact (congrArg (· >>= fun g => pure { g with recentDenials := [] }) hlinks).trans rfl
      · rw [and_iff_right rfl]
        exact hedges edge

theorem after_of_apply {op : GraphOp} {g' : ProvenanceGraph} (h : g.apply op = .ok g') : g.after op = g' := by
  unfold after
  rw [h]

theorem addCall_links (h : GraphInv g) {name : Str} {nodeId : Option Str} {uuid : Str} {auto : Bool}
    (hid : chooseId nodeId (txt "call:") uuid ∉ g.nodes.keys) :
    StepLinks g (g.after (.addCall name nodeId uuid auto)) (.addCall name nodeId uuid auto) := by
  obtain ⟨g', hadd, hnodes, hrecent, hedges⟩ := addCall_ok h name nodeId uuid auto hid
  rw [after_of_apply (show g.apply (.addCall name nodeId uuid auto) = .ok g' from hadd)]
  constructor
  · intro denial hdenial x
    have hne : denial ≠ chooseId nodeId (txt "call:") uuid := fun heq => hid (heq ▸ hdenial)
    refine (hedges ⟨denial, x, .counterfactual⟩).trans (or_congr (edge_putNode hne _ x) ?_)
    cases auto with
    | false => simp [autoCall]
    | true =>
      simp only [autoCall, true_and, Option.some.injEq, Edge.mk.injEq, and_true, reduceCtorEq, false_and, or_false]
      constructor
      · intro hlinked
        obtain ⟨d, hd, rfl, rfl⟩ := hlinked
        exact ⟨hd, rfl⟩
      · intro hlinked
        exact ⟨denial, hlinked.1, rfl, hlinked.2.symm⟩
  · intro denial _
    rw [hrecent]
    cases auto with
    | false => simp [autoCall]
    | true => simp [autoCall]
  · exact fun hlabelled => hlabelled.set hnodes fun hdata => Bool.noConfusion hdata

theorem quiet_links {g' : ProvenanceGraph} {op : GraphOp}
    (hedges : ∀ denial ∈ g.nodes.keys, ∀ x, g'.CounterfactualEdge denial x ↔ g.CounterfactualEdge denial x)
    (hparked : ∀ denial ∈ g.nodes.keys, denial ∈ g'.recentDenials ↔ denial ∈ g.recentDenials)
    (hlabelled : g.DataLabelled → g'.DataLabelled) (hauto : autoCall op = none)
    (hedge : ∀ denial ∈ g.nodes.keys, ∀ x ∈ g.nodes.keys, op ≠ .addEdge denial x .counterfactual) :
    StepLinks g g' op := by
  refine ⟨fun denial hdenial x => ?_, fun denial hdenial => ?_, hlabelled⟩
  · rw [hedges denial hdenial, hauto]
    refine ⟨.inl, fun hx => hx.elim id fun hlinked => ?_⟩
    obtain ⟨-, hsome⟩ | ⟨hsame, hmem⟩ := hlinked
    · cases hsome
    · exact absurd hsame (hedge denial hdenial x hmem)
  · rw [hparked denial hdenial, hauto, eq_self, and_true]

theorem refused_links {op : GraphOp} {e : IfcError} (h : g.apply op = .error e) (hauto : autoCall op = none)
    (hedge : ∀ denial ∈ g.nodes.keys, ∀ x ∈ g.nodes.keys, op ≠ .addEdge denial x .counterfactual) :
    StepLinks g (g.after op) op := by
  have hafter : g.after op = g := by
    unfold after
    rw [h]
  rw [hafter]
  exact quiet_links (fun _ _ _ => Iff.rfl) (fun _ _ => Iff.rfl) id hauto hedge

theorem addDataField_links (h : GraphInv g) {parent fieldName : Str} {label : IfcLabel} {nodeId : Option Str}
    {uuid : Str}
    (hop : ∀ id, g.newId (.addDataField parent fieldName label nodeId uuid) = some id → id ∉ g.nodes.keys) :
    StepLinks g (g.after (.addDataField parent fieldName label nodeId uuid))
      (.addDataField parent fieldName label nodeId uuid) := by
  have hedge (denial x : Str) :
      GraphOp.addDataField parent fieldName label nodeId uuid ≠ .addEdge denial x .counterfactual := nofun
  cases happly : g.apply (.addDataField parent fieldName label nodeId uuid) with
  | error e => exact refused_links happly rfl fun denial _ x _ => hedge denial x
  | ok g' =>
    rw [after_of_apply happly]
    obtain ⟨hnew, hadd⟩ := addDataField_ok happly
    have hfresh := hop _ hnew
    obtain ⟨hnodes, hrecent, hedges⟩ := addEdge_links (h.putNode (h.onlyLoops_of_fresh hfresh) _) hadd
    refine quiet_links (fun denial hdenial x => ?_) (fun denial _ => by rw [hrecent]; rfl)
      (fun hlabelled => hlabelled.set hnodes fun _ => Option.some_ne_none _) rfl
      fun denial _ x _ => hedge denial x
    have hne : denial ≠ chooseId nodeId (txt "field:") uuid := fun heq => hfresh (heq ▸ hdenial)
    refine (hedges ⟨denial, x, .counterfactual⟩).trans ((or_iff_left fun hsame => ?_).trans (edge_putNode hne _ x))
    cases hsame

theorem addEdge_stepLinks (h : GraphInv g) (source target : Str) (kind : EdgeKind) :
    StepLinks g (g.after (.addEdge source target kind)) (.addEdge source target kind) := by
  cases happly : g.apply (.addEdge source target kind) with
  | error e =>
    refine refused_links happly rfl fun denial hdenial x hx hsame => ?_
    cases hsame
    obtain ⟨g', hok⟩ := addEdge_ok hdenial hx .counterfactual
    cases happly.symm.trans hok
  | ok g' =>
    rw [after_of_apply happly]
    have hadd : g.addEdge source target kind = .ok g' := happly
    obtain ⟨-, htarget, -⟩ := addEdge_cases hadd
    obtain ⟨hnodes, hrecent, hedges⟩ := addEdge_links h hadd
    refine ⟨fun denial _ x => (hedges ⟨denial, x, .counterfactual⟩).trans (or_congr Iff.rfl ?_),
      fun denial _ => ?_, fun hlabelled => by unfold DataLabelled; rw [hnodes]; exact hlabelled⟩
    · constructor
      · intro hsame
        cases hsame
        exact .inr ⟨rfl, htarget⟩
      · intro hlinked
        obtain ⟨-, hsome⟩ | ⟨hsame, -⟩ := hlinked
        · cases hsome
        · cases hsame
          rfl
    · rw [hrecent]
      exact (and_iff_left rfl).symm

theorem after_links (h : GraphInv g) {op : GraphOp} (hop : ∀ id, g.newId op = some id → id ∉ g.nodes.keys) :
    StepLinks g (g.after op) op := by
  cases op with
  | addCall name nodeId uuid auto => exact addCall_links h (hop _ rfl)
  | addData name label nodeId uuid =>
    have hne (denial : Str) (hdenial : denial ∈ g.nodes.keys) : denial ≠ chooseId nodeId (txt "data:") uuid :=
      fun heq => hop _ rfl (heq ▸ hdenial)
    refine quiet_links (fun denial hdenial => edge_putNode (hne denial hdenial) _) (fun _ _ => Iff.rfl)
      (fun hlabelled => hlabelled.set rfl fun _ => Option.some_ne_none _) rfl ?_
    exact fun _ _ _ _ => nofun
  | addDataField parent fieldName label nodeId uuid => exact addDataField_links h hop
  | addDeniedAction name uuid =>
    have hne (denial : Str) (hdenial : denial ∈ g.nodes.keys) : denial ≠ txt "denied:" ++ uuid :=
      fun heq => hop _ rfl (heq ▸ hdenial)
    refine quiet_links (fun denial hdenial => edge_putNode (hne denial hdenial) ⟨.deniedAction, name, none⟩)
      (fun denial hdenial => ?_) (fun hlabelled => hlabelled.set rfl fun hdata => Bool.noConfusion hdata) rfl
      fun _ _ _ _ => nofun
    change denial ∈ g.recentDenials ++ [txt "denied:" ++ uuid] ↔ _
    rw [List.mem_append, List.mem_singleton, or_iff_left (hne denial hdenial)]
  | addEdge source target kind => exact addEdge_stepLinks h source target kind

/-- The edge is added by a call of `add_edge` that finds its target. -/
def AddedByHand (g : ProvenanceGraph) (ops : List GraphOp) (denial id : Str) : Prop :=
  ∃ mid post, ops = mid ++ .addEdge denial id .counterfactual :: post ∧ id ∈ (g.run mid).nodes.keys

theorem addedByHand_cons (op : GraphOp) (ops : List GraphOp) (denial id : Str) :
    g.AddedByHand (op :: ops) denial id ↔
      (op = .addEdge denial id .counterfactual ∧ id ∈ g.nodes.keys) ∨ (g.after op).AddedByHand ops denial id := by
  constructor
  · intro hadded
    obtain ⟨mid, post, heq, hmem⟩ := hadded
    cases mid with
    | nil =>
      obtain ⟨rfl, -⟩ := List.cons.inj heq
      exact .inl ⟨rfl, hmem⟩
    | cons first mid =>
      obtain ⟨rfl, htail⟩ := List.cons.inj heq
      exact .inr ⟨mid, post, htail, hmem⟩
  · intro hadded
    obtain ⟨rfl, hmem⟩ | ⟨mid, post, rfl, hmem⟩ := hadded
    · exact ⟨[], ops, rfl, hmem⟩
    · exact ⟨op :: mid, post, rfl, hmem⟩

theorem run_links (h : GraphInv g) {ops : List GraphOp} (hops : FreshRun g ops) {denial : Str}
    (hdenial : denial ∈ g.nodes.keys) (id : Str) :
    (g.run ops).CounterfactualEdge denial id ↔ g.CounterfactualEdge denial id ∨
      (denial ∈ g.recentDenials ∧ ops.findSome? autoCall = some id) ∨ g.AddedByHand ops denial id := by
  induction ops generalizing g with
  | nil =>
    refine ⟨.inl, fun hedge => hedge.elim (fun hedge => hedge) fun hlinked => ?_⟩
    obtain ⟨-, hsome⟩ | ⟨mid, post, heq, -⟩ := hlinked
    · cases hsome
    · exact absurd heq.symm (List.append_ne_nil_of_right_ne_nil _ (List.cons_ne_nil _ _))
  | cons op ops ih =>
    obtain ⟨hop, hrest⟩ := hops
    obtain ⟨hinv, hgrows⟩ := h.after fun id hid => h.onlyLoops_of_fresh (hop id hid)
    have hstep := after_links h hop
    refine (ih hinv hrest (hgrows.nodes denial hdenial)).trans ?_
    rw [hstep.edges denial hdenial, hstep.parked denial hdenial, addedByHand_cons, List.findSome?_cons]
    cases autoCall op with
    | none => simp [or_assoc, or_left_comm]
    | some call => simp [or_assoc]

theorem run_labelled (h : GraphInv g) {ops : List GraphOp} (hops : FreshRun g ops) (hlabelled : g.DataLabelled) :
    (g.run ops).DataLabelled := by
  induction ops generalizing g with
  | nil => exact hlabelled
  | cons op ops ih =>
    obtain ⟨hop, hrest⟩ := hops
    exact ih (h.after fun id hid => h.onlyLoops_of_fresh (hop id hid)).1 hrest ((after_links h hop).labelled hlabelled)

theorem FreshRun.append {ops more : List GraphOp} (h : FreshRun g (ops ++ more)) :
    FreshRun g ops ∧ FreshRun (g.run ops) more := by
  induction ops generalizing g with
  | nil => exact ⟨trivial, h⟩
  | cons op ops ih =>
    obtain ⟨hops, hmore⟩ := ih h.2
    exact ⟨⟨h.1, hops⟩, hmore⟩

structure DetectsExactly (g : ProvenanceGraph) (id : Str) : Prop where
  chain : ∃ found, g.hasCounterfactualChain id = .ok found ∧ (found = true ↔ ∃ d, g.Launders d id)
  denials : ∃ found : List Str, g.counterfactualDenials id = .ok (sortedNames found) ∧ found.Nodup ∧
    ∀ d, d ∈ found ↔ g.Launders d id
  ancestors : ∀ a, a ∈ g.ancestors id ↔ g.FlowAncestor a id
  labels : JoinsAncestors g id

theorem denial_links {pre rest : List GraphOp} {name uuid : Str}
    (hops : FreshRun empty (pre ++ .addDeniedAction name uuid :: rest)) (id : Str) :
    (empty.run (pre ++ .addDeniedAction name uuid :: rest)).CounterfactualEdge (txt "denied:" ++ uuid) id ↔
      rest.findSome? autoCall = some id ∨
        (empty.run (pre ++ [.addDeniedAction name uuid])).AddedByHand rest (txt "denied:" ++ uuid) id := by
  obtain ⟨hpre, hdenied, hrest⟩ := hops.append
  have hinv := (graphInv_empty.run (graphInv_empty.safeRun_of_freshRun hpre)).1
  have hinv' := (hinv.after fun id hid => hinv.onlyLoops_of_fresh (hdenied id hid)).1
  have hrun (more : List GraphOp) : empty.run (pre ++ .addDeniedAction name uuid :: more) =
      ((empty.run pre).after (.addDeniedAction name uuid)).run more := List.foldl_append
  have hstart : ¬ ((empty.run pre).after (.addDeniedAction name uuid)).CounterfactualEdge
      (txt "denied:" ++ uuid) id := by
    intro hedge
    have hedge : ⟨txt "denied:" ++ uuid, id, .counterfactual⟩ ∈
        ((empty.run pre).putNode (txt "denied:" ++ uuid) ⟨.deniedAction, name, none⟩).outs (txt "denied:" ++ uuid) :=
      hedge
    rw [outs_putNode, if_pos rfl] at hedge
    exact List.not_mem_nil hedge
  have hparked : txt "denied:" ++ uuid ∈ ((empty.run pre).after (.addDeniedAction name uuid)).recentDenials :=
    List.mem_append_right _ (List.mem_singleton_self _)
  rw [hrun, hrun, run_links hinv' hrest (hinv'.denials _ hparked), or_iff_right hstart, and_iff_right hparked]
  rfl

/-- In every run that passes no id twice, the queries find what they look for, whatever the order in
which the graph was built, and a denial leads to the next call that links automatically. -/
theorem laundering_detection_exact (ops : List GraphOp) (hops : FreshRun empty ops) :
    (∀ id, DetectsExactly (empty.run ops) id) ∧ (empty.run ops).DataLabelled ∧
      (∀ ops', FreshRun empty ops' → SameGraph (empty.run ops) (empty.run ops') →
        ∀ id, SameAnswers (empty.run ops) (empty.run ops') id) ∧
      ∀ pre name uuid rest, ops = pre ++ .addDeniedAction name uuid :: rest → ∀ id,
        (empty.run ops).CounterfactualEdge (txt "denied:" ++ uuid) id ↔ rest.findSome? autoCall = some id ∨
          (empty.run (pre ++ [.addDeniedAction name uuid])).AddedByHand rest (txt "denied:" ++ uuid) id := by
  have hinv := (graphInv_empty.run (graphInv_empty.safeRun_of_freshRun hops)).1
  refine ⟨fun id => ?_, run_labelled graphInv_empty hops fun id node hnode => ?_, fun ops' hops' hsame id => ?_,
    fun pre name uuid rest heq id => ?_⟩
  · exact ⟨hinv.hasCounterfactualChain_eq id, hinv.counterfactualDenials_eq id, hinv.mem_ancestors_iff id,
      hinv.joinsAncestors id⟩
  · cases hnode
  · exact hsame.answers hinv (graphInv_empty.run (graphInv_empty.safeRun_of_freshRun hops')).1 id
  · subst heq
    exact denial_links hops id

def deniedFlow : List GraphOp :=
  [.addDeniedAction (txt "export") (txt "1"), .addCall (txt "send") (some (txt "c")) [] true]

theorem deniedFlow_fresh : FreshRun empty deniedFlow := by
  refine ⟨fun id hid => ?_, fun id hid => ?_, trivial⟩
  · cases hid
    decide
  · cases hid
    decide

theorem laundering_detection_exact_deniedFlow :
    FreshRun empty deniedFlow ∧ (empty.run deniedFlow).CounterfactualEdge (txt "denied:1") (txt "c") :=
  ⟨deniedFlow_fresh, ((laundering_detection_exact deniedFlow deniedFlow_fresh).2.2.2 [] (txt "export") (txt "1") _ rfl
    (txt "c")).mpr (.inl rfl)⟩

end ProvenanceGraph

end TexGovernance.Ifc
