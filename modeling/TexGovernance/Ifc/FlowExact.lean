import TexGovernance.Ifc.Provenance
import TexGovernance.Ifc.GraphInvariant

/-!
# The flow checks are exact

Over a graph whose two adjacency lists agree the backward search decides
whether an offending source reaches the sink, the reconstructed witness is a
shortest path, and the verifier accepts what a checker returns.
-/

namespace TexGovernance.Ifc
open PyStr PyDict PyJson PyCodec PyBytes PyRepr Sha256 GraphSearch Pipeline

variable {g : ProvenanceGraph}

theorem plain_of_ascii {s : Str} (h : IsAscii s) : Plain s := fun c hc =>
  isSurrogate_of_lt (lt_trans (h c hc) (by decide))

theorem edgeBytes_ok {r : Str × Str × Str} (hs : Plain r.1) (ht : Plain r.2.1) (hk : Plain r.2.2) :
    ∃ bs, ProvenanceGraph.edgeBytes r = .ok bs := by
  obtain ⟨s, hs⟩ := utf8Encode_of_plain hs
  obtain ⟨t, ht⟩ := utf8Encode_of_plain ht
  obtain ⟨k, hk⟩ := utf8Encode_of_plain hk
  unfold ProvenanceGraph.edgeBytes
  rw [hs, ht, hk]
  exact ⟨_, rfl⟩

theorem plain_edgeKind (k : EdgeKind) : Plain k.value := by
  cases k <;> exact plain_txt _

namespace ProvenanceGraph

theorem mem_edgeRecords (g : ProvenanceGraph) (r : Str × Str × Str) :
    r ∈ g.edgeRecords ↔ ∃ x, ∃ e ∈ g.outs x, r = (x, e.target, e.kind.value) := by
  unfold edgeRecords
  rw [List.mem_insertionSort, List.mem_flatMap]
  constructor
  · intro ⟨entry, hentry, hr⟩
    obtain ⟨e, he, rfl⟩ := List.mem_map.mp hr
    refine ⟨entry.1, e, ?_, rfl⟩
    unfold outs
    rw [(Dict.get?_eq_some_iff _ entry.1 entry.2).mpr hentry]
    exact he
  · intro ⟨x, e, he, hr⟩
    unfold outs at he
    cases hget : g.outEdges.get? x with
    | none =>
      rw [hget] at he
      cases he
    | some es =>
      rw [hget] at he
      exact ⟨(x, es), (Dict.get?_eq_some_iff _ x es).mp hget, List.mem_map.mpr ⟨e, he, hr.symm⟩⟩

theorem GraphInv.fingerprint_ok (h : GraphInv g) (hids : ∀ x ∈ g.nodes.keys, Plain x) :
    ∃ fp, g.fingerprint = .ok fp ∧ fp.length = 64 ∧ Plain fp := by
  obtain ⟨edges, hedges⟩ : ∃ edges, g.edgeRecords.mapM edgeBytes = .ok edges := mapM_ok_of_forall (by
    intro r hr
    obtain ⟨x, e, he, rfl⟩ := (mem_edgeRecords g r).mp hr
    obtain ⟨hs, ht⟩ := h.endpoints x e he
    rw [h.out_source x e he] at hs
    exact edgeBytes_ok (hids x hs) (hids e.target ht) (plain_edgeKind e.kind))
  unfold fingerprint fingerprintInput
  rw [hedges]
  refine ⟨_, rfl, ?_, plain_of_ascii (hex_ascii _)⟩
  rw [hex_length, (sha256 _).length_eq]

def FlowEdge (g : ProvenanceGraph) (a : Str) (k : EdgeKind) (b : Str) : Prop :=
  (⟨a, b, k⟩ : Edge) ∈ g.outRecords ∧ k ≠ .counterfactual

theorem GraphInv.flowEdge_iff_outs (h : GraphInv g) (a b : Str) (k : EdgeKind) :
    g.FlowEdge a k b ↔ (⟨a, b, k⟩ : Edge) ∈ g.outs a ∧ k ≠ .counterfactual := by
  refine and_congr_left fun _ => (mem_records g.outEdges _).trans
    ⟨fun ⟨x, he⟩ => ?_, fun he => ⟨a, he⟩⟩
  have hx : a = x := h.out_source x _ he
  rw [hx]
  exact hx ▸ he

theorem GraphInv.mem_dataFlowInEdges (h : GraphInv g) (a b : Str) (k : EdgeKind) :
    (a, k) ∈ g.dataFlowInEdges b ↔ g.FlowEdge a k b := by
  rw [h.flowEdge_iff_outs, h.mirror ⟨a, b, k⟩]
  unfold dataFlowInEdges
  by_cases hb : g.hasNode b = true
  · rw [if_pos hb, List.mem_insertionSort, List.mem_map]
    constructor
    · intro ⟨e, he, hpair⟩
      obtain ⟨hin, hflow⟩ := List.mem_filter.mp he
      have htarget := h.in_target b e hin
      obtain ⟨rfl, rfl⟩ := Prod.mk.inj hpair
      subst htarget
      exact ⟨hin, by simpa [isFlow] using hflow⟩
    · intro ⟨hin, hflow⟩
      exact ⟨⟨a, b, k⟩, List.mem_filter.mpr ⟨hin, by simpa [isFlow] using hflow⟩, rfl⟩
  · rw [if_neg hb]
    rw [hasNode_iff] at hb
    refine ⟨fun he => absurd he List.not_mem_nil, fun he => absurd ?_ hb⟩
    exact (h.endpoints a ⟨a, b, k⟩ ((h.mirror ⟨a, b, k⟩).mpr he.1)).2

theorem GraphInv.flowEdge_nodes (h : GraphInv g) {a b : Str} {k : EdgeKind} (he : g.FlowEdge a k b) :
    a ∈ g.nodes.keys ∧ b ∈ g.nodes.keys :=
  h.endpoints a _ ((h.flowEdge_iff_outs a b k).mp he).1

theorem GraphInv.hasEdge_of_flowEdge (h : GraphInv g) {a b : Str} {k : EdgeKind}
    (he : g.FlowEdge a k b) : g.hasEdge a b k = true := by
  obtain ⟨ha, hb⟩ := h.flowEdge_nodes he
  unfold hasEdge
  rw [(hasNode_iff a).mpr ha, (hasNode_iff b).mpr hb, Bool.true_and, Bool.true_and, List.any_eq_true]
  exact ⟨_, ((h.flowEdge_iff_outs a b k).mp he).1, by simp⟩

theorem GraphInv.flowEdge_of_hasEdge (h : GraphInv g) {a b : Str} {k : EdgeKind}
    (he : g.hasEdge a b k = true) (hk : k ≠ .counterfactual) : g.FlowEdge a k b := by
  unfold hasEdge at he
  rw [Bool.and_eq_true, List.any_eq_true] at he
  obtain ⟨-, e, hmem, hmatch⟩ := he
  have hsource := h.out_source a e hmem
  simp only [Bool.and_eq_true, decide_eq_true_eq] at hmatch
  obtain ⟨rfl, rfl⟩ := hmatch
  subst hsource
  exact (h.flowEdge_iff_outs _ _ _).mpr ⟨hmem, hk⟩

end ProvenanceGraph

open ProvenanceGraph

theorem FlowProof.make_ok {p q : FlowProof} (h : p.make = .ok q) : q = p := by
  unfold FlowProof.make at h
  split at h
  · exact (Except.ok.inj h).symm
  · cases h

theorem FlowWitness.make_ok {w v : FlowWitness} (h : w.make = .ok v) : v = w := by
  unfold FlowWitness.make at h
  split at h
  · exact (Except.ok.inj h).symm
  · cases h

theorem stepFor_ok {hop : Str × Option EdgeKind} {step : FlowStep} (h : stepFor g hop = .ok step) :
    step.nodeId = hop.1 ∧ step.edgeKindToNext = hop.2 ∧ stepMatches g step = true := by
  unfold stepFor at h
  cases hnode : g.nodes.get? hop.1 with
  | none =>
    rw [hnode] at h
    cases h
  | some node =>
    rw [hnode] at h
    simp only [FlowStep.make] at h
    split at h
    · cases h
      refine ⟨rfl, rfl, ?_⟩
      unfold stepMatches
      rw [hnode]
      cases hlabel : node.label with
      | none => simp [hlabel]
      | some label => simp [hlabel]
    · cases h

theorem forbidProof_ok {P : FlowProperty} {sinkId sinkAction fp sourceId : Str}
    {next : Dict Str (Str × EdgeKind)} {r : FlowProof}
    (h : forbidProof g P sinkId sinkAction fp sourceId next = .ok r) :
    r.verdict = .forbid ∧ r.propertyStatement = P.statement sinkId ∧ r.sinkId = sinkId ∧
      r.sinkClearance = P.clearance ∧ r.graphFingerprint = fp ∧
      ∃ steps label, reconstructSteps g sourceId sinkId next = .ok steps ∧
        (g.nodes.get? sourceId).bind Node.label = some label ∧
        r.witness = some ⟨sourceId, sinkId, label.confidentiality, steps⟩ := by
  unfold forbidProof at h
  obtain ⟨steps, hsteps, h⟩ := bind_ok h
  cases hlabel : (g.nodes.get? sourceId).bind Node.label with
  | none =>
    rw [hlabel] at h
    cases h
  | some label =>
    rw [hlabel] at h
    obtain ⟨w, hw, h⟩ := bind_ok h
    have hw := FlowWitness.make_ok hw
    have hr := FlowProof.make_ok h
    subst hw
    subst hr
    exact ⟨rfl, rfl, rfl, rfl, rfl, steps, label, hsteps, rfl, rfl⟩

def isSource (g : ProvenanceGraph) (offends : IfcLabel → Bool) (sinkId id : Str) : Bool :=
  id ≠ sinkId && isOffending g offends id

theorem isSource_iff {offends : IfcLabel → Bool} {sinkId id : Str} :
    isSource g offends sinkId id = true ↔ id ≠ sinkId ∧ isOffending g offends id = true := by
  unfold isSource
  rw [Bool.and_eq_true, decide_eq_true_eq]

theorem checkFlow_cases (h : GraphInv g) (P : FlowProperty) {sinkId : Str} (sinkAction : Str)
    {fp : Str} (hfp : g.fingerprint = .ok fp) (hsink : sinkId ∈ g.nodes.keys) :
    ((∀ x ps, isSource g P.offends sinkId x = true → ¬ Walk g.FlowEdge x ps sinkId) ∧
      checkFlow g P sinkId sinkAction = FlowProof.make
        { propertyStatement := P.statement sinkId, verdict := .holds, sinkId, sinkAction,
          sinkClearance := P.clearance, graphFingerprint := fp, checkedNodeCount := g.nodeCount,
          checkedEdgeCount := g.edgeCount, proofKind := txt "exhaustive_replay", witness := none }) ∨
    ∃ x ps next, isSource g P.offends sinkId x = true ∧ Walk g.FlowEdge x ps sinkId ∧
      (∀ y qs, isSource g P.offends sinkId y = true → Walk g.FlowEdge y qs sinkId →
        ps.length ≤ qs.length) ∧
      trail sinkId next (g.nodeCount + 1) x = ps.map (fun p => (p.1, some p.2)) ++ [(sinkId, none)] ∧
      checkFlow g P sinkId sinkAction = forbidProof g P sinkId sinkAction fp x next := by
  have hedge : (fun a k b => (a, k) ∈ g.dataFlowInEdges b) = g.FlowEdge := by
    funext a k b
    exact propext (h.mem_dataFlowInEdges a b k)
  have hlen : g.nodes.keys.length = g.nodeCount := List.length_map _
  have hpreds : ∀ y ∈ g.nodes.keys, ∀ p ∈ g.dataFlowInEdges y, p.1 ∈ g.nodes.keys :=
    fun y _ p hp => (h.flowEdge_nodes ((h.mem_dataFlowInEdges p.1 y p.2).mp hp)).1
  have hexact := search_exact (isSource g P.offends sinkId) hpreds hsink
  rw [hedge, hlen] at hexact
  unfold checkFlow
  rw [hfp, (hasNode_iff sinkId).mpr hsink]
  simp only [liftPython, bind, Except.bind, Bool.true_eq_false, if_false]
  change (_ ∧ _) ∨ ∃ x ps next, isSource g P.offends sinkId x = true ∧ _
  rcases hexact with ⟨next, hsearch, hnone⟩ | ⟨x, next, ps, hsearch, hsought, -, hwalk, hmin, htrail⟩
  · refine .inl ⟨fun x ps hx hwalk => ?_, ?_⟩
    · rw [hnone x ps hwalk] at hx
      cases hx
    · unfold isSource at hsearch
      rw [hsearch]
  · refine .inr ⟨x, ps, next, hsought, hwalk, hmin, htrail _ (by omega), ?_⟩
    unfold isSource at hsearch
    rw [hsearch]

theorem walk_head {x z : Str} {ps : List (Str × EdgeKind)} (hwalk : Walk g.FlowEdge x ps z) :
    ∃ k rest, ps.map (fun p => (p.1, some p.2)) ++ [(z, none)] = (x, k) :: rest := by
  cases hwalk with
  | nil => exact ⟨none, [], rfl⟩
  | @cons _ _ _ k ps hedge hrest => exact ⟨some k, _, rfl⟩

theorem stepsVerify_of_walk (h : GraphInv g) {x z : Str} {ps : List (Str × EdgeKind)}
    (hwalk : Walk g.FlowEdge x ps z) {steps : List FlowStep}
    (hsteps : List.Forall₂ (fun hop step => stepFor g hop = .ok step)
      (ps.map (fun p => (p.1, some p.2)) ++ [(z, none)]) steps) : stepsVerify g steps = true := by
  induction hwalk generalizing steps with
  | nil z =>
    obtain ⟨step, rest, hstep, hrest, rfl⟩ := List.forall₂_cons_left_iff.mp hsteps
    rw [List.forall₂_nil_left_iff] at hrest
    subst hrest
    obtain ⟨-, hkind, hmatch⟩ := stepFor_ok hstep
    unfold stepsVerify
    rw [hmatch, hkind]
    rfl
  | @cons x y z k ps hedge hwalk ih =>
    obtain ⟨k', more, hhead⟩ := walk_head hwalk
    obtain ⟨step, rest, hstep, hrest, rfl⟩ := List.forall₂_cons_left_iff.mp hsteps
    have hverify := ih hrest
    have hrest' : List.Forall₂ (fun hop step => stepFor g hop = .ok step) ((y, k') :: more) rest :=
      hhead ▸ hrest
    obtain ⟨next, rest', hnext, -, rfl⟩ := List.forall₂_cons_left_iff.mp hrest'
    obtain ⟨hid, hkind, hmatch⟩ := stepFor_ok hstep
    obtain ⟨hid', -, -⟩ := stepFor_ok hnext
    have hcf := ((h.flowEdge_iff_outs x y k).mp hedge).2
    unfold stepsVerify
    rw [hmatch, hkind, hid, hid', hverify]
    simp [h.hasEdge_of_flowEdge hedge, hcf]

theorem hops_mem (h : GraphInv g) {x z : Str} {ps : List (Str × EdgeKind)} (hz : z ∈ g.nodes.keys)
    (hwalk : Walk g.FlowEdge x ps z) :
    ∀ hop ∈ ps.map (fun p => (p.1, some p.2)) ++ [(z, (none : Option EdgeKind))],
      hop.1 ∈ g.nodes.keys := by
  induction hwalk with
  | nil z =>
    intro hop hmem
    rw [List.map_nil, List.nil_append, List.mem_singleton] at hmem
    rw [hmem]
    exact hz
  | cons hedge _ ih =>
    intro hop hmem
    rw [List.map_cons, List.cons_append, List.mem_cons] at hmem
    rcases hmem with rfl | hmem
    · exact (h.flowEdge_nodes hedge).1
    · exact ih hz hop hmem

theorem stepFor_total {hop : Str × Option EdgeKind} (hmem : hop.1 ∈ g.nodes.keys)
    (hfield : isField 300 hop.1) : ∃ step, stepFor g hop = .ok step := by
  unfold stepFor
  cases hnode : g.nodes.get? hop.1 with
  | none => exact absurd hmem ((Dict.get?_eq_none_iff _ _).mp hnode)
  | some node => exact ⟨_, if_pos hfield⟩

theorem isOffending_cases {offends : IfcLabel → Bool} {id : Str}
    (h : isOffending g offends id = true) :
    ∃ node label, g.nodes.get? id = some node ∧ node.kind.isData = true ∧ node.label = some label ∧
      offends label = true := by
  unfold isOffending at h
  cases hnode : g.nodes.get? id with
  | none =>
    rw [hnode] at h
    cases h
  | some node =>
    rw [hnode] at h
    simp only [Bool.and_eq_true] at h
    cases hlabel : node.label with
    | none =>
      rw [hlabel] at h
      exact absurd h.2 (by simp)
    | some label =>
      rw [hlabel] at h
      exact ⟨node, label, rfl, h.1, hlabel, h.2⟩

theorem isOffending_of {offends : IfcLabel → Bool} {id : Str} {node : Node} {label : IfcLabel}
    (hnode : g.nodes.get? id = some node) (hkind : node.kind.isData = true)
    (hlabel : node.label = some label) (hoff : offends label = true) :
    isOffending g offends id = true := by
  unfold isOffending
  rw [hnode]
  simp only [hkind, hlabel, hoff, Bool.and_self]

structure Recognised (P : FlowProperty) : Prop where
  field : ∀ s, isField 300 s → isField 400 (P.statement s)
  property : ∀ proof : FlowProof, proof.propertyStatement = P.statement proof.sinkId →
    proof.sinkClearance = P.clearance →
    ∃ b, proofIsIntegrity proof = some b ∧ proofProperty proof b = P

theorem recognised_conf (clearance : ConfidentialityLevel) : Recognised (confProperty clearance) := by
  refine ⟨fun s hs => ?_, fun proof hstatement hclearance => ⟨false, ?_, ?_⟩⟩
  · have hlabel : clearance.label.length ≤ 12 ∧ Plain clearance.label := by
      cases clearance <;> exact ⟨by decide, plain_txt _⟩
    refine ⟨?_, ?_, ?_⟩
    · exact List.append_ne_nil_of_right_ne_nil _ (by decide)
    · have hlen := hs.2.1
      simp only [confProperty, confStatement, confPropertyPrefix, List.length_append]
      have h1 : (txt "no_confidentiality>").length = 19 := by decide
      have h2 : (txt "_nondeclassifiable_datum_reaches[").length = 33 := by decide
      have h3 : (txt "]").length = 1 := by decide
      omega
    · exact ((((plain_txt _).append hlabel.2).append (plain_txt _)).append hs.2.2).append (plain_txt _)
  · unfold proofIsIntegrity
    rw [hstatement]
    have hinteg : integPropertyPrefix.isPrefixOf ((confProperty clearance).statement proof.sinkId) =
        false := rfl
    have hconf : confPropertyPrefix.isPrefixOf ((confProperty clearance).statement proof.sinkId) =
        true := rfl
    rw [hinteg, hconf]
    rfl
  · unfold proofProperty
    rw [hclearance]
    rfl

theorem recognised_integ : Recognised integProperty := by
  refine ⟨fun s hs => ?_, fun proof hstatement _ => ⟨true, ?_, rfl⟩⟩
  · refine ⟨?_, ?_, ?_⟩
    · exact List.append_ne_nil_of_right_ne_nil _ (by decide)
    · have hlen := hs.2.1
      simp only [integProperty, integStatement, integPropertyPrefix, List.length_append]
      have h1 : (txt "no_untrusted_integrity_datum_reaches_privileged[").length = 48 := by decide
      have h2 : (txt "]").length = 1 := by decide
      omega
    · exact ((plain_txt _).append hs.2.2).append (plain_txt _)
  · unfold proofIsIntegrity
    rw [hstatement]
    have hinteg : integPropertyPrefix.isPrefixOf (integProperty.statement proof.sinkId) = true := rfl
    rw [hinteg]
    rfl

theorem verifyFlowProof_eq {P : FlowProperty} (hP : Recognised P) {proof : FlowProof}
    (hfp : g.fingerprint = .ok proof.graphFingerprint)
    (hstatement : proof.propertyStatement = P.statement proof.sinkId)
    (hclearance : proof.sinkClearance = P.clearance) :
    verifyFlowProof g proof =
      match proof.verdict with
      | .holds =>
        match checkFlow g P proof.sinkId proof.sinkAction with
        | .ok recheck => proof.witness.isNone && recheck.verdict = .holds &&
            recheck.propertyStatement = proof.propertyStatement
        | .error _ => false
      | .forbid =>
        match proof.witness with
        | none => false
        | some witness => witnessVerifies g P proof witness := by
  obtain ⟨b, hb, hproperty⟩ := hP.property proof hstatement hclearance
  unfold verifyFlowProof verifyBody
  rw [hfp]
  simp only [liftPython, hb, hproperty, hstatement]
  simp only [bind, Except.bind, ne_eq, not_true_eq_false, if_false]
  cases hverdict : proof.verdict with
  | holds =>
    simp only
    cases hwitness : proof.witness with
    | some w =>
      simp only [Option.isSome_some, if_true]
      cases checkFlow g P proof.sinkId proof.sinkAction with
      | ok r => rfl
      | error e => rfl
    | none =>
      simp only [Option.isSome_none, Bool.false_eq_true, if_false]
      cases checkFlow g P proof.sinkId proof.sinkAction with
      | ok r => rfl
      | error e => rfl
  | forbid =>
    simp only
    cases hwitness : proof.witness with
    | none => rfl
    | some w => rfl

/-- A non-empty data-flow path from an offending source to the sink. -/
def OffendingPath (g : ProvenanceGraph) (P : FlowProperty) (sinkId x : Str)
    (ps : List (Str × EdgeKind)) : Prop :=
  ps ≠ [] ∧ isOffending g P.offends x = true ∧ Walk g.FlowEdge x ps sinkId

def IsWitness (proof : FlowProof) (sinkId x : Str) (ps : List (Str × EdgeKind)) : Prop :=
  ∃ w, proof.witness = some w ∧ w.sourceId = x ∧
    w.steps.map (fun step => (step.nodeId, step.edgeKindToNext)) =
      ps.map (fun p => (p.1, some p.2)) ++ [(sinkId, none)]

structure ExactCheck (g : ProvenanceGraph) (P : FlowProperty) (sinkId : Str) (proof : FlowProof) :
    Prop where
  verdict : proof.verdict = .forbid ↔ ∃ x ps, OffendingPath g P sinkId x ps
  witness : proof.verdict = .forbid → ∃ x ps, OffendingPath g P sinkId x ps ∧
    IsWitness proof sinkId x ps ∧ ∀ y qs, OffendingPath g P sinkId y qs → ps.length ≤ qs.length
  accepted : verifyFlowProof g proof = true

theorem walk_ne_nil {x z : Str} {ps : List (Str × EdgeKind)} (hne : x ≠ z)
    (hwalk : Walk g.FlowEdge x ps z) : ps ≠ [] := by
  cases hwalk with
  | nil => exact absurd rfl hne
  | cons _ _ => exact List.cons_ne_nil _ _

theorem steps_eq_hops {hops : List (Str × Option EdgeKind)} {steps : List FlowStep}
    (h : List.Forall₂ (fun hop step => stepFor g hop = .ok step) hops steps) :
    steps.map (fun step => (step.nodeId, step.edgeKindToNext)) = hops := by
  induction h with
  | nil => rfl
  | cons hstep _ ih =>
    obtain ⟨hid, hkind, -⟩ := stepFor_ok hstep
    rw [List.map_cons, ih, hid, hkind]

theorem head_of_hops {steps : List FlowStep} {x z : Str} {ps : List (Str × EdgeKind)}
    (hwalk : Walk g.FlowEdge x ps z)
    (h : steps.map (fun step => (step.nodeId, step.edgeKindToNext)) =
      ps.map (fun p => (p.1, some p.2)) ++ [(z, none)]) :
    steps.head?.map FlowStep.nodeId = some x ∧ steps.getLast?.map FlowStep.nodeId = some z := by
  obtain ⟨k, rest, hhead⟩ := walk_head hwalk
  refine ⟨?_, ?_⟩
  · have hfirst := congrArg List.head? h
    rw [hhead, List.head?_map, List.head?_cons] at hfirst
    obtain ⟨step, hstep, hpair⟩ := Option.map_eq_some_iff.mp hfirst
    rw [hstep, Option.map_some, (Prod.mk.inj hpair).1]
  · have hlast := congrArg List.getLast? h
    rw [List.getLast?_map, List.getLast?_append, List.getLast?_singleton, Option.some_or] at hlast
    obtain ⟨step, hstep, hpair⟩ := Option.map_eq_some_iff.mp hlast
    rw [hstep, Option.map_some, (Prod.mk.inj hpair).1]

theorem checkFlow_exact (h : GraphInv g) (hids : ∀ x ∈ g.nodes.keys, isField 300 x)
    {P : FlowProperty} (hP : Recognised P) {sinkId sinkAction : Str} {sink : Node}
    (hsink : g.nodes.get? sinkId = some sink) (hcall : sink.kind = .call)
    (haction : fitsField 200 sinkAction) :
    ∃ proof, checkFlow g P sinkId sinkAction = .ok proof ∧ ExactCheck g P sinkId proof := by
  obtain ⟨fp, hfp, hlen, hplain⟩ := h.fingerprint_ok fun x hx => (hids x hx).2.2
  have hmem : sinkId ∈ g.nodes.keys := by
    by_contra hnot
    rw [(Dict.get?_eq_none_iff _ _).mpr hnot] at hsink
    cases hsink
  have hfield := hids sinkId hmem
  -- the sink is a call, so it is no source itself
  have hne : ∀ x, isOffending g P.offends x = true → x ≠ sinkId := by
    intro x hx heq
    obtain ⟨node, label, hnode, hdata, -⟩ := isOffending_cases hx
    rw [heq, hsink] at hnode
    cases hnode
    rw [hcall] at hdata
    cases hdata
  have hpath : ∀ x ps, OffendingPath g P sinkId x ps ↔
      isSource g P.offends sinkId x = true ∧ Walk g.FlowEdge x ps sinkId := by
    intro x ps
    rw [isSource_iff]
    refine ⟨fun hp => ⟨⟨hne x hp.2.1, hp.2.1⟩, hp.2.2⟩, fun hp => ?_⟩
    exact ⟨walk_ne_nil hp.1.1 hp.2, hp.1.2, hp.2⟩
  rcases checkFlow_cases h P sinkAction hfp hmem with
    ⟨hnone, hcheck⟩ | ⟨x, ps, next, hsource, hwalk, hmin, htrail, hcheck⟩
  · have hkind : isField 40 (txt "exhaustive_replay") := ⟨by decide, by decide, plain_txt _⟩
    have hmake := hcheck.trans (if_pos ⟨hP.field _ hfield, hfield, haction, hlen, hplain, hkind⟩)
    refine ⟨_, hmake, ⟨fun hv => (by cases hv), fun ⟨x, ps, hp⟩ => ?_⟩, fun hv => (by cases hv), ?_⟩
    · exact absurd ((hpath x ps).mp hp).2 (hnone x ps ((hpath x ps).mp hp).1)
    · rw [verifyFlowProof_eq hP hfp rfl rfl, hmake]
      simp
  · have hoff := ((hpath x ps).mpr ⟨hsource, hwalk⟩)
    obtain ⟨node, label, hnode, hdata, hlabel, hbad⟩ := isOffending_cases hoff.2.1
    have hhops := hops_mem h hmem hwalk
    obtain ⟨steps, hsteps⟩ : ∃ steps,
        (ps.map (fun p : Str × EdgeKind => (p.1, some p.2)) ++ [(sinkId, none)]).mapM (stepFor g) =
          .ok steps :=
      mapM_ok_of_forall fun hop hhop => stepFor_total (hhops hop hhop) (hids hop.1 (hhops hop hhop))
    have hforall := (mapM_ok_iff _ _ _).mp hsteps
    have hmap := steps_eq_hops hforall
    have hxfield : isField 300 x := by
      obtain ⟨k, rest, hhead⟩ := walk_head hwalk
      exact hids x (hhops (x, k) (hhead ▸ List.mem_cons_self))
    have htwo : 2 ≤ steps.length := by
      have hlength := congrArg List.length hmap
      rw [List.length_map, List.length_append, List.length_map, List.length_singleton] at hlength
      have hpos := List.length_pos_of_ne_nil hoff.1
      omega
    have hforbid : forbidProof g P sinkId sinkAction fp x next =
        .ok { propertyStatement := P.statement sinkId, verdict := .forbid, sinkId, sinkAction,
              sinkClearance := P.clearance, graphFingerprint := fp, checkedNodeCount := g.nodeCount,
              checkedEdgeCount := g.edgeCount, proofKind := txt "witness_path",
              witness := some ⟨x, sinkId, label.confidentiality, steps⟩ } := by
      unfold forbidProof reconstructSteps
      rw [htrail, hsteps, hnode]
      simp only [Option.bind_some, hlabel]
      change (FlowWitness.make _ >>= _) = _
      unfold FlowWitness.make
      rw [if_pos ⟨hxfield, hfield, htwo⟩]
      have hkind : isField 40 (txt "witness_path") := ⟨by decide, by decide, plain_txt _⟩
      exact if_pos ⟨hP.field _ hfield, hfield, haction, hlen, hplain, hkind⟩
    refine ⟨_, hcheck.trans hforbid, ⟨fun _ => ⟨x, ps, hoff⟩, fun _ => rfl⟩,
      fun _ => ⟨x, ps, hoff, ⟨_, rfl, rfl, hmap⟩, fun y qs hq => ?_⟩, ?_⟩
    · exact hmin y qs ((hpath y qs).mp hq).1 ((hpath y qs).mp hq).2
    · rw [verifyFlowProof_eq hP hfp rfl rfl]
      obtain ⟨hfirst, hlast⟩ := head_of_hops hwalk hmap
      simp only [witnessVerifies, hfirst, hlast, hsink, hcall, hnode, hdata, hlabel, hbad,
        stepsVerify_of_walk h hwalk hforall, htwo]
      simp

/-- Both checks, over every graph that is built without passing an id twice and
whose ids fit the fields of a proof. -/
theorem flow_checks_exact (ops : List GraphOp) (hops : FreshRun empty ops)
    (hids : ∀ x ∈ (empty.run ops).nodes.keys, isField 300 x) (sinkId : Str) (sink : Node)
    (hsink : (empty.run ops).nodes.get? sinkId = some sink) (hcall : sink.kind = .call)
    (clearance : ConfidentialityLevel) (sinkAction : Str) (haction : fitsField 200 sinkAction) :
    (∃ proof, checkNoninterference (empty.run ops) sinkId clearance sinkAction = .ok proof ∧
      ExactCheck (empty.run ops) (confProperty clearance) sinkId proof) ∧
    ∃ proof, checkIntegrityEgress (empty.run ops) sinkId sinkAction = .ok proof ∧
      ExactCheck (empty.run ops) integProperty sinkId proof := by
  obtain ⟨h, -⟩ := graphInv_empty.run (graphInv_empty.safeRun_of_freshRun hops)
  exact ⟨checkFlow_exact h hids (recognised_conf clearance) hsink hcall haction,
    checkFlow_exact h hids recognised_integ hsink hcall haction⟩

theorem flow_checks_exact_secretFlow :
    (∃ proof, checkNoninterference (empty.run secretFlow) (txt "c") .internal [] = .ok proof ∧
      ExactCheck (empty.run secretFlow) (confProperty .internal) (txt "c") proof) ∧
    ∃ proof, checkIntegrityEgress (empty.run secretFlow) (txt "c") [] = .ok proof ∧
      ExactCheck (empty.run secretFlow) integProperty (txt "c") proof :=
  flow_checks_exact secretFlow secretFlow_fresh (by decide) (txt "c")
    ⟨.call, txt "send", none⟩ (by decide) rfl .internal [] (by decide)

def surrogateId : Str := [0xd800]

def surrogateFlow : List GraphOp :=
  [.addData (txt "payroll") secretLabel (some surrogateId) [],
    .addCall (txt "send") (some (txt "c")) [] true, .addEdge surrogateId (txt "c") .inputTo]

theorem surrogateFlow_fresh : FreshRun empty surrogateFlow := by
  refine ⟨fun id hid => ?_, fun id hid => ?_, fun id hid => ?_, trivial⟩
  · cases hid
    decide
  · cases hid
    decide
  · cases hid

/-- The secret reaches the call, but the fingerprint cannot encode its id and
the check raises. -/
theorem surrogate_id_raises :
    FreshRun empty surrogateFlow ∧
      (∀ x ∈ (empty.run surrogateFlow).nodes.keys, 1 ≤ x.length ∧ x.length ≤ 300) ∧
      ((empty.run surrogateFlow).nodes.get? (txt "c")).map Node.kind = some .call ∧
      OffendingPath (empty.run surrogateFlow) (confProperty .internal) (txt "c") surrogateId
        [(surrogateId, .inputTo)] ∧
      ∀ proof, checkNoninterference (empty.run surrogateFlow) (txt "c") .internal [] ≠ .ok proof := by
  refine ⟨surrogateFlow_fresh, by decide, by decide,
    ⟨by decide, by decide, .cons ⟨by decide, by decide⟩ (.nil _)⟩, fun proof h => ?_⟩
  obtain ⟨fp, hfp, -⟩ := bind_ok h
  have herror : (liftPython (empty.run surrogateFlow).fingerprint).isOk = false := by decide
  rw [hfp] at herror
  cases herror

end TexGovernance.Ifc
