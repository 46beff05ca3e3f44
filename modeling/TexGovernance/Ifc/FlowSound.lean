import TexGovernance.Ifc.FlowExact

/-!
# The verifier is sound

A proof that the verifier accepts has the right verdict, whoever wrote it: a FORBID shows a path
in its steps, a HOLDS is checked again.
-/

namespace TexGovernance.Ifc
open PyStr PyDict GraphSearch Pipeline ProvenanceGraph

variable {g : ProvenanceGraph}

/-- The property that the statement of a proof names. -/
def statedProperty (proof : FlowProof) : Option FlowProperty :=
  (proofIsIntegrity proof).map (proofProperty proof)

theorem statedProperty_recognised {proof : FlowProof} {P : FlowProperty}
    (h : statedProperty proof = some P) : P = integProperty ∨ P = confProperty proof.sinkClearance := by
  unfold statedProperty at h
  obtain ⟨b, -, rfl⟩ := Option.map_eq_some_iff.mp h
  cases b with
  | true => exact .inl rfl
  | false => exact .inr rfl

theorem verifyFlowProof_cases {proof : FlowProof} (h : verifyFlowProof g proof = true) :
    ∃ P, statedProperty proof = some P ∧ P.statement proof.sinkId = proof.propertyStatement ∧
      ((proof.verdict = .holds ∧ ∃ recheck, checkFlow g P proof.sinkId proof.sinkAction = .ok recheck ∧
          recheck.verdict = .holds) ∨
        (proof.verdict = .forbid ∧ ∃ w, proof.witness = some w ∧
          witnessVerifies g P proof w = true)) := by
  unfold verifyFlowProof at h
  cases hbody : verifyBody g proof with
  | error e =>
    rw [hbody] at h
    cases h
  | ok accepted =>
    rw [hbody] at h
    have h : accepted = true := h
    subst h
    unfold verifyBody at hbody
    obtain ⟨fp, -, hbody⟩ := bind_ok hbody
    split at hbody
    · cases hbody
    unfold statedProperty
    cases hkind : proofIsIntegrity proof with
    | none =>
      rw [hkind] at hbody
      cases hbody
    | some b =>
      rw [hkind] at hbody
      simp only at hbody
      split at hbody
      · cases hbody
      rename_i hstatement
      refine ⟨_, rfl, not_not.mp hstatement, ?_⟩
      cases hverdict : proof.verdict with
      | holds =>
        rw [hverdict] at hbody
        simp only at hbody
        split at hbody
        · cases hbody
        obtain ⟨recheck, hcheck, hend⟩ := bind_ok hbody
        have hend := Except.ok.inj hend
        rw [Bool.and_eq_true, decide_eq_true_eq] at hend
        exact .inl ⟨rfl, recheck, hcheck, hend.1⟩
      | forbid =>
        rw [hverdict] at hbody
        simp only at hbody
        cases hwitness : proof.witness with
        | none =>
          rw [hwitness] at hbody
          cases hbody
        | some w =>
          rw [hwitness] at hbody
          exact .inr ⟨rfl, w, rfl, Except.ok.inj hbody⟩

theorem walk_of_stepsVerify (h : GraphInv g) {steps : List FlowStep} {x z : Str}
    (hsteps : stepsVerify g steps = true) (hhead : steps.head?.map FlowStep.nodeId = some x)
    (hlast : steps.getLast?.map FlowStep.nodeId = some z) : ∃ ps, Walk g.FlowEdge x ps z := by
  induction steps generalizing x with
  | nil => cases hhead
  | cons step rest ih =>
    have hx : step.nodeId = x := Option.some.inj hhead
    cases rest with
    | nil =>
      have hz : step.nodeId = z := Option.some.inj hlast
      rw [← hx, ← hz]
      exact ⟨[], .nil _⟩
    | cons next rest =>
      rw [List.getLast?_cons_cons] at hlast
      unfold stepsVerify at hsteps
      rw [Bool.and_eq_true, Bool.and_eq_true] at hsteps
      obtain ⟨⟨-, hedge⟩, hrest⟩ := hsteps
      obtain ⟨ps, hwalk⟩ := ih hrest rfl hlast
      cases hkind : step.edgeKindToNext with
      | none =>
        rw [hkind] at hedge
        cases hedge
      | some k =>
        rw [hkind, Bool.and_eq_true, decide_eq_true_eq] at hedge
        rw [← hx]
        exact ⟨_, .cons (h.flowEdge_of_hasEdge hedge.2 hedge.1) hwalk⟩

theorem path_of_witness (h : GraphInv g) {P : FlowProperty} {proof : FlowProof} {w : FlowWitness}
    (hw : witnessVerifies g P proof w = true) :
    ∃ x ps, x ≠ proof.sinkId ∧ OffendingPath g P proof.sinkId x ps := by
  simp only [witnessVerifies, Bool.and_eq_true, decide_eq_true_eq] at hw
  obtain ⟨⟨⟨⟨⟨⟨-, hhead⟩, hlast⟩, -⟩, hsink⟩, hsource⟩, hsteps⟩ := hw
  obtain ⟨ps, hwalk⟩ := walk_of_stepsVerify h hsteps hhead hlast
  cases hsinknode : g.nodes.get? proof.sinkId with
  | none =>
    rw [hsinknode] at hsink
    cases hsink
  | some sink =>
    rw [hsinknode, decide_eq_true_eq] at hsink
    cases hnode : g.nodes.get? w.sourceId with
    | none =>
      rw [hnode] at hsource
      cases hsource
    | some source =>
      rw [hnode, Bool.and_eq_true] at hsource
      cases hlabel : source.label with
      | none =>
        rw [hlabel] at hsource
        exact absurd hsource.2 (by simp)
      | some label =>
        rw [hlabel, Bool.and_eq_true] at hsource
        have hne : w.sourceId ≠ proof.sinkId := by
          intro heq
          rw [heq, hsinknode] at hnode
          cases hnode
          have hdata := hsource.1
          rw [hsink] at hdata
          cases hdata
        exact ⟨w.sourceId, ps, hne, walk_ne_nil hne hwalk,
          isOffending_of hnode hsource.1 hlabel hsource.2.1, hwalk⟩

theorem no_path_of_holds (h : GraphInv g) {P : FlowProperty} {sinkId sinkAction : Str} {r : FlowProof}
    (hcheck : checkFlow g P sinkId sinkAction = .ok r) (hr : r.verdict = .holds) :
    ∀ x ps, x ≠ sinkId → ¬ OffendingPath g P sinkId x ps := by
  intro x ps hne hpath
  have hfp : ∃ fp, g.fingerprint = .ok fp := by
    unfold checkFlow at hcheck
    obtain ⟨fp, hfp, -⟩ := bind_ok hcheck
    unfold liftPython at hfp
    cases hg : g.fingerprint with
    | ok fp' => exact ⟨fp', rfl⟩
    | error e =>
      rw [hg] at hfp
      cases hfp
  obtain ⟨fp, hfp⟩ := hfp
  have hmem : sinkId ∈ g.nodes.keys := by
    obtain ⟨-, -, hwalk⟩ := hpath
    clear hcheck
    induction hwalk with
    | nil => exact absurd rfl hne
    | @cons a b z k ps hedge hrest ih =>
      by_cases hb : b = z
      · rw [← hb]
        exact (h.flowEdge_nodes hedge).2
      · exact ih hb
  rcases checkFlow_cases h P sinkAction hfp hmem with ⟨hnone, -⟩ | ⟨y, qs, next, -, -, -, -, hforbid⟩
  · exact hnone x ps (isSource_iff.mpr ⟨hne, hpath.2.1⟩) hpath.2.2
  · rw [hforbid] at hcheck
    rw [(forbidProof_ok hcheck).1] at hr
    cases hr

theorem accepted_verdict (h : GraphInv g) {proof : FlowProof} (hv : verifyFlowProof g proof = true) :
    ∃ P, statedProperty proof = some P ∧ P.statement proof.sinkId = proof.propertyStatement ∧
      (proof.verdict = .forbid ↔ ∃ x ps, x ≠ proof.sinkId ∧ OffendingPath g P proof.sinkId x ps) ∧
      (proof.verdict = .holds ↔ ¬ ∃ x ps, x ≠ proof.sinkId ∧ OffendingPath g P proof.sinkId x ps) := by
  obtain ⟨P, hstated, hstatement, hcases⟩ := verifyFlowProof_cases hv
  refine ⟨P, hstated, hstatement, ?_⟩
  rcases hcases with ⟨hverdict, recheck, hcheck, hholds⟩ | ⟨hverdict, w, -, hw⟩
  · have hnone := no_path_of_holds h hcheck hholds
    rw [hverdict]
    refine ⟨⟨fun hf => (by cases hf), fun ⟨x, ps, hne, hp⟩ => absurd hp (hnone x ps hne)⟩,
      fun _ ⟨x, ps, hne, hp⟩ => hnone x ps hne hp, fun _ => rfl⟩
  · have hpath := path_of_witness h hw
    rw [hverdict]
    exact ⟨⟨fun _ => hpath, fun _ => rfl⟩, fun hf => (by cases hf), fun hno => absurd hpath hno⟩

theorem integStatement_inj {s t : Str} (h : integStatement s = integStatement t) : s = t := by
  unfold integStatement at h
  rw [List.append_assoc, List.append_assoc] at h
  exact List.append_cancel_right (List.append_cancel_left h)

theorem label_inj {c d : ConfidentialityLevel} {u v : Str} (h : c.label ++ u = d.label ++ v) : c = d := by
  have hne : ∀ e : ConfidentialityLevel, e.label ≠ [] := by
    intro e
    cases e <;> decide
  have hhead := congrArg List.head? h
  rw [List.head?_append_of_ne_nil _ (hne c), List.head?_append_of_ne_nil _ (hne d)] at hhead
  cases c <;> cases d <;> first | rfl | exact absurd hhead (by decide)

theorem confStatement_inj {c d : ConfidentialityLevel} {s t : Str}
    (h : confStatement c s = confStatement d t) : c = d ∧ s = t := by
  unfold confStatement at h
  simp only [List.append_assoc] at h
  have h := List.append_cancel_left h
  have hlabel := label_inj h
  subst hlabel
  have h := List.append_cancel_left (List.append_cancel_left h)
  exact ⟨rfl, List.append_cancel_right h⟩

theorem statement_determines {p q : FlowProof} {P Q : FlowProperty} (hP : statedProperty p = some P)
    (hQ : statedProperty q = some Q) (hp : P.statement p.sinkId = p.propertyStatement)
    (hq : Q.statement q.sinkId = q.propertyStatement) (h : p.propertyStatement = q.propertyStatement) :
    P = Q ∧ p.sinkId = q.sinkId := by
  unfold statedProperty at hP hQ
  obtain ⟨b, hb, rfl⟩ := Option.map_eq_some_iff.mp hP
  obtain ⟨b', hb', rfl⟩ := Option.map_eq_some_iff.mp hQ
  have hsame : proofIsIntegrity p = proofIsIntegrity q := by
    unfold proofIsIntegrity
    rw [h]
  rw [hb, hb'] at hsame
  cases hsame
  rw [h, ← hq] at hp
  cases b with
  | true => exact ⟨rfl, integStatement_inj hp⟩
  | false =>
    obtain ⟨hclearance, hsink⟩ := confStatement_inj hp
    refine ⟨?_, hsink⟩
    unfold proofProperty
    rw [hclearance]

/-- Soundness against forged proofs: an accepted proof has the right verdict,
and two accepted proofs of one statement have the same one. -/
theorem accepted_proofs_sound (ops : List GraphOp) (hops : FreshRun empty ops) :
    (∀ proof, verifyFlowProof (empty.run ops) proof = true →
      ∃ P, statedProperty proof = some P ∧
        (P = integProperty ∨ P = confProperty proof.sinkClearance) ∧
        P.statement proof.sinkId = proof.propertyStatement ∧
        (proof.verdict = .forbid ↔
          ∃ x ps, x ≠ proof.sinkId ∧ OffendingPath (empty.run ops) P proof.sinkId x ps) ∧
        (proof.verdict = .holds ↔
          ¬ ∃ x ps, x ≠ proof.sinkId ∧ OffendingPath (empty.run ops) P proof.sinkId x ps)) ∧
    ∀ p q, verifyFlowProof (empty.run ops) p = true → verifyFlowProof (empty.run ops) q = true →
      p.propertyStatement = q.propertyStatement → p.verdict = q.verdict := by
  obtain ⟨h, -⟩ := graphInv_empty.run (graphInv_empty.safeRun_of_freshRun hops)
  refine ⟨fun proof hv => ?_, fun p q hp hq hsame => ?_⟩
  · obtain ⟨P, hstated, hstatement, hverdict⟩ := accepted_verdict h hv
    exact ⟨P, hstated, statedProperty_recognised hstated, hstatement, hverdict⟩
  · obtain ⟨P, hP, hstP, hforbidP, hholdsP⟩ := accepted_verdict h hp
    obtain ⟨Q, hQ, hstQ, hforbidQ, hholdsQ⟩ := accepted_verdict h hq
    obtain ⟨rfl, hsink⟩ := statement_determines hP hQ hstP hstQ hsame
    rw [← hsink] at hforbidQ hholdsQ
    cases hpv : p.verdict with
    | forbid => exact (hforbidQ.mpr (hforbidP.mp hpv)).symm
    | holds => exact (hholdsQ.mpr (hholdsP.mp hpv)).symm

theorem accepted_proofs_sound_secretFlow :
    FreshRun empty secretFlow ∧ ∀ p q, verifyFlowProof (empty.run secretFlow) p = true →
      verifyFlowProof (empty.run secretFlow) q = true →
      p.propertyStatement = q.propertyStatement → p.verdict = q.verdict :=
  ⟨secretFlow_fresh, (accepted_proofs_sound secretFlow secretFlow_fresh).2⟩

/-- A secret with an edge to itself. -/
def secretLoop : List GraphOp :=
  [.addData (txt "payroll") secretLabel (some (txt "d")) [], .addEdge (txt "d") (txt "d") .inputTo]

theorem secretLoop_fresh : FreshRun empty secretLoop := by
  refine ⟨fun id hid => ?_, fun id hid => ?_, trivial⟩
  · cases hid
    decide
  · cases hid

/-- With the secret itself as the sink the checker passes over it, so a HOLDS
proof is accepted although the secret lies on a path into the sink. -/
theorem holds_for_secret_sink :
    FreshRun empty secretLoop ∧
      OffendingPath (empty.run secretLoop) (confProperty .internal) (txt "d") (txt "d")
        [(txt "d", .inputTo)] ∧
      ∃ proof, checkNoninterference (empty.run secretLoop) (txt "d") .internal [] = .ok proof ∧
        proof.verdict = .holds ∧ statedProperty proof = some (confProperty .internal) ∧
        verifyFlowProof (empty.run secretLoop) proof = true := by
  have heval : ((checkNoninterference (empty.run secretLoop) (txt "d") .internal []).toOption.any
      fun proof => proof.verdict = .holds && (proofIsIntegrity proof = some false &&
        (proof.sinkClearance = .internal && verifyFlowProof (empty.run secretLoop) proof))) = true := by
    decide
  refine ⟨secretLoop_fresh, ⟨by decide, by decide, .cons ⟨by decide, by decide⟩ (.nil _)⟩,
    ?_⟩
  cases hcheck : checkNoninterference (empty.run secretLoop) (txt "d") .internal [] with
  | error e =>
    rw [hcheck] at heval
    cases heval
  | ok proof =>
    rw [hcheck] at heval
    simp only [Except.toOption, Option.any_some, Bool.and_eq_true, decide_eq_true_eq] at heval
    obtain ⟨hverdict, hkind, hclearance, hverify⟩ := heval
    refine ⟨proof, rfl, hverdict, ?_, hverify⟩
    unfold statedProperty proofProperty
    rw [hkind, hclearance]
    rfl

end TexGovernance.Ifc
