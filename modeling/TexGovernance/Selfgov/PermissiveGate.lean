import TexGovernance.Provenance.LedgerChain
import TexGovernance.Selfgov.GateLaw

/-!
# The gate under a policy decision point that permits everything

Where the facts of an attempt are a dict and can be written and asked about, the signatures
alone decide: the attempt is allowed if none fires.
-/

namespace TexGovernance.Selfgov
open PyStr PyRepr PyJson Actions
open Engine (Verdict)
open Governance (requiredField)

def PermitsEverything (binding : Binding) : Prop :=
  ∀ request, ∃ result, binding.pdp request = .answer result ∧ result.verdict = .permit

def field (items : List (Str × PyObj)) (key : Str) : PyObj := (items.lookup key).getD .none

section Signatures

variable {py : Interpreter} {descriptor : MutationDescriptor} {items : List (Str × PyObj)}

theorem orEmpty_ofItems (items : List (Str × PyObj)) :
    (Payload.ofItems items).orEmpty = .ok (Payload.ofItems items) := by
  cases items with
  | nil => rfl
  | cons m rest => rfl

def aimsAtGovernor (py : Interpreter) (mutationClass : Str) (items : List (Str × PyObj)) : Bool :=
  mutationClass = governorBinding ∨ strOr py (field items (txt "policy_id")) = governorPolicyId ∨
    strOr py (field items (txt "new_policy_id")) = governorPolicyId

theorem targetsGovernor_ofItems (mutationClass : Str) :
    targetsGovernor py mutationClass (.ofItems items) = .ok (aimsAtGovernor py mutationClass items) := by
  unfold targetsGovernor aimsAtGovernor
  by_cases hclass : mutationClass = governorBinding
  · simp [hclass, pure, Except.pure]
  by_cases hold : strOr py (field items (txt "policy_id")) = governorPolicyId
  · simp [hclass, hold, Payload.ofItems, field, pure, Except.pure, bind, Except.bind] at hold ⊢
  · simp [hclass, Payload.ofItems, field, pure, Except.pure, bind, Except.bind] at hold ⊢
    simp [hold]

theorem passesProtectively_ofItems (fired : List MetaguardSignature × List MetaguardSignature)
    (mutationClass : Str) : ∃ pass, passesProtectively py fired mutationClass (.ofItems items) = .ok pass := by
  simp only [passesProtectively, movesTowardCaution, Payload.ofItems, pure, Except.pure, bind, Except.bind]
  repeat' split
  all_goals exact ⟨_, rfl⟩

structure Facts (py : Interpreter) (items : List (Str × PyObj))
    (lifecycle : List MetaguardSignature × List MetaguardSignature) (axes widened : List PyObj) : Prop where
  changes : isTrue (field items (txt "no_change")) = false
  lifecycle : lifecycleSignatures py (field items (txt "old_status")) (field items (txt "new_status")) =
    .ok lifecycle
  axes : tupleOr (field items (txt "weakening_axes")) = .ok axes
  widened : tupleOr (field items (txt "widened_dimensions")) = .ok widened

variable {lifecycle : List MetaguardSignature × List MetaguardSignature} {axes widened : List PyObj}

theorem evaluateMetaguard_ofItems (hpayload : descriptor.payload = .ofItems items)
    (h : Facts py items lifecycle axes widened) : ∃ protectivePass, evaluateMetaguard py descriptor = .ok
      { floor := (if aimsAtGovernor py descriptor.mutationClass items then [governorSelfTarget] else []) ++
          lifecycle.1
        caution := lifecycle.2 ++ cautionsFor py descriptor.mutationClass axes widened
        protectivePass
        noChange := false } := by
  have hfired : firedSignatures py descriptor.mutationClass (.ofItems items) =
      .ok ((if aimsAtGovernor py descriptor.mutationClass items then [governorSelfTarget] else []) ++ lifecycle.1,
        lifecycle.2 ++ cautionsFor py descriptor.mutationClass axes widened) := by
    unfold firedSignatures
    rw [targetsGovernor_ofItems]
    change (lifecycleSignatures py (field items (txt "old_status")) (field items (txt "new_status")) >>= _) = _
    rw [h.lifecycle]
    change (tupleOr (field items (txt "weakening_axes")) >>= _) = _
    rw [h.axes]
    change (tupleOr (field items (txt "widened_dimensions")) >>= _) = _
    rw [h.widened]
    rfl
  obtain ⟨pass, hpass⟩ := @passesProtectively_ofItems py items
    ((if aimsAtGovernor py descriptor.mutationClass items then [governorSelfTarget] else []) ++ lifecycle.1,
      lifecycle.2 ++ cautionsFor py descriptor.mutationClass axes widened) descriptor.mutationClass
  refine ⟨pass, ?_⟩
  unfold evaluateMetaguard
  rw [hpayload, orEmpty_ofItems]
  refine (if_neg (Bool.eq_false_iff.mp h.changes)).trans ?_
  rw [hfired]
  change (passesProtectively py _ descriptor.mutationClass (.ofItems items) >>= _) = _
  rw [hpass]
  rfl

theorem evaluateMetaguard_noChange (hpayload : descriptor.payload = .ofItems items)
    (h : isTrue (field items (txt "no_change")) = true) :
    evaluateMetaguard py descriptor = .ok ⟨[], [], false, true⟩ := by
  unfold evaluateMetaguard
  rw [hpayload, orEmpty_ofItems]
  exact if_pos h

def Fires (py : Interpreter) (mutationClass : Str) (items : List (Str × PyObj))
    (lifecycle : List MetaguardSignature × List MetaguardSignature) (axes widened : List PyObj) : Prop :=
  aimsAtGovernor py mutationClass items = true ∨ lifecycle ≠ ([], []) ∨ axes ≠ [] ∨ widened ≠ [] ∨
    mutationClass ∈ [keyMutation, policyDelete, policyClear]

theorem cautionsFor_eq_nil_iff (mutationClass : Str) :
    cautionsFor py mutationClass axes widened = [] ↔
      axes = [] ∧ widened = [] ∧ mutationClass ∉ [keyMutation, policyDelete, policyClear] := by
  unfold cautionsFor
  simp only [List.append_eq_nil_iff, List.mem_cons, not_or]
  constructor
  · rintro ⟨⟨⟨haxes, hwidened⟩, hkey⟩, hdestroys⟩
    refine ⟨?_, ?_, ?_, ?_⟩
    · by_contra hne
      simp [hne] at haxes
    · by_contra hne
      simp [hne] at hwidened
    · rintro rfl
      simp at hkey
    · by_contra hnot
      rw [if_pos (by tauto)] at hdestroys
      cases hdestroys
  · rintro ⟨rfl, rfl, hkey, hdelete, hclear, -⟩
    simp [hkey, hdelete, hclear]

theorem fired_iff (hpayload : descriptor.payload = .ofItems items) (h : Facts py items lifecycle axes widened) :
    ∃ mg, evaluateMetaguard py descriptor = .ok mg ∧
      (mg.fired = true ↔ Fires py descriptor.mutationClass items lifecycle axes widened) := by
  obtain ⟨pass, hmg⟩ := evaluateMetaguard_ofItems hpayload h
  refine ⟨_, hmg, ?_⟩
  rw [← not_iff_not, Bool.not_eq_true]
  simp only [MetaguardResult.fired, Fires, Bool.or_eq_false_iff, Bool.not_eq_false', List.isEmpty_iff,
    List.append_eq_nil_iff, cautionsFor_eq_nil_iff, not_or, not_not, Bool.not_eq_true, Prod.ext_iff, ne_eq]
  by_cases haims : aimsAtGovernor py descriptor.mutationClass items = true
  · simp [haims]
  · simp only [haims, Bool.false_eq_true, if_false, true_and]
    tauto

end Signatures

theorem length_quote_utf16 (s : Str) : (jsonText s).length ≤ 12 * s.length + 2 := by
  have hunit : ∀ u : CodeUnit, (escapeUnit u).length ≤ 6 := by
    intro u
    unfold escapeUnit
    split
    · simp
    · split
      · simp
      · simp [PyBytes.hex_length]
  have hunits : ∀ us : List CodeUnit, (us.flatMap escapeUnit).length ≤ 6 * us.length := by
    intro us
    induction us with
    | nil => simp
    | cons u us ih =>
      have hu := hunit u
      simp only [List.flatMap_cons, List.length_append, List.length_cons]
      omega
  have hchar : ∀ c : CodePoint, (unitsOf c).length ≤ 2 := by
    intro c
    unfold unitsOf
    split <;> simp
  have htext : (utf16 s).length ≤ 2 * s.length := by
    unfold utf16
    induction s with
    | nil => simp
    | cons c s ih =>
      have hc := hchar c
      simp only [List.flatMap_cons, List.length_append, List.length_cons]
      omega
  have hbody := hunits (utf16 s)
  simp only [jsonText, quote, List.length_cons, List.length_append, List.length_nil]
  omega

theorem plain_jsonText (s : Str) : Plain (jsonText s) := fun c hc =>
  isSurrogate_of_lt (lt_trans (quote_ascii (utf16 s) c hc) (by decide))

structure Describable (descriptor : MutationDescriptor) (items : List (Str × PyObj)) : Prop where
  payload : descriptor.payload = .ofItems items
  dumped : ∃ j, toJson (.dict items) = .ok j
  surface : fitsField 200 descriptor.surface
  mutationClass : fitsField 100 descriptor.mutationClass
  subject : ∀ subjectId, descriptor.subjectId = some subjectId → subjectId.length ≤ 300
  environment : descriptor.environment = txt "production"

section Permissive

variable {draws : Draws} {binding : Binding} {py : Interpreter} {descriptor : MutationDescriptor}
variable {items : List (Str × PyObj)}

theorem requiredField_ascii {n : ℕ} {s : Str} (hfits : fitsField n s) (hascii : IsAscii s)
    (hink : strip s = s) (hne : s ≠ []) : ∃ t, requiredField n py.lower s = .ok t := by
  unfold requiredField
  rw [if_pos ⟨hne, hfits⟩, hink, py.lower_ascii s hascii, if_neg]
  · exact ⟨_, rfl⟩
  · exact fun h => hne (List.map_eq_nil_iff.mp h)

set_option maxRecDepth 2000 in
theorem writable_of_describable (h : Describable descriptor items) : Writable descriptor := by
  refine ⟨⟨items, by rw [h.payload]; rfl⟩, h.surface, ?_, ?_⟩
  · have hsurface := h.surface.1
    have hclass := h.mutationClass.1
    have hfixed : (enforcementClaim unknownDescriptor false).length ≤ 1000 := by decide
    simp only [enforcementClaim, List.length_append] at hfixed ⊢
    omega
  · simp only [enforcementClaim, JsonText.plain_append_iff, h.surface.2, h.mutationClass.2, plain_txt,
      and_true, Bool.false_eq_true, if_false]

theorem summary_fits (h : Describable descriptor items) (j : Json) : ∃ content,
    requiredField 50000 id (summaryText descriptor (Provenance.textHash (render j))) = .ok content := by
  have hplain : Plain (summaryText descriptor (Provenance.textHash (render j))) := by
    have hsubject : Plain ((descriptor.subjectId.map jsonText).getD (txt "null")) := by
      cases descriptor.subjectId with
      | none => exact plain_txt _
      | some s => exact plain_jsonText s
    simp only [summaryText, JsonText.plain_append_iff, plain_txt, plain_jsonText, hsubject, and_true]
  have hlength : (summaryText descriptor (Provenance.textHash (render j))).length ≤ 50000 := by
    have hdigest : (Provenance.textHash (render j)).length = 64 := by
      unfold Provenance.textHash
      rw [PyBytes.hex_length, (Sha256.sha256 _).length_eq]
    have hsubject : ((descriptor.subjectId.map jsonText).getD (txt "null")).length ≤ 3602 := by
      cases hsome : descriptor.subjectId with
      | none => decide
      | some s =>
        have hs := h.subject s hsome
        have hquoted := length_quote_utf16 s
        simp only [Option.map_some, Option.getD_some]
        omega
    have hfixed : (txt "\x7b\"mutation_class\": ").length + (txt ", \"payload_sha256\": ").length +
        (txt ", \"subject_id\": ").length + (txt ", \"surface\": ").length + (txt "\x7d").length ≤ 100 := by
      decide
    have hclass := length_quote_utf16 descriptor.mutationClass
    have hhash := length_quote_utf16 (Provenance.textHash (render j))
    have hsurface := length_quote_utf16 descriptor.surface
    have hclass' := h.mutationClass.1
    have hsurface' := h.surface.1
    simp only [summaryText, List.length_append]
    omega
  have hhead : ∃ rest, summaryText descriptor (Provenance.textHash (render j)) = cp '\x7b' :: rest :=
    ⟨_, rfl⟩
  obtain ⟨rest, hrest⟩ := hhead
  unfold requiredField
  rw [if_pos ⟨by rw [hrest]; exact List.cons_ne_nil _ _, hlength, hplain⟩, if_neg]
  · exact ⟨_, rfl⟩
  · intro hblank
    have hspace := (strip_eq_nil_iff _).mp hblank (cp '\x7b') (by rw [hrest]; exact List.mem_cons_self)
    revert hspace
    decide

theorem buildRequest_ok (h : Describable descriptor items) (count : ℕ) :
    ∃ request, buildRequest draws py descriptor count = .ok request := by
  obtain ⟨j, hj⟩ := h.dumped
  have hdumps : descriptor.payload.dumps = .ok (render j) := by
    rw [h.payload]
    change (toJson (.dict items) >>= fun value => .ok (render value)) = _
    rw [hj]
    rfl
  have hdict : descriptor.payload.asDict = .ok items := by
    rw [h.payload]
    rfl
  have hdigest := Provenance.sha256Hex_render j
  obtain ⟨actionType, hactionType⟩ : ∃ t, requiredField 100 py.lower (txt "controller_mutation") = .ok t :=
    requiredField_ascii (by decide) (isAscii_of_all (by decide)) (by decide)
      (by decide)
  obtain ⟨channel, hchannel⟩ : ∃ t, requiredField 50 py.lower (txt "selfgov") = .ok t :=
    requiredField_ascii (by decide) (isAscii_of_all (by decide)) (by decide)
      (by decide)
  obtain ⟨environment, henvironment⟩ : ∃ t, requiredField 50 py.lower descriptor.environment = .ok t := by
    rw [h.environment]
    exact requiredField_ascii (by decide) (isAscii_of_all (by decide)) (by decide)
      (by decide)
  obtain ⟨content, hcontent⟩ := summary_fits h j
  unfold buildRequest
  simp only [hdumps, hdict, hdigest, hactionType, hchannel, henvironment, hcontent, bind, Except.bind, pure,
    Except.pure]
  exact ⟨_, rfl⟩

theorem ask_permissive (hpermits : PermitsEverything binding) (h : Describable descriptor items)
    (nested : Source → Gate GateOutcome) (log : GateLog) :
    ∃ result log', askPdp draws binding py nested descriptor log = .ok result log' ∧ result.verdict = .permit := by
  obtain ⟨request, hrequest⟩ := @buildRequest_ok draws py descriptor items h log.asked
  obtain ⟨result, hanswer, hverdict⟩ := hpermits request
  have hlift : lift (buildRequest draws py descriptor log.asked) log = .ok request log := by
    unfold lift
    rw [hrequest]
  refine ⟨result, { log with asked := log.asked + 1 }, ?_, hverdict⟩
  change (lift (buildRequest draws py descriptor log.asked) >>= _) log = _
  rw [bind_ok hlift]
  change (binding.pdp request).run nested _ = _
  rw [hanswer]
  rfl

theorem composeGateVerdict_of_permit (mg : MetaguardResult) :
    decide (composeGateVerdict .permit mg = .permit) = !mg.fired := by
  unfold composeGateVerdict MetaguardResult.fired
  cases mg.floor.isEmpty <;> cases mg.caution.isEmpty <;> rfl

theorem composedOutcome_total {mg : MetaguardResult} (h : Writable descriptor) (result : PdpResult)
    (log : GateLog) : ∃ outcome log', composedOutcome draws binding 0 descriptor mg result log = .ok outcome log' ∧
      outcome.allowed = decide (composeGateVerdict result.verdict mg = .permit) := by
  obtain ⟨outcome, log', hseal⟩ := @sealedOutcome_total draws binding 0 descriptor (composedRuling mg result) log h
  exact ⟨_, log', bind_ok hseal _, (sealedOutcome_meets.of_ok hseal).1.allowed⟩

theorem fastPass_permissive {mg : MetaguardResult} (h : Describable descriptor items) (log : GateLog) :
    ∃ pass log', fastPass draws binding 0 descriptor mg log = .ok pass log' ∧
      ∀ outcome, pass = some outcome → mg.fired = false ∧ outcome.allowed = true := by
  have hget : ∀ key log, lift (descriptor.payload.get key) log = .ok (field items key) log := by
    intro key log
    rw [h.payload]
    rfl
  have hnone : ∀ outcome : GateOutcome, none = some outcome → mg.fired = false ∧ outcome.allowed = true :=
    fun _ h => (Option.some_ne_none _ h.symm).elim
  unfold fastPass
  by_cases hfired : mg.fired = true
  · rw [if_pos hfired]
    exact ⟨none, log, rfl, hnone⟩
  have hsome : ∀ passed : GateOutcome, passed.allowed = true →
      ∀ outcome, some passed = some outcome → mg.fired = false ∧ outcome.allowed = true := by
    intro passed hpassed outcome heq
    cases heq
    exact ⟨Bool.eq_false_of_not_eq_true hfired, hpassed⟩
  rw [if_neg hfired, bind_ok (hget _ log)]
  split
  · exact ⟨some stageOutcome, log, rfl, hsome _ rfl⟩
  rw [bind_ok (hget _ log)]
  split
  · exact ⟨some registrationOutcome, log, rfl, hsome _ rfl⟩
  split
  · obtain ⟨outcome, log', hseal⟩ :=
      @sealedOutcome_total draws binding 0 descriptor protectiveRuling log (writable_of_describable h)
    rw [bind_ok hseal]
    exact ⟨some outcome, log', rfl, hsome _ (sealedOutcome_meets.of_ok hseal).1.allowed⟩
  · exact ⟨none, log, rfl, hnone⟩

theorem gate_permissive (hpermits : PermitsEverything binding) (h : Describable descriptor items)
    {mg : MetaguardResult} (hmg : evaluateMetaguard py descriptor = .ok mg) (log : GateLog) :
    ∃ outcome log', gateControllerMutation draws py (some binding) (.of descriptor) log = .ok outcome log' ∧
      outcome.allowed = !mg.fired := by
  have hwritable := writable_of_describable h
  have hlift : ∀ log, lift (evaluateMetaguard py descriptor) log = .ok mg log := by
    intro log
    unfold lift
    rw [hmg]
  suffices hbound : ∃ outcome log',
      gateBound draws binding py (gateMutation draws binding py 1) 0 descriptor log = .ok outcome log' ∧
        outcome.allowed = !mg.fired by
    obtain ⟨outcome, log', hrun, hallowed⟩ := hbound
    refine ⟨outcome, log', ?_, hallowed⟩
    change gateMutation draws binding py 0 (.of descriptor) log = _
    rw [gateMutation_eq]
    exact rescue_ok hrun _
  unfold gateBound
  rw [bind_ok (hlift log)]
  by_cases hchange : mg.noChange = true
  · rw [if_pos hchange]
    exact ⟨noChangeOutcome, log, rfl, by rw [noChange_unfired hmg hchange]; rfl⟩
  rw [if_neg hchange, if_neg (lt_irrefl 0)]
  obtain ⟨pass, log₁, hpass, hallowed⟩ := @fastPass_permissive draws binding descriptor items mg h log
  rw [bind_ok hpass]
  cases pass with
  | some outcome =>
    obtain ⟨hfired, htrue⟩ := hallowed outcome rfl
    exact ⟨outcome, log₁, rfl, by rw [htrue, hfired]; rfl⟩
  | none =>
    obtain ⟨result, log₂, hask, hverdict⟩ :=
      ask_permissive hpermits h (gateMutation draws binding py 1) log₁
    obtain ⟨outcome, log₃, hcompose, hfinal⟩ :=
      @composedOutcome_total draws binding descriptor mg hwritable result log₂
    refine ⟨outcome, log₃, (bind_ok hask _).trans hcompose, ?_⟩
    rw [hfinal, hverdict]
    exact composeGateVerdict_of_permit mg

theorem gated_permissive {σ : Type} (hpermits : PermitsEverything binding)
    {describe : σ → Except PyErr MutationDescriptor} {w : World σ} (hdescribe : describe w.store = .ok descriptor)
    (h : Describable descriptor items) {mg : MetaguardResult} (hmg : evaluateMetaguard py descriptor = .ok mg) :
    ∃ log', gated draws py (some binding) describe w = .ok (!mg.fired) { w with log := log' } := by
  obtain ⟨outcome, log', hrun, hallowed⟩ := @gate_permissive draws _ py _ _ hpermits h mg hmg w.log
  refine ⟨log', ?_⟩
  unfold gated
  rw [hdescribe]
  rw [← Source.of, hrun, ← hallowed]

end Permissive

section Unasked

variable {σ : Type} {draws : Draws} {binding : Binding} {py : Interpreter}
variable {describe : σ → Except PyErr MutationDescriptor} {w : World σ}

theorem gated_noChange {descriptor : MutationDescriptor} (hdescribe : describe w.store = .ok descriptor)
    (hmg : evaluateMetaguard py descriptor = .ok ⟨[], [], false, true⟩) :
    gated draws py (some binding) describe w = .ok true w := by
  have hlift : ∀ log, lift (evaluateMetaguard py descriptor) log = .ok ⟨[], [], false, true⟩ log := by
    intro log
    unfold lift
    rw [hmg]
  have hbound : gateBound draws binding py (gateMutation draws binding py 1) 0 descriptor w.log =
      .ok noChangeOutcome w.log := by
    unfold gateBound
    rw [bind_ok (hlift w.log)]
    rfl
  have hgate : gateControllerMutation draws py (some binding) (.of descriptor) w.log =
      .ok noChangeOutcome w.log := by
    change gateMutation draws binding py 0 (.of descriptor) w.log = _
    rw [gateMutation_eq]
    exact rescue_ok hbound _
  unfold gated
  rw [hdescribe]
  rw [← Source.of, hgate]
  rfl

theorem gated_undescribed {e : PyErr} (hdescribe : describe w.store = .error e) :
    ∃ log', gated draws py (some binding) describe w = .ok false { w with log := log' } := by
  obtain ⟨outcome, log', hseal⟩ :=
    @sealedOutcome_total draws binding 0 unknownDescriptor failClosedRuling w.log writable_unknown
  have hdenied : outcome.allowed = false := (sealedOutcome_meets.of_ok hseal).1.allowed
  have hgate : gateControllerMutation draws py (some binding) ⟨.error e, .error e⟩ w.log = .ok outcome log' := by
    change gateMutation draws binding py 0 ⟨.error e, .error e⟩ w.log = _
    rw [gateMutation_eq]
    exact (rescue_error rfl _).trans hseal
  refine ⟨log', ?_⟩
  unfold gated
  rw [hdescribe, hgate, ← hdenied]

theorem gated_fired {descriptor : MutationDescriptor} (hdescribe : describe w.store = .ok descriptor)
    {mg : MetaguardResult} (hmg : evaluateMetaguard py descriptor = .ok mg) (hfired : mg.fired = true) :
    (∃ log', gated draws py (some binding) describe w = .ok false { w with log := log' }) ∨
      ∃ e log', gated draws py (some binding) describe w = .error e { w with log := log' } := by
  have hmeets := @gate_meets draws binding py 0 (.of descriptor) w.log
  unfold gated
  rw [hdescribe, ← Source.of]
  cases hrun : gateControllerMutation draws py (some binding) (.of descriptor) w.log with
  | error e log' => exact .inr ⟨e, log', rfl⟩
  | ok outcome log' =>
    refine .inl ⟨log', ?_⟩
    have hruled : Ruled draws binding py 0 (.of descriptor) w.log outcome log' := hmeets.of_ok hrun
    have hdenied : outcome.allowed = false := by
      by_contra hallowed
      obtain ⟨-, -, -, ⟨described, mg', hfirst, hmg', hunfired⟩, -⟩ :=
        hruled.permitted (Bool.eq_true_of_not_eq_false hallowed)
      cases hfirst
      cases hmg.symm.trans hmg'
      rw [hfired] at hunfired
      cases hunfired
    rw [← hdenied]

end Unasked

end TexGovernance.Selfgov
