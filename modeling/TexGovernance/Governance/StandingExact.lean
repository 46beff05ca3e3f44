import TexGovernance.Governance.Standing

/-!
# Standing governance fails closed

What a PEP obeys of an outcome depends on the registry, the floor and the deep
adjudicator only.
-/

namespace TexGovernance.Governance
open PyStr PyRepr PyDict PyJson CaseFold Actions
open Domain Provenance
open Engine (Uuid Verdict)

def Ruled (v : Verdict) (out : DecisionOutcome) : Prop :=
  out.verdict = v ∧ (out.released = true ↔ v = .permit)

section Exact

variable {ε σ : Type} (d : Deciders ε σ) (o : Observers ε σ d.fold)

def ruling (ask : Ask) : Act ε σ Verdict := do
  let place := placeOf d ask
  match ← resolveAgent d place.tenant ask.agentId ask.agentExternalId with
  | none => return .forbid
  | some agent =>
    if !isGovernable d agent then return .forbid
    else if !withinSurface agent.capabilitySurface place.actionType place.channel place.environment
        place.recipient then return .forbid
    else if place.actionType ∈ uninspectableActionTypes then return .abstain
    else match d.evaluate with
      | none => return .forbid
      | some evaluate =>
        match ← executeDeep d evaluate agent place ask with
        | none => return .forbid
        | some result => return result.response.verdict

def Follows (x : Act ε σ DecisionOutcome) (r : Act ε σ Verdict) : Prop :=
  ∀ s, ∃ v u, r s = .ok v u ∧ Ends x s fun out _ => Ruled v out

variable {d} in
theorem Follows.ret {x : Act ε σ DecisionOutcome} {v : Verdict} (h : Yields x (Ruled v)) :
    Follows x (pure v) := fun s => ⟨v, s, rfl, h s⟩

variable {d} in
theorem Follows.seq {α : Type} {x : Act ε σ α} {f : α → Act ε σ DecisionOutcome} {g : α → Act ε σ Verdict}
    (hx : Yields x fun _ => True) (h : ∀ a, Follows (f a) (g a)) : Follows (x >>= f) (x >>= g) := by
  intro s
  obtain ⟨a, t, ha, -⟩ := hx s
  obtain ⟨v, u, hg, hf⟩ := h a t
  exact ⟨v, u, (bind_ok ha g).trans hg, .seq ⟨a, t, ha, hf⟩⟩

theorem yields_draw {α : Type} (f : σ → α × σ) : Yields (draw f : Act ε σ α) fun _ => True :=
  fun s => ⟨(f s).1, (f s).2, rfl, trivial⟩

theorem sealFloor_returns (r : FloorRuling) : Yields (sealFloor d o r) fun _ => True := by
  unfold sealFloor
  cases o.decisionLedger with
  | none => exact .ret trivial
  | some append =>
    refine .seq (yields_draw d.uuid4) fun decisionId _ => .seq (P := fun _ => True) ?_ fun _ _ => .ret trivial
    refine .seq (P := fun _ => True) ?_ fun fact _ => ?_
    · exact .seq (yields_draw o.now) fun _ _ => .seq (yields_draw d.uuid4) fun _ _ =>
        .seq (yields_draw o.now) fun _ _ => .ret trivial
    · by_cases hfits : fitsField 2000 fact.claim
      · rw [if_pos hfits]
        exact .attempted _
      · rw [if_neg hfits]
        exact .ret trivial

theorem forbidFloor_ruled (agentId : Option Uuid) (reason : Str) (tier : Tier) (scope : ForbidScope)
    (place : Place) (external : Option Str) :
    Yields (forbidFloor d o agentId reason tier scope place external) (Ruled .forbid) :=
  .seq (sealFloor_returns d o _) fun _ _ => .ret ⟨rfl, by simp⟩

theorem raiseHold_returns (agentId : Option Uuid) (kind : Str) (confidence : PyFloat.UnitScore) (note : Str)
    (detail : Dict Str PyObj) (decisionId anchor : Option Str) (tenantId : Str) :
    Yields (raiseHold d o agentId kind confidence note detail decisionId anchor tenantId)
      fun _ => True := by
  unfold raiseHold
  split
  · exact .seq (.attempted _) fun _ _ => .ret trivial
  · exact .ret trivial

theorem abstainUninspectable_ruled (agentId : Option Uuid) (place : Place) :
    Yields (abstainUninspectable d o agentId place) (Ruled .abstain) :=
  .seq (raiseHold_returns d o _ _ _ _ _ _ _ _) fun _ _ =>
    .seq (sealFloor_returns d o _) fun _ _ => .ret ⟨rfl, by simp⟩

theorem attachPdpLabel_ruled {v : Verdict} {outcome : DecisionOutcome} (h : Ruled v outcome)
    (ifcLabels : Option PyObj) : Yields (attachPdpLabel d o outcome ifcLabels) (Ruled v) := by
  intro s
  refine .seq ⟨s, s, rfl, ?_⟩
  beta_reduce
  cases o.labelLiveOn s with
  | false => exact .ret h
  | true =>
    simp only [Bool.not_true, Bool.false_eq_true, if_false]
    split
    · refine Ends.seq ((Yields.attempted _ s).mono fun label t _ => ?_)
      cases label with
      | none => exact .ret h
      | some label => exact .ret h
    · exact .ret h

theorem attachSurfacePiggyback_ruled {v : Verdict} {outcome : DecisionOutcome} (h : Ruled v outcome)
    (surface : CapabilitySurface d.fold) :
    Yields (attachSurfacePiggyback d o outcome surface) (Ruled v) := by
  unfold attachSurfacePiggyback
  by_cases htools : surface.allowedTools.texts = []
  · rw [if_pos htools]
    exact .ret h
  · rw [if_neg htools]
    refine .seq (.attempted _) fun digest _ => ?_
    cases digest with
    | none => exact .ret h
    | some digest => exact .ret h

theorem maybeFeedForbidSet_returns (outcome : DecisionOutcome) (ask : Ask) :
    Yields (maybeFeedForbidSet d o outcome ask) fun _ => True := by
  unfold maybeFeedForbidSet
  split
  · exact .ret trivial
  · by_cases hverdict : outcome.verdict ≠ .forbid
    · rw [if_pos hverdict]
      exact .ret trivial
    · rw [if_neg hverdict]
      by_cases hscope : outcome.forbidScope ∉ [some ForbidScope.surface, some .deep]
      · rw [if_pos hscope]
        exact .ret trivial
      · rw [if_neg hscope]
        exact .seq (.attempted _) fun _ _ => .ret trivial

theorem maybeFeedLocalForbidSet_returns (outcome : DecisionOutcome) (ask : Ask) :
    Yields (maybeFeedLocalForbidSet d o outcome ask) fun _ => True := by
  unfold maybeFeedLocalForbidSet
  split
  · split_ifs
    · exact .ret trivial
    · exact .seq (.attempted _) fun _ _ => .ret trivial
  · exact .ret trivial

theorem resolveById_returns (tenant : Str) (agentId : Option AgentRef) :
    Yields (resolveById d tenant agentId) fun found =>
      ∀ agent, found = some agent → agentTenant d agent = tenant := by
  unfold resolveById
  split
  · exact .ret nofun
  · refine .seq (.attempted _) fun found _ => .ret fun agent hagent => ?_
    obtain ⟨-, htenant⟩ := Option.filter_eq_some_iff.mp hagent
    exact of_decide_eq_true htenant

theorem resolveAgent_returns (tenant : Str) (agentId : Option AgentRef) (external : Option Str) :
    Yields (resolveAgent d tenant agentId external) fun found =>
      ∀ agent, found = some agent → agentTenant d agent = tenant := by
  refine .seq (resolveById_returns d tenant agentId) fun found hfound => ?_
  cases found with
  | some agent => exact .ret hfound
  | none =>
    cases external with
    | none => exact .ret nofun
    | some name =>
      by_cases hname : name = []
      · simp only [if_pos hname]
        exact .ret nofun
      · simp only [if_neg hname]
        refine .seq (P := fun agents => ∀ agent ∈ agents, agentTenant d agent = tenant) ?_
          fun agents hagents => .ret fun agent hagent => hagents agent (List.mem_of_find?_eq_some hagent)
        refine .seq (.attempted _) fun agents _ => .ret fun agent hagent => ?_
        exact of_decide_eq_true (List.mem_filter.mp hagent).2

theorem executeDeep_returns (evaluate : EvaluationRequest → Act ε σ EvaluateActionResult)
    (agent : AgentIdentity d.fold) (place : Place) (ask : Ask) :
    Yields (executeDeep d evaluate agent place ask) fun _ => True := by
  refine .seq (yields_draw d.uuid4) fun requestId _ => ?_
  simp only
  split
  · exact .ret trivial
  · exact .attempted _

theorem adjudicateDeep_follows (evaluate : EvaluationRequest → Act ε σ EvaluateActionResult)
    (agent : AgentIdentity d.fold) (place : Place) (ask : Ask) :
    Follows (adjudicateDeep d o evaluate agent place ask) (do
      match ← executeDeep d evaluate agent place ask with
      | none => return .forbid
      | some result => return result.response.verdict) := by
  refine .seq (executeDeep_returns d evaluate agent place ask) fun result => ?_
  cases result with
  | none => exact .ret (forbidFloor_ruled d o _ _ _ _ _ _)
  | some result =>
    refine .ret ?_
    simp only
    cases result.response.verdict with
    | permit => exact attachPdpLabel_ruled d o ⟨rfl, by simp⟩ _
    | abstain => exact .seq (raiseHold_returns d o _ _ _ _ _ _ _ _) fun _ _ => .ret ⟨rfl, by simp⟩
    | forbid => exact .ret ⟨rfl, by simp⟩

variable {d} in
theorem Follows.followedBy {x : Act ε σ DecisionOutcome} {r : Act ε σ Verdict}
    {f : DecisionOutcome → Act ε σ DecisionOutcome} (h : Follows x r)
    (hf : ∀ v out, Ruled v out → Yields (f out) (Ruled v)) : Follows (x >>= f) r := by
  intro s
  obtain ⟨v, u, hr, hx⟩ := h s
  exact ⟨v, u, hr, .seq (hx.mono fun out t hout => hf v out hout t)⟩

theorem decideCore_follows (ask : Ask) : Follows (decideCore d o ask) (ruling d ask) := by
  refine .seq ((resolveAgent_returns d _ _ _).mono fun _ _ => trivial) fun agent => ?_
  cases agent with
  | none => exact .ret (forbidFloor_ruled d o _ _ _ _ _ _)
  | some agent =>
    simp only
    split_ifs
    · exact .ret (forbidFloor_ruled d o _ _ _ _ _ _)
    · exact .ret (forbidFloor_ruled d o _ _ _ _ _ _)
    · exact .ret (abstainUninspectable_ruled d o _ _)
    · cases d.evaluate with
      | none => exact .ret (forbidFloor_ruled d o _ _ _ _ _ _)
      | some evaluate =>
        refine (adjudicateDeep_follows d o _ _ _ _).followedBy fun v out hout => ?_
        by_cases hreleased : out.released = true
        · rw [if_pos hreleased]
          exact attachSurfacePiggyback_ruled d o hout _
        · rw [if_neg hreleased]
          exact .ret hout

theorem decide_follows (ask : Ask) : Follows (decide d o ask) (ruling d ask) :=
  (decideCore_follows d o ask).followedBy fun _ outcome hout =>
    .seq (maybeFeedForbidSet_returns d o outcome ask) fun _ _ =>
      .seq (maybeFeedLocalForbidSet_returns d o outcome ask) fun _ _ => .ret hout

variable {d} in
theorem of_yields {α : Type} {P : α → Prop} {x : Act ε σ α} (h : Yields x P) {s t : σ} {a : α}
    (ha : x s = .ok a t) : P a := by
  obtain ⟨b, u, hb, hP⟩ := h s
  rw [ha] at hb
  cases hb
  exact hP

theorem requiredField_ok {n : ℕ} {normalize : Str → Str} {value text : Str}
    (h : requiredField n normalize value = .ok text) : text = normalize (strip value) := by
  unfold requiredField at h
  split_ifs at h
  exact (Except.ok.inj h).symm

theorem optionalField_ok {n : ℕ} {value text : Option Str} (h : optionalField n value = .ok text) :
    text = (value.map strip).filter fun t => t ≠ [] := by
  cases value with
  | none => exact (Except.ok.inj h).symm
  | some value =>
    simp only [optionalField] at h
    split_ifs at h with hfits hblank
    · rw [← Except.ok.inj h, Option.map_some, Option.filter_some, hblank]
      rfl
    · rw [← Except.ok.inj h, Option.map_some, Option.filter_some, if_pos (decide_eq_true hblank)]

structure AskedAbout (agent : AgentIdentity d.fold) (ask : Ask) (request : EvaluationRequest) : Prop where
  agentId : request.agentId = some agent.agentId
  actionType : request.actionType = d.lower (strip ask.actionType)
  content : request.content = strip ask.content
  channel : request.channel = d.lower (strip (orDefault ask.channel d.defaultChannel))
  environment : request.environment = d.lower (strip (orDefault ask.environment d.defaultEnvironment))
  recipient : request.recipient = (ask.recipient.map strip).filter fun t => t ≠ []

theorem askedAbout_of_make {requestId : Uuid} {agent : AgentIdentity d.fold} {ask : Ask}
    {metadata : List (Str × Str)} {request : EvaluationRequest}
    (h : EvaluationRequest.make d.lower requestId (placeOf d ask).actionType ask.content
      (placeOf d ask).recipient (placeOf d ask).channel (placeOf d ask).environment (some agent.agentId)
      ask.sessionId metadata = .ok request) : AskedAbout d agent ask request := by
  obtain ⟨actionType, haction, h⟩ := Pipeline.bind_ok h
  obtain ⟨content, hcontent, h⟩ := Pipeline.bind_ok h
  obtain ⟨recipient, hrecipient, h⟩ := Pipeline.bind_ok h
  obtain ⟨channel, hchannel, h⟩ := Pipeline.bind_ok h
  obtain ⟨environment, henvironment, h⟩ := Pipeline.bind_ok h
  obtain ⟨sessionId, -, h⟩ := Pipeline.bind_ok h
  obtain rfl := Except.ok.inj h
  exact
    { agentId := rfl
      actionType := requiredField_ok haction
      content := requiredField_ok hcontent
      channel := requiredField_ok hchannel
      environment := requiredField_ok henvironment
      recipient := optionalField_ok hrecipient }

/-- The agent is resolved from the state `s`, the floor clears the action, and the
adjudicator, asked right after, answers with PERMIT. -/
structure Cleared (ask : Ask) (s : σ) (agent : AgentIdentity d.fold) (request : EvaluationRequest)
    (result : EvaluateActionResult) : Prop where
  calls : ∃ evaluate s' t, d.evaluate = some evaluate ∧
    resolveAgent d (d.fold.clean ask.tenant) ask.agentId ask.agentExternalId s = .ok (some agent) s' ∧
    evaluate request (d.uuid4 s').2 = .ok result t
  tenant : d.fold.clean agent.tenantId.text = d.fold.clean ask.tenant
  lifecycle : agent.lifecycleStatus ∉ [AgentLifecycleStatus.sleeping, .revoked, .quarantined]
  actionType : agent.capabilitySurface.permitsActionType ask.actionType = true
  channel : agent.capabilitySurface.permitsChannel (orDefault ask.channel d.defaultChannel) = true
  environment :
    agent.capabilitySurface.permitsEnvironment (orDefault ask.environment d.defaultEnvironment) = true
  recipient : agent.capabilitySurface.permitsRecipient ask.recipient = true
  inspectable : ask.actionType ≠ txt "https_opaque" ∧ ask.actionType ≠ txt "http_opaque_body"
  asked : AskedAbout d agent ask request
  permitted : result.response.verdict = .permit

theorem executeDeep_ok {evaluate : EvaluationRequest → Act ε σ EvaluateActionResult}
    {agent : AgentIdentity d.fold} {ask : Ask} {result : EvaluateActionResult} {s t : σ}
    (h : executeDeep d evaluate agent (placeOf d ask) ask s = .ok (some result) t) :
    ∃ request, AskedAbout d agent ask request ∧ evaluate request (d.uuid4 s).2 = .ok result t := by
  obtain ⟨requestId, s', hdraw, h⟩ := of_bind_ok h
  cases hdraw
  simp only at h
  generalize hmake : EvaluationRequest.make d.lower _ _ _ _ _ _ _ _ _ = made at h
  cases made with
  | error e => cases h
  | ok request =>
    exact ⟨request, askedAbout_of_make d hmake, of_attempt_some h⟩

theorem ruling_permit {ask : Ask} {s u : σ} (h : ruling d ask s = .ok .permit u) :
    ∃ agent request result, Cleared d ask s agent request result := by
  obtain ⟨found, s', hresolve, h⟩ := of_bind_ok h
  have htenant := of_yields (resolveAgent_returns d _ _ _) hresolve
  cases found with
  | none => cases h
  | some agent =>
    simp only at h
    split_ifs at h with hgovernable hsurface hopaque
    · cases h
    · cases h
    · cases h
    · cases hevaluate : d.evaluate with
      | none =>
        rw [hevaluate] at h
        cases h
      | some evaluate =>
        rw [hevaluate] at h
        obtain ⟨result, t, hexecute, h⟩ := of_bind_ok h
        cases result with
        | none => cases h
        | some result =>
          obtain ⟨request, hasked, hcall⟩ := executeDeep_ok d hexecute
          have hpermit : result.response.verdict = .permit := (EStateM.Result.ok.inj h).1
          have hlifecycle : isGovernable d agent = true := by simpa using hgovernable
          have hwithin : withinSurface agent.capabilitySurface (placeOf d ask).actionType
              (placeOf d ask).channel (placeOf d ask).environment (placeOf d ask).recipient = true := by
            simpa using hsurface
          simp only [withinSurface, Bool.and_eq_true] at hwithin
          obtain ⟨⟨⟨haction, hchannel⟩, henvironment⟩, hrecipient⟩ := hwithin
          refine ⟨agent, request, result,
            { calls := ⟨evaluate, s', t, hevaluate, hresolve, hcall⟩
              tenant := htenant agent rfl
              lifecycle := of_decide_eq_true hlifecycle
              actionType := haction
              channel := hchannel
              environment := henvironment
              recipient := hrecipient
              inspectable := ?_
              asked := hasked
              permitted := hpermit }⟩
          exact ⟨fun heq => hopaque (List.mem_cons.mpr (.inl heq)),
            fun heq => hopaque (List.mem_cons.mpr (.inr (List.mem_singleton.mpr heq)))⟩

/-- `decide` returns whatever its collaborators do. It releases exactly on PERMIT,
only what is cleared, and no observer has a say in it. -/
theorem standing_fails_closed (ask : Ask) (s : σ) :
    ∃ out t, decide d o ask s = .ok out t ∧ (out.released = true ↔ out.verdict = .permit) ∧
      (out.released = true → ∃ agent request result, Cleared d ask s agent request result) ∧
      ∀ o' : Observers ε σ d.fold, ∃ out' t', decide d o' ask s = .ok out' t' ∧
        out'.verdict = out.verdict ∧ out'.released = out.released := by
  obtain ⟨v, u, hruling, out, t, hdecide, hverdict, hreleased⟩ := decide_follows d o ask s
  refine ⟨out, t, hdecide, by rw [hverdict, hreleased], fun h => ?_, fun o' => ?_⟩
  · rw [hreleased.mp h] at hruling
    exact ruling_permit d hruling
  · obtain ⟨v', u', hruling', out', t', hdecide', hverdict', hreleased'⟩ := decide_follows d o' ask s
    rw [hruling] at hruling'
    cases hruling'
    refine ⟨out', t', hdecide', by rw [hverdict', hverdict], ?_⟩
    rw [Bool.eq_iff_iff, hreleased', hreleased]

end Exact

theorem sampleId_uuid : Engine.isUuidText (txt "00000000-0000-0000-0000-000000000001") = true := by
  decide

theorem acme_ne_nil : txt "acme" ≠ [] := by decide

def sampleId : Uuid := ⟨txt "00000000-0000-0000-0000-000000000001", sampleId_uuid⟩

def sampleAgent : AgentIdentity foldedTexts where
  agentId := sampleId
  name := ⟨txt "mailer", by decide, by decide⟩
  stripped := by decide
  tenantId := ⟨txt "acme", acme_ne_nil, by decide⟩
  normalized := by decide
  lifecycleStatus := .active
  capabilitySurface := .unrestricted foldedTexts

def sampleDeciders : Deciders Unit Unit where
  fold := foldedTexts
  lower := id
  registryGet _ := pure (some sampleAgent)
  registryListAll := throw ()
  evaluate := some fun request => pure ⟨⟨request.requestId, .permit, 1, none⟩, Dict.empty⟩
  uuid4 s := (sampleId, s)
  defaultChannel := txt "api"
  defaultEnvironment := txt "production"

def sampleAsk (actionType : Str) : Ask :=
  ⟨txt " acme", actionType, txt "hello", none, none, none, some (.uuid sampleId), none, none⟩

example : ruling sampleDeciders (sampleAsk (txt "send_email")) () = .ok .permit () := rfl

example : ruling sampleDeciders (sampleAsk (txt "https_opaque")) () = .ok .abstain () := rfl

end TexGovernance.Governance
