import TexGovernance.Engine.AutoresolveExact
import TexGovernance.Provenance.LedgerChain

/-!
# From precedent metadata to the sealed fact (`engine/precedent_influence.py`)

The resolution read from the metadata of each retrieved precedent, the fact that cites the
resolutions, and the ledger it is appended to. `float`, `datetime.fromisoformat`, the text of a
float, signing and the identifier and time of a new fact are parameters.
-/

namespace TexGovernance.Engine.PrecedentInfluence
open PyStr PyDict PyJson PyCodec Provenance

/-- A `datetime`: its microseconds of local time, and its offset from UTC
where it has one. -/
structure DateTime where
  wall : ℤ
  utcoffset : Option ℤ

inductive Field where
  | datetime (d : DateTime)
  | obj (x : PyObj)

inductive MetaValue where
  | dict (raw : Dict Str Field)
  | other

structure RetrievedPrecedent where
  decisionId : Str
  actionType : Option Str
  channel : Option Str
  environment : Option Str
  rank : ℕ
  metadata : Dict Str MetaValue

/-- `RetrievalContext`, which its validators keep free of repeated ranks and
decision ids. -/
structure RetrievalContext where
  precedents : List RetrievedPrecedent
  unique_ranks : (precedents.map RetrievedPrecedent.rank).Nodup
  unique_ids : (precedents.map RetrievedPrecedent.decisionId).Nodup

structure PolicySnapshot where
  precedentAutoresolve : Bool
  minCount : ℕ
  freshnessDays : ℕ
  minConfidence : ℚ
  minCount_range : 3 ≤ minCount ∧ minCount ≤ 1000
  freshnessDays_range : 1 ≤ freshnessDays ∧ freshnessDays ≤ 3650
  minConfidence_range : 0 ≤ minConfidence ∧ minConfidence ≤ 1

structure EvaluationRequest where
  requestId : Str
  agentTenant : Option Str
  actionType : Str
  channel : Str
  environment : Str
  requestedAt : ℤ

/-- The functions of Python and of its library that the step calls. `float`
gives nothing for a value that is no number and for one that is not finite;
what it raises there is an `OverflowError`. -/
structure Builtins where
  casefold : Str → Str
  lower : Str → Str
  upper : Str → Str
  float : Field → Except PyErr (Option ℚ)
  fromisoformat : Str → Option DateTime
  floatText : ℚ → NumberText
  sign : Str → Except PyErr Str
  factId : Str
  createdAt : Str

variable (py : Builtins)

/-- `_coerce_aware_datetime`, as microseconds of UTC. -/
def coerceAwareDatetime (value : Field) : Option ℤ :=
  let dt := match value with
    | .datetime d => some d
    | .obj (.str s) => py.fromisoformat s
    | _ => none
  match dt with
  | some ⟨wall, some utcoffset⟩ => some (wall - utcoffset)
  | _ => none

/-- `_parse`. -/
def parse (precedent : RetrievedPrecedent) : Except PyErr (Option PrecedentResolution) :=
  match precedent.metadata.get? (txt "precedent_resolution") with
  | some (.dict raw) =>
    match raw.get? (txt "tenant_id"), raw.get? (txt "resolution_verdict"),
        raw.get? (txt "resolved_by_human"), raw.get? (txt "resolved_at"),
        raw.get? (txt "resolution_confidence"), raw.get? (txt "record_hash") with
    | some (.obj (.str tenantId)), some (.obj (.str resolutionVerdict)),
        some (.obj (.bool resolvedByHuman)), some resolvedAt, some confidence,
        some (.obj (.str recordHash)) =>
      if strip tenantId = [] ∨ strip resolutionVerdict = [] ∨ strip recordHash = [] then .ok none
      else
        match py.float confidence with
        | .error e => .error e
        | .ok none => .ok none
        | .ok (some confidence) =>
          if ¬ (0 ≤ confidence ∧ confidence ≤ 1) then .ok none
          else
            match coerceAwareDatetime py resolvedAt with
            | none => .ok none
            | some resolvedAt =>
              .ok (some
                { tenantId := strip tenantId
                  resolutionVerdict := py.upper (strip resolutionVerdict)
                  resolvedByHuman := resolvedByHuman
                  resolvedAt := resolvedAt
                  confidence := confidence
                  recordHash := strip recordHash })
    | _, _, _, _, _, _ => .ok none
  | _ => .ok none

section Gates

variable (policy : PolicySnapshot) (request : EvaluationRequest) (tenant : Str)
  (edge : Str × Str × Str)

/-- The gates of `_eligible_survivors` for one precedent that parses. -/
def isEligible (precedent : RetrievedPrecedent) (res : PrecedentResolution) : Bool :=
  res.resolvedByHuman && res.tenantId = tenant &&
    edgeClassSignature py.lower precedent.actionType precedent.channel precedent.environment =
      some edge &&
    policy.minConfidence ≤ res.confidence && res.resolvedAt ≤ request.requestedAt &&
    request.requestedAt - res.resolvedAt ≤ policy.freshnessDays * microsecondsPerDay

/-- `_eligible_survivors`. -/
def eligibleSurvivors :
    List RetrievedPrecedent → Except PyErr (List (RetrievedPrecedent × PrecedentResolution))
  | [] => .ok []
  | precedent :: precedents => do
    match ← parse py precedent with
    | none => eligibleSurvivors precedents
    | some res =>
      let survivors ← eligibleSurvivors precedents
      return if isEligible py policy request tenant edge precedent res then
        (precedent, res) :: survivors
      else survivors

end Gates

def recordHashes (survivors : List (RetrievedPrecedent × PrecedentResolution)) : List Str :=
  (survivors.map fun s => s.2.recordHash).dedup.insertionSort (· ≤ ·)

def decisionIds (survivors : List (RetrievedPrecedent × PrecedentResolution)) : List Str :=
  (survivors.map fun s => s.1.decisionId).dedup.insertionSort (· ≤ ·)

def edgeText (edge : Str × Str × Str) : Str := edge.1 ++ txt "/" ++ edge.2.1 ++ txt "/" ++ edge.2.2

section Seal

variable (policy : PolicySnapshot) (request : EvaluationRequest) (tenant : Str)
  (edge : Str × Str × Str) (survivors : List (RetrievedPrecedent × PrecedentResolution))

def precedentClaim : Str :=
  txt "discretionary ABSTAIN for request " ++ request.requestId ++
    txt " auto-resolved to PERMIT from " ++ natText survivors.length ++
    txt " consistent prior human PERMIT resolution(s) of edge-class " ++ edgeText edge ++
    txt " (tenant " ++ tenant ++
    txt "); structural floor untouched; authorship+integrity sealed and the driving precedents " ++
    txt "bound by record_hash — resolution correctness NOT proven (it rests on the cited human " ++
    txt "judgments)"

def precedentDetail : Dict Str PyObj :=
  Dict.ofItems
    [(txt "from_verdict", .str (txt "ABSTAIN")),
      (txt "to_verdict", .str (txt "PERMIT")),
      (txt "edge_class", .str (edgeText edge)),
      (txt "tenant_id", .str tenant),
      (txt "consistent_count", .int survivors.length),
      (txt "required_min_count", .int policy.minCount),
      (txt "freshness_days", .int policy.freshnessDays),
      (txt "min_confidence", .float (py.floatText policy.minConfidence)),
      (txt "driving_precedent_record_hashes", .list ((recordHashes survivors).map .str)),
      (txt "driving_precedent_decision_ids", .list ((decisionIds survivors).map .str))]

/-- `build_precedent_fact`; the model of a fact refuses a claim that is too
long or has no encoding. -/
def buildPrecedentFact : Except PyErr SealedFact := do
  let claim := precedentClaim request tenant edge survivors
  let _ ← utf8Encode claim
  if 2000 < claim.length ∨ 200 < request.requestId.length then .error .valueError
  else return {
    factId := py.factId
    kind := .precedent
    subjectId := some request.requestId
    claim := claim
    evidence := none
    maturity := .researchSolid
    detail := precedentDetail py policy tenant edge survivors
    createdAt := py.createdAt }

/-- `_seal_precedent_influence`: the record, if there is one, and the ledger
afterwards. -/
def sealPrecedentInfluence (ledger : SealedFactLedger) : Option SealedFactRecord × SealedFactLedger :=
  let sealing := do
    let fact ← buildPrecedentFact py policy request tenant edge survivors
    append py.sign ledger fact
  match sealing with
  | .ok (record, after) => (some record, after)
  | .error _ => (none, ledger)

end Seal

section Step

variable (policy : PolicySnapshot) (request : EvaluationRequest) (retrieval : RetrievalContext)
  (base : RoutingResult)

def resolve (tenant : Str) (edge : Str × Str × Str)
    (survivors : List (RetrievedPrecedent × PrecedentResolution)) : Except PyErr RoutingResult :=
  base.rebuild py.casefold .permit
    { reasons := base.reasons ++
        [txt "precedent auto-resolve: ABSTAIN→PERMIT on edge-class " ++ edgeText edge ++
          txt " for tenant " ++ tenant ++ txt " from " ++ natText survivors.length ++
          txt " consistent prior human PERMIT resolution(s) (min " ++ natText policy.minCount ++
          txt "); driving record_hash(es): " ++ joinComma (recordHashes survivors) ++
          txt "; structural floor untouched"]
      uncertaintyFlags := base.uncertaintyFlags ++ [precedentAutoresolveFlag]
      findings := base.findings
      scores := base.scores.set (txt "precedent_autoresolve") 1 }

/-- `apply_precedent_autoresolve`: what it returns and the ledger it leaves. -/
def applyPrecedentAutoresolve (decisionLedger : Option SealedFactLedger) :
    Except PyErr RoutingResult × Option SealedFactLedger :=
  if !policy.precedentAutoresolve then (.ok base, decisionLedger)
  else if base.verdict ≠ .abstain then (.ok base, decisionLedger)
  else match decisionLedger with
    | none => (.ok base, none)
    | some ledger =>
      if base.uncertaintyFlags = [] ∨ ¬ base.uncertaintyFlags ⊆ discretionaryAbstainFlags then
        (.ok base, some ledger)
      else match requestTenant request.agentTenant,
          edgeClassSignature py.lower (some request.actionType) (some request.channel)
            (some request.environment) with
        | some tenant, some edge =>
          match eligibleSurvivors py policy request tenant edge retrieval.precedents with
          | .error e => (.error e, some ledger)
          | .ok survivors =>
            if survivors.length < policy.minCount then (.ok base, some ledger)
            -- the set of the survivors' verdicts must be {"PERMIT"}
            else if survivors = [] ∨ ¬ ∀ s ∈ survivors, s.2.resolutionVerdict = txt "PERMIT" then
              (.ok base, some ledger)
            else
              match sealPrecedentInfluence py policy request tenant edge survivors ledger with
              | (none, after) => (.ok base, some after)
              | (some _, after) => (resolve py policy base tenant edge survivors, some after)
        | _, _ => (.ok base, some ledger)

end Step

section Eligible

variable {py : Builtins} {policy : PolicySnapshot} {request : EvaluationRequest} {tenant : Str}
  {edge : Str × Str × Str}

theorem mem_eligibleSurvivors {precedents : List RetrievedPrecedent}
    {survivors : List (RetrievedPrecedent × PrecedentResolution)}
    (h : eligibleSurvivors py policy request tenant edge precedents = .ok survivors)
    (s : RetrievedPrecedent × PrecedentResolution) :
    s ∈ survivors ↔ s.1 ∈ precedents ∧ parse py s.1 = .ok (some s.2) ∧
      isEligible py policy request tenant edge s.1 s.2 = true := by
  induction precedents generalizing survivors with
  | nil =>
    obtain rfl := Except.ok.inj h
    simp
  | cons precedent precedents ih =>
    obtain ⟨parsed, hparse, h⟩ := Pipeline.bind_ok h
    cases parsed with
    | none =>
      rw [ih h, List.mem_cons]
      refine and_congr_left fun ⟨hs, _⟩ => ?_
      refine (or_iff_right ?_).symm
      intro heq
      rw [heq, hparse] at hs
      cases hs
    | some res =>
      obtain ⟨rest, hrest, h⟩ := Pipeline.bind_ok h
      obtain rfl := Except.ok.inj h
      have hkept := ih hrest
      split
      · rename_i heligible
        rw [List.mem_cons, List.mem_cons, hkept]
        constructor
        · intro hs
          rcases hs with hs | ⟨hin, hs⟩
          · rw [hs]
            exact ⟨.inl rfl, hparse, heligible⟩
          · exact ⟨.inr hin, hs⟩
        · intro ⟨hin, hs, hgates⟩
          rcases hin with hin | hin
          · rw [hin, hparse] at hs
            exact .inl (Prod.ext hin (Option.some.inj (Except.ok.inj hs)).symm)
          · exact .inr ⟨hin, hs, hgates⟩
      · rename_i hineligible
        rw [hkept, List.mem_cons]
        refine and_congr_left fun ⟨hs, hgates⟩ => ?_
        refine (or_iff_right ?_).symm
        intro heq
        rw [heq, hparse] at hs
        rw [heq, ← Option.some.inj (Except.ok.inj hs)] at hgates
        exact hineligible hgates

end Eligible

section Refines

variable (py : Builtins) (policy : PolicySnapshot) (request : EvaluationRequest)

def parsedPrecedent (precedent : RetrievedPrecedent) : Except PyErr Engine.RetrievedPrecedent :=
  (parse py precedent).map fun resolution =>
    { actionType := precedent.actionType
      channel := precedent.channel
      environment := precedent.environment
      resolution := resolution }

def contextOf (parsed : List Engine.RetrievedPrecedent) (appendReturns : Option Bool) :
    AutoresolveContext where
  precedentAutoresolve := policy.precedentAutoresolve
  minCount := policy.minCount
  freshnessDays := policy.freshnessDays
  minConfidence := policy.minConfidence
  agentTenant := request.agentTenant
  actionType := request.actionType
  channel := request.channel
  environment := request.environment
  requestedAt := request.requestedAt
  precedents := parsed
  decisionLedger := appendReturns

def survivorOf (tenant : Str) (edge : Str × Str × Str) (precedent : Engine.RetrievedPrecedent) :
    Option PrecedentResolution :=
  match precedent.resolution with
  | none => none
  | some res =>
    if isSurvivor py.lower (contextOf policy request [] none) tenant edge precedent res then some res
    else none

variable {py policy request} {tenant : Str} {edge : Str × Str × Str}

theorem eligibleSurvivors_parsed {precedents : List RetrievedPrecedent}
    {parsed : List Engine.RetrievedPrecedent}
    (h : precedents.mapM (parsedPrecedent py) = .ok parsed) :
    ∃ survivors, eligibleSurvivors py policy request tenant edge precedents = .ok survivors ∧
      parsed.filterMap (survivorOf py policy request tenant edge) = survivors.map Prod.snd := by
  rw [mapM_ok_iff] at h
  induction h with
  | nil => exact ⟨[], rfl, rfl⟩
  | @cons precedent summary precedents parsed hp _ ih =>
    obtain ⟨survivors, hsurvivors, heq⟩ := ih
    obtain ⟨resolution, hparse, rfl⟩ := Pipeline.map_ok hp
    unfold eligibleSurvivors
    simp only [hparse, bind, Except.bind]
    cases resolution with
    | none => exact ⟨survivors, hsurvivors, heq⟩
    | some res =>
      simp only [hsurvivors, pure, Except.pure]
      refine ⟨_, rfl, ?_⟩
      have hpick : survivorOf py policy request tenant edge
          ⟨precedent.actionType, precedent.channel, precedent.environment, some res⟩ =
          if isEligible py policy request tenant edge precedent res then some res else none := rfl
      rw [List.filterMap_cons, hpick]
      by_cases heligible : isEligible py policy request tenant edge precedent res = true
      · rw [if_pos heligible, if_pos heligible]
        exact congrArg (res :: ·) heq
      · rw [if_neg heligible, if_neg heligible]
        exact heq

theorem recordHashes_eq (survivors : List (RetrievedPrecedent × PrecedentResolution)) :
    recordHashes survivors = ((survivors.map Prod.snd).map fun res => res.recordHash).dedup.mergeSort
      fun a b => decide (a ≤ b) := by
  rw [List.mergeSort_eq_insertionSort, List.map_map]
  rfl

theorem applyPrecedentAutoresolve_refines {retrieval : RetrievalContext} {base : RoutingResult}
    {parsed : List Engine.RetrievedPrecedent}
    (h : retrieval.precedents.mapM (parsedPrecedent py) = .ok parsed)
    (decisionLedger : Option SealedFactLedger) :
    ∃ appendReturns, appendReturns.isSome = decisionLedger.isSome ∧
      (applyPrecedentAutoresolve py policy request retrieval base decisionLedger).1 =
        Engine.applyPrecedentAutoresolve py.casefold py.lower
          (contextOf policy request parsed appendReturns) base := by
  cases hswitch : policy.precedentAutoresolve with
  | false =>
    refine ⟨decisionLedger.map fun _ => true, Option.isSome_map, ?_⟩
    unfold applyPrecedentAutoresolve Engine.applyPrecedentAutoresolve
    simp only [contextOf, hswitch, Bool.not_false, if_true]
  | true =>
  by_cases habstain : base.verdict ≠ .abstain
  · refine ⟨decisionLedger.map fun _ => true, Option.isSome_map, ?_⟩
    rw [applyPrecedentAutoresolve_of_ne_abstain habstain]
    unfold applyPrecedentAutoresolve
    simp only [hswitch, Bool.not_true, Bool.false_eq_true, if_false, if_pos habstain]
  cases decisionLedger with
  | none =>
    refine ⟨none, rfl, ?_⟩
    unfold applyPrecedentAutoresolve Engine.applyPrecedentAutoresolve
    simp only [contextOf, hswitch, Bool.not_true, Bool.false_eq_true, if_false, if_neg habstain]
  | some ledger =>
    by_cases hflags : base.uncertaintyFlags = [] ∨ ¬ base.uncertaintyFlags ⊆ discretionaryAbstainFlags
    · refine ⟨some true, rfl, ?_⟩
      unfold applyPrecedentAutoresolve Engine.applyPrecedentAutoresolve
      simp only [contextOf, hswitch, Bool.not_true, Bool.false_eq_true, if_false, if_neg habstain,
        if_pos hflags]
    cases htenant : requestTenant request.agentTenant with
    | none =>
      refine ⟨some true, rfl, ?_⟩
      unfold applyPrecedentAutoresolve Engine.applyPrecedentAutoresolve
      simp only [contextOf, hswitch, Bool.not_true, Bool.false_eq_true, if_false, if_neg habstain,
        if_neg hflags, htenant]
    | some tenant =>
      obtain ⟨edge, hedge⟩ : ∃ edge, edgeClassSignature py.lower (some request.actionType)
          (some request.channel) (some request.environment) = some edge := ⟨_, rfl⟩
      obtain ⟨survivors, hsurvivors, heq⟩ :=
        @eligibleSurvivors_parsed py policy request tenant edge _ _ h
      refine ⟨some (sealPrecedentInfluence py policy request tenant edge survivors ledger).1.isSome,
        rfl, ?_⟩
      have hengine (answer : Option Bool) : Engine.eligibleSurvivors py.lower
          (contextOf policy request parsed answer) tenant edge = survivors.map Prod.snd := heq
      have hall : (∀ res ∈ survivors.map Prod.snd, res.resolutionVerdict = txt "PERMIT") ↔
          ∀ s ∈ survivors, s.2.resolutionVerdict = txt "PERMIT" := List.forall_mem_map
      simp only [contextOf, hswitch] at hengine
      unfold applyPrecedentAutoresolve Engine.applyPrecedentAutoresolve
      simp only [contextOf, hswitch, Bool.not_true, Bool.false_eq_true, if_false, if_neg habstain,
        if_neg hflags, htenant, hedge, hsurvivors, hengine, List.length_map, List.map_eq_nil_iff, hall]
      by_cases hcount : survivors.length < policy.minCount
      · rw [if_pos hcount, if_pos hcount]
      rw [if_neg hcount, if_neg hcount]
      by_cases hsplit : survivors = [] ∨ ¬ ∀ s ∈ survivors, s.2.resolutionVerdict = txt "PERMIT"
      · rw [if_pos hsplit, if_pos hsplit]
      rw [if_neg hsplit, if_neg hsplit]
      cases sealPrecedentInfluence py policy request tenant edge survivors ledger with
      | mk record after =>
        cases record with
        | none => rfl
        | some record =>
          unfold resolve precedentCitation
          simp only [recordHashes_eq, edgeText, natText, List.append_assoc, List.length_map]
          rfl

end Refines

section Resolution

variable (py : Builtins) (policy : PolicySnapshot) (request : EvaluationRequest)
  (retrieval : RetrievalContext) (base : RoutingResult)

structure Resolves (ledger after : SealedFactLedger) (tenant : Str) (edge : Str × Str × Str)
    (survivors : List (RetrievedPrecedent × PrecedentResolution)) (record : SealedFactRecord) :
    Prop where
  switch : policy.precedentAutoresolve = true
  resolvable : Resolvable base
  sameTenant : requestTenant request.agentTenant = some tenant
  sameEdge : edgeClassSignature py.lower (some request.actionType) (some request.channel)
    (some request.environment) = some edge
  eligible : eligibleSurvivors py policy request tenant edge retrieval.precedents = .ok survivors
  count : policy.minCount ≤ survivors.length
  permits : ∀ s ∈ survivors, s.2.resolutionVerdict = txt "PERMIT"
  seals : sealPrecedentInfluence py policy request tenant edge survivors ledger = (some record, after)

variable {py policy request retrieval base} {ledger after : SealedFactLedger} {tenant : Str}
  {edge : Str × Str × Str} {survivors : List (RetrievedPrecedent × PrecedentResolution)}
  {record : SealedFactRecord}

theorem sealPrecedentInfluence_none
    (h : sealPrecedentInfluence py policy request tenant edge survivors ledger = (none, after)) :
    after = ledger := by
  unfold sealPrecedentInfluence at h
  simp only at h
  split at h
  · cases h
  · exact (Prod.mk.inj h).2.symm

theorem sealPrecedentInfluence_some
    (h : sealPrecedentInfluence py policy request tenant edge survivors ledger =
      (some record, after)) :
    after.entries = ledger.entries ++ [record] ∧ record.fact.kind = .precedent ∧
      record.fact.subjectId = some request.requestId := by
  unfold sealPrecedentInfluence at h
  simp only at h
  split at h
  · rename_i record' after' hsealing
    obtain ⟨fact, hfact, happend⟩ := Pipeline.bind_ok hsealing
    obtain ⟨hrecord', rfl⟩ := Prod.mk.inj h
    obtain rfl := Option.some.inj hrecord'
    obtain ⟨hafter, hrecord, -⟩ := appendLocked_spec happend
    obtain ⟨_, -, hfact⟩ := Pipeline.bind_ok hfact
    split at hfact
    · cases hfact
    rw [hafter, hrecord, ← Except.ok.inj hfact]
    exact ⟨rfl, rfl, rfl⟩
  · cases h

theorem sealPrecedentInfluence_returns {fact : SealedFact} {payload : Json}
    (hfact : buildPrecedentFact py policy request tenant edge survivors = .ok fact)
    (hpayload : toJson fact.canonicalPayload = .ok payload)
    (hsign : ∀ recordHash, ∃ signature, py.sign recordHash = .ok signature) :
    ∃ record after, sealPrecedentInfluence py policy request tenant edge survivors ledger =
      (some record, after) := by
  obtain ⟨signature, hsignature⟩ := hsign (textHash (render (linkJson (textHash (render payload))
    (ledger.entries.getLast?.map SealedFactRecord.recordHash))))
  unfold sealPrecedentInfluence append appendLocked
  simp only [hfact, payloadSha256Of_eq hpayload, recordHashOf_eq, hsignature, bind, Except.bind,
    pure, Except.pure]
  exact ⟨_, _, rfl⟩

theorem resolve_permits :
    ∃ r, resolve py policy base tenant edge survivors = .ok r ∧ r.verdict = .permit := by
  have hreturns : ∃ r, resolve py policy base tenant edge survivors = .ok r := by
    apply RoutingResult.make_returns
    · refine clean_append_nonblank base.reasons_clean fun s hs => ?_
      rw [List.mem_singleton.mp hs]
      simp only [List.append_assoc]
      exact strip_append_ne_nil _ (by decide)
    · refine clean_append_nonblank base.flags_clean fun s hs => ?_
      rw [List.mem_singleton.mp hs]
      decide
  obtain ⟨r, hr⟩ := hreturns
  exact ⟨r, hr, (rebuild_fields hr).1⟩

theorem resolve_of_gates
    (h : Resolves py policy request retrieval base ledger after tenant edge survivors record) :
    applyPrecedentAutoresolve py policy request retrieval base (some ledger) =
      (resolve py policy base tenant edge survivors, some after) := by
  have hsome : survivors ≠ [] := by
    apply List.ne_nil_of_length_pos
    have hfloor := policy.minCount_range.1
    have hcount := h.count
    omega
  have hswitch : ¬ (!policy.precedentAutoresolve) = true := by simp [h.switch]
  have habstain : ¬ base.verdict ≠ .abstain := not_not.mpr h.resolvable.abstains
  have hflags : ¬ (base.uncertaintyFlags = [] ∨
      ¬ base.uncertaintyFlags ⊆ discretionaryAbstainFlags) :=
    fun hno => hno.elim h.resolvable.flagged fun hout => hout h.resolvable.allowlisted
  have hunanimous : ¬ (survivors = [] ∨
      ¬ ∀ s ∈ survivors, s.2.resolutionVerdict = txt "PERMIT") :=
    fun hno => hno.elim hsome fun hsplit => hsplit h.permits
  unfold applyPrecedentAutoresolve
  simp only [if_neg hswitch, if_neg habstain, if_neg hflags, h.sameTenant, h.sameEdge, h.eligible,
    if_neg (not_lt.mpr h.count), if_neg hunanimous, h.seals]

theorem applyPrecedentAutoresolve_cases {decisionLedger : Option SealedFactLedger}
    {out : Except PyErr RoutingResult × Option SealedFactLedger}
    (h : applyPrecedentAutoresolve py policy request retrieval base decisionLedger = out) :
    out = (.ok base, decisionLedger) ∨ (∃ e, out = (.error e, decisionLedger)) ∨
      ∃ ledger after tenant edge survivors record, decisionLedger = some ledger ∧
        Resolves py policy request retrieval base ledger after tenant edge survivors record ∧
        out = (resolve py policy base tenant edge survivors, some after) := by
  unfold applyPrecedentAutoresolve at h
  split at h
  · exact .inl h.symm
  rename_i hswitch
  split at h
  · exact .inl h.symm
  rename_i habstain
  split at h
  · exact .inl h.symm
  rename_i ledger
  split at h
  · exact .inl h.symm
  rename_i hflags
  push Not at hflags
  split at h
  · rename_i tenant edge htenant hedge
    split at h
    · exact .inr (.inl ⟨_, h.symm⟩)
    rename_i survivors hsurvivors
    split at h
    · exact .inl h.symm
    rename_i hcount
    split at h
    · exact .inl h.symm
    rename_i hsplit
    push Not at hsplit
    split at h
    · rename_i after hseal
      rw [sealPrecedentInfluence_none hseal] at h
      exact .inl h.symm
    · rename_i record after hseal
      refine .inr (.inr ⟨ledger, after, tenant, edge, survivors, record, rfl, ?_, h.symm⟩)
      exact
        { switch := by simpa using hswitch
          resolvable := ⟨not_not.mp habstain, hflags.1, hflags.2⟩
          sameTenant := htenant
          sameEdge := hedge
          eligible := hsurvivors
          count := not_lt.mp hcount
          permits := hsplit.2
          seals := hseal }
  · exact .inl h.symm

end Resolution

section Independent

variable (py : Builtins) (policy : PolicySnapshot) (request : EvaluationRequest)
  (retrieval : RetrievalContext) (base : RoutingResult)

structure Counts (tenant : Str) (edge : Str × Str × Str)
    (s : RetrievedPrecedent × PrecedentResolution) : Prop where
  present : s.1 ∈ retrieval.precedents
  read : parse py s.1 = .ok (some s.2)
  byHuman : s.2.resolvedByHuman = true
  sameTenant : s.2.tenantId = tenant
  sameEdge : edgeClassSignature py.lower s.1.actionType s.1.channel s.1.environment = some edge
  confident : policy.minConfidence ≤ s.2.confidence
  notAfter : s.2.resolvedAt ≤ request.requestedAt
  fresh : request.requestedAt - s.2.resolvedAt ≤ policy.freshnessDays * microsecondsPerDay

structure IndependentlyPermitted (tenant : Str) (edge : Str × Str × Str)
    (cited : List (RetrievedPrecedent × PrecedentResolution)) : Prop where
  requestTenant : requestTenant request.agentTenant = some tenant
  requestEdge : edgeClassSignature py.lower (some request.actionType) (some request.channel)
    (some request.environment) = some edge
  count : ∀ s ∈ cited, Counts py policy request retrieval tenant edge s
  distinct : (cited.map fun s => s.2.recordHash).Nodup
  enough : policy.minCount ≤ cited.length
  unanimous : ∀ s, Counts py policy request retrieval tenant edge s →
    s.2.resolutionVerdict = txt "PERMIT"

def Sealed (before after : Option SealedFactLedger) : Prop :=
  ∃ ledger ledger' record, before = some ledger ∧ after = some ledger' ∧
    ledger'.entries = ledger.entries ++ [record] ∧ record.fact.kind = .precedent ∧
    record.fact.subjectId = some request.requestId

def PermitNeedsPrecedents (decisionLedger : Option SealedFactLedger) : Prop :=
  ∀ r after,
    applyPrecedentAutoresolve py policy request retrieval base decisionLedger = (.ok r, after) →
    (r.verdict = .permit → base.verdict ≠ .permit →
      (∃ tenant edge cited, IndependentlyPermitted py policy request retrieval tenant edge cited) ∧
        Sealed request decisionLedger after) ∧
    (r = base → after = decisionLedger)

variable {py policy request retrieval base} {tenant : Str} {edge : Str × Str × Str}
  {survivors : List (RetrievedPrecedent × PrecedentResolution)}

theorem mem_survivors_iff_counts
    (h : eligibleSurvivors py policy request tenant edge retrieval.precedents = .ok survivors)
    (s : RetrievedPrecedent × PrecedentResolution) :
    s ∈ survivors ↔ Counts py policy request retrieval tenant edge s := by
  rw [mem_eligibleSurvivors h]
  unfold isEligible
  simp only [Bool.and_eq_true, decide_eq_true_eq]
  constructor
  · intro ⟨hpresent, hread, ⟨⟨⟨⟨hhuman, htenant⟩, hedge⟩, hconfident⟩, hafter⟩, hfresh⟩
    exact ⟨hpresent, hread, hhuman, htenant, hedge, hconfident, hafter, hfresh⟩
  · intro hs
    exact ⟨hs.present, hs.read,
      ⟨⟨⟨⟨hs.byHuman, hs.sameTenant⟩, hs.sameEdge⟩, hs.confident⟩, hs.notAfter⟩, hs.fresh⟩

theorem exists_distinct (survivors : List (RetrievedPrecedent × PrecedentResolution)) :
    ∃ cited : List (RetrievedPrecedent × PrecedentResolution),
      (∀ s ∈ cited, s ∈ survivors) ∧ (cited.map fun s => s.2.recordHash).Nodup ∧
      cited.length = (recordHashes survivors).length := by
  have hmap : (survivors.map fun s => s.2.recordHash).dedup =
      (survivors.pwFilter fun a b => a.2.recordHash ≠ b.2.recordHash).map fun s => s.2.recordHash :=
    List.pwFilter_map _ survivors
  refine ⟨survivors.pwFilter fun a b => a.2.recordHash ≠ b.2.recordHash, ?_, ?_, ?_⟩
  · exact List.pwFilter_subset survivors
  · rw [← hmap]
    exact List.nodup_dedup _
  · unfold recordHashes
    rw [List.length_insertionSort, hmap, List.length_map]

theorem distinct_le {cited : List (RetrievedPrecedent × PrecedentResolution)}
    (hcited : ∀ s ∈ cited, s ∈ survivors)
    (hdistinct : (cited.map fun s => s.2.recordHash).Nodup) :
    cited.length ≤ (recordHashes survivors).length := by
  unfold recordHashes
  rw [List.length_insertionSort, ← List.length_map (f := fun s => s.2.recordHash)]
  apply List.Subperm.length_le
  apply List.subperm_of_subset hdistinct
  intro hash hhash
  obtain ⟨s, hs, rfl⟩ := List.mem_map.mp hhash
  exact List.mem_dedup.mpr (List.mem_map_of_mem (hcited s hs))

/-- A PERMIT rests on independent precedents exactly when, in a call that
resolves, the eligible precedents have at least as many different record
hashes as the policy asks for precedents. -/
theorem precedent_permit_independent_iff (decisionLedger : Option SealedFactLedger) :
    PermitNeedsPrecedents py policy request retrieval base decisionLedger ↔
      ∀ ledger after tenant edge survivors record, decisionLedger = some ledger →
        Resolves py policy request retrieval base ledger after tenant edge survivors record →
        policy.minCount ≤ (recordHashes survivors).length := by
  constructor
  · intro h ledger after tenant edge survivors record hledger hgates
    obtain ⟨r, hr, hpermit⟩ := @resolve_permits py policy base tenant edge survivors
    have hout := resolve_of_gates hgates
    rw [hr, ← hledger] at hout
    have hbase : base.verdict ≠ .permit := by
      rw [hgates.resolvable.abstains]
      decide
    obtain ⟨⟨tenant', edge', cited, hcited⟩, -⟩ := (h r _ hout).1 hpermit hbase
    obtain rfl := Option.some.inj (hgates.sameTenant.symm.trans hcited.requestTenant)
    obtain rfl := Option.some.inj (hgates.sameEdge.symm.trans hcited.requestEdge)
    apply hcited.enough.trans
    apply distinct_le _ hcited.distinct
    intro s hs
    exact (mem_survivors_iff_counts hgates.eligible s).mpr (hcited.count s hs)
  · intro h r after hout
    rcases applyPrecedentAutoresolve_cases hout with hsame | ⟨e, herror⟩ |
      ⟨ledger, ledger', tenant, edge, survivors, record, hledger, hgates, hresolved⟩
    · obtain ⟨hr, hafter⟩ := Prod.mk.inj hsame
      obtain rfl := Except.ok.inj hr
      exact ⟨fun hpermit hnot => absurd hpermit hnot, fun _ => hafter⟩
    · cases (Prod.mk.inj herror).1
    · obtain ⟨hr, hafter⟩ := Prod.mk.inj hresolved
      obtain ⟨r', hr', hpermit⟩ := @resolve_permits py policy base tenant edge survivors
      obtain rfl := Except.ok.inj (hr.trans hr')
      constructor
      · intro _ _
        obtain ⟨cited, hmem, hdistinct, hlength⟩ := exists_distinct survivors
        have hcounts := mem_survivors_iff_counts hgates.eligible
        refine ⟨⟨tenant, edge, cited, ?_⟩, ledger, ledger', record, hledger, hafter,
          sealPrecedentInfluence_some hgates.seals⟩
        exact
          { requestTenant := hgates.sameTenant
            requestEdge := hgates.sameEdge
            count := fun s hs => (hcounts s).mp (hmem s hs)
            distinct := hdistinct
            enough := hlength ▸ h ledger ledger' tenant edge survivors record hledger hgates
            unanimous := fun s hs => hgates.permits s ((hcounts s).mpr hs) }
      · intro hsame
        rw [hsame, hgates.resolvable.abstains] at hpermit
        cases hpermit

end Independent

def sampleBuiltins : Builtins where
  casefold := asciiLower
  lower := asciiLower
  upper := id
  float
    | .obj (.float _) => .ok (some (9 / 10))
    | _ => .ok none
  fromisoformat := fun _ => none
  floatText := fun _ => ⟨txt "0.8", by decide⟩
  sign := .ok
  factId := txt "5f0c"
  createdAt := txt "2026-06-17T00:00:00+00:00"

def samplePolicy : PolicySnapshot where
  precedentAutoresolve := true
  minCount := 3
  freshnessDays := 90
  minConfidence := 8 / 10
  minCount_range := by decide
  freshnessDays_range := by decide
  minConfidence_range := by norm_num

def sampleRequest : EvaluationRequest where
  requestId := txt "11d1"
  agentTenant := some (txt "acme")
  actionType := txt "send_email"
  channel := txt "email"
  environment := txt "production"
  requestedAt := 1

def sampleResolution : Dict Str Field :=
  Dict.ofItems [(txt "tenant_id", .obj (.str (txt "acme"))),
    (txt "resolution_verdict", .obj (.str (txt "PERMIT"))),
    (txt "resolved_by_human", .obj (.bool true)),
    (txt "resolved_at", .datetime ⟨0, some 0⟩),
    (txt "resolution_confidence", .obj (.float ⟨txt "0.9", by decide⟩)),
    (txt "record_hash", .obj (.str (txt "7f3a")))]

def sampleRetrieved (decisionId : Str) (rank : ℕ) : RetrievedPrecedent where
  decisionId := decisionId
  actionType := some (txt "send_email")
  channel := some (txt "email")
  environment := some (txt "production")
  rank := rank
  metadata := Dict.ofItems [(txt "precedent_resolution", .dict sampleResolution)]

def sampleRetrieval : RetrievalContext where
  precedents := [sampleRetrieved (txt "a") 1, sampleRetrieved (txt "b") 2, sampleRetrieved (txt "c") 3]
  unique_ranks := by decide
  unique_ids := by decide

def sampleBase : RoutingResult where
  verdict := .abstain
  confidence := 1
  finalScore := 0
  reasons := []
  uncertaintyFlags := [txt "borderline_fused_score"]
  findings := []
  scores := Dict.empty
  asiFindings := []
  semanticDominanceOverrideFired := false
  reasons_clean := clean_nil
  flags_clean := by decide

def sampleEdge : Str × Str × Str := (txt "send_email", txt "email", txt "production")

set_option maxRecDepth 2000 in
theorem sample_survivors :
    ∃ survivors fact payload,
      eligibleSurvivors sampleBuiltins samplePolicy sampleRequest (txt "acme") sampleEdge
        sampleRetrieval.precedents = .ok survivors ∧
      survivors.length = 3 ∧ (∀ s ∈ survivors, s.2.resolutionVerdict = txt "PERMIT") ∧
      (recordHashes survivors).length = 1 ∧
      buildPrecedentFact sampleBuiltins samplePolicy sampleRequest (txt "acme") sampleEdge survivors =
        .ok fact ∧
      toJson fact.canonicalPayload = .ok payload := by
  have hsample : ((eligibleSurvivors sampleBuiltins samplePolicy sampleRequest (txt "acme")
      sampleEdge sampleRetrieval.precedents).toOption.any fun survivors =>
        survivors.length = 3 ∧ (∀ s ∈ survivors, s.2.resolutionVerdict = txt "PERMIT") ∧
        (recordHashes survivors).length = 1 ∧
        (buildPrecedentFact sampleBuiltins samplePolicy sampleRequest (txt "acme") sampleEdge
          survivors).toOption.any fun fact => (toJson fact.canonicalPayload).isOk) = true := by
    with_unfolding_all decide
  cases h : eligibleSurvivors sampleBuiltins samplePolicy sampleRequest (txt "acme")
      sampleEdge sampleRetrieval.precedents with
  | error e =>
    rw [h] at hsample
    cases hsample
  | ok survivors =>
    rw [h] at hsample
    obtain ⟨hlength, hpermits, hone, hwritten⟩ := of_decide_eq_true hsample
    cases hfact : buildPrecedentFact sampleBuiltins samplePolicy sampleRequest (txt "acme")
        sampleEdge survivors with
    | error e =>
      rw [hfact] at hwritten
      cases hwritten
    | ok fact =>
      rw [hfact] at hwritten
      cases hpayload : toJson fact.canonicalPayload with
      | error e =>
        simp [Except.toOption, hpayload, Except.isOk, Except.toBool] at hwritten
      | ok payload => exact ⟨survivors, fact, payload, rfl, hlength, hpermits, hone, hfact, hpayload⟩

/-- One sealed resolution behind three decisions permits where three are
asked for. -/
theorem one_resolution_permits :
    ¬ PermitNeedsPrecedents sampleBuiltins samplePolicy sampleRequest sampleRetrieval sampleBase
      (some .fresh) := by
  obtain ⟨survivors, fact, payload, heligible, hlength, hpermits, hone, hfact, hpayload⟩ :=
    sample_survivors
  obtain ⟨record, after, hseals⟩ := @sealPrecedentInfluence_returns _ _ _ .fresh _ _ _ _ _ hfact
    hpayload fun recordHash => ⟨recordHash, rfl⟩
  have hgates : Resolves sampleBuiltins samplePolicy sampleRequest sampleRetrieval sampleBase .fresh
      after (txt "acme") sampleEdge survivors record :=
    { switch := rfl
      resolvable := ⟨rfl, List.cons_ne_nil _ _, by decide⟩
      sameTenant := by decide
      sameEdge := by decide
      eligible := heligible
      count := hlength.ge
      permits := hpermits
      seals := hseals }
  obtain ⟨r, hr, hpermit⟩ :=
    @resolve_permits sampleBuiltins samplePolicy sampleBase (txt "acme") sampleEdge survivors
  have hout := resolve_of_gates hgates
  rw [hr] at hout
  intro h
  obtain ⟨⟨tenant, edge, cited, hcited⟩, -⟩ := (h r _ hout).1 hpermit (by decide)
  obtain rfl := Option.some.inj (hgates.sameTenant.symm.trans hcited.requestTenant)
  obtain rfl := Option.some.inj (hgates.sameEdge.symm.trans hcited.requestEdge)
  have hle := distinct_le (fun s hs => (mem_survivors_iff_counts heligible s).mpr (hcited.count s hs))
    hcited.distinct
  have henough : 3 ≤ cited.length := hcited.enough
  omega

end TexGovernance.Engine.PrecedentInfluence
