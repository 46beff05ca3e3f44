import TexGovernance.Engine.ContractBridge
import TexGovernance.Lib.KeepFirst
import TexGovernance.Lib.PyRepr
import TexGovernance.Lib.PyStr
import TexGovernance.Selfgov.Metaguard

/-!
# Agents, what they may do, and policy snapshots

`AgentIdentity` and `CapabilitySurface` (`domain/agent.py`), as far as the
standing watch and the registry read them: the normal form of the lists of a
surface and the four checks of an action against them. An empty list restricts
nothing.
-/

namespace TexGovernance.Domain
open PyStr PyRepr CaseFold KeepFirst
open Engine (Uuid)

inductive AgentLifecycleStatus where
  | pending
  | active
  | quarantined
  | sleeping
  | revoked
  deriving DecidableEq

def AgentLifecycleStatus.value : AgentLifecycleStatus → Str
  | .pending => txt "PENDING"
  | .active => txt "ACTIVE"
  | .quarantined => txt "QUARANTINED"
  | .sleeping => txt "SLEEPING"
  | .revoked => txt "REVOKED"

section Texts

variable (fold : CaseFolding)

structure CleanTexts where
  texts : List Str
  clean : ∀ t ∈ texts, fold.clean t = t
  nonblank : [] ∉ texts
  nodup : texts.Nodup

def CleanTexts.none : CleanTexts fold := ⟨[], nofun, List.not_mem_nil, List.nodup_nil⟩

theorem clean_of_mem_keepFirst {items : List Str} {t : Str}
    (h : t ∈ keepFirst id (items.map fold.clean)) : fold.clean t = t := by
  obtain ⟨s, -, rfl⟩ := List.mem_map.mp (keepFirst_subset _ h)
  exact fold.clean_clean s

/-- `_normalize_lowercase_string_tuple` on a list of texts. -/
def normalizeLowercaseStringTuple (items : List Str) : Except PyErr (CleanTexts fold) :=
  let candidates := items.map fold.clean
  if hblank : [] ∈ candidates then .error .valueError
  else .ok
    { texts := keepFirst id candidates
      clean := fun _ ht => clean_of_mem_keepFirst fold ht
      nonblank := fun h => hblank (keepFirst_subset _ h)
      nodup := by simpa using (keepFirst_nodup candidates : ((keepFirst id candidates).map id).Nodup) }

end Texts

structure CapabilitySurface (fold : CaseFolding) where
  allowedActionTypes : CleanTexts fold
  allowedChannels : CleanTexts fold
  allowedEnvironments : CleanTexts fold
  allowedRecipientDomains : CleanTexts fold
  allowedTools : CleanTexts fold
  allowedMcpServers : CleanTexts fold
  dataScopes : CleanTexts fold
  maxActionsPerHour : Option { n : ℕ // 1 ≤ n }

/-- The text behind the first `needle`. -/
def behind? (needle : Str) : Str → Option Str
  | [] => if needle = [] then some [] else none
  | c :: rest =>
    if needle <+: c :: rest then some ((c :: rest).drop needle.length) else behind? needle rest

/-- What `permits_recipient` compares with the allowed domains. -/
def recipientDomain (normalized : Str) : Str :=
  if cp '@' ∈ normalized then normalized.rtakeWhile fun c => c ≠ cp '@'
  else match behind? (txt "://") normalized with
    | some afterScheme => afterScheme.takeWhile fun c => c ≠ cp '/'
    | none => normalized

def inDomain (domain allowed : Str) : Bool := domain = allowed ∨ cp '.' :: allowed <:+ domain

namespace CapabilitySurface

variable {fold : CaseFolding} (surface : CapabilitySurface fold)

def unrestricted (fold : CaseFolding) : CapabilitySurface fold :=
  ⟨.none fold, .none fold, .none fold, .none fold, .none fold, .none fold, .none fold, none⟩

def permitsActionType (actionType : Str) : Bool :=
  surface.allowedActionTypes.texts = [] ∨ fold.clean actionType ∈ surface.allowedActionTypes.texts

def permitsChannel (channel : Str) : Bool :=
  surface.allowedChannels.texts = [] ∨ fold.clean channel ∈ surface.allowedChannels.texts

def permitsEnvironment (environment : Str) : Bool :=
  surface.allowedEnvironments.texts = [] ∨ fold.clean environment ∈ surface.allowedEnvironments.texts

def permitsRecipient (recipient : Option Str) : Bool :=
  if surface.allowedRecipientDomains.texts = [] then true
  else match recipient with
    | none => false
    | some recipient =>
      let domain := recipientDomain (fold.clean recipient)
      if domain = [] then false
      else surface.allowedRecipientDomains.texts.any fun allowed => inDomain domain allowed

end CapabilitySurface

structure AgentIdentity (fold : CaseFolding) where
  agentId : Uuid
  name : FieldText 200
  stripped : strip name.text = name.text
  tenantId : FieldText 200
  normalized : fold.clean tenantId.text = tenantId.text
  lifecycleStatus : AgentLifecycleStatus
  capabilitySurface : CapabilitySurface fold

end TexGovernance.Domain

/-!
## Policy snapshots and how strict they are

`PolicySnapshot` (`domain/policy.py`), as far as its store and the governor read it, and the
named axes on which one snapshot may be looser than another.
-/

namespace TexGovernance.Domain
open PyStr PyRepr PyJson CaseFold Selfgov
open Engine (Severity)

def severityValue : Severity → Str
  | .info => txt "INFO"
  | .warning => txt "WARNING"
  | .critical => txt "CRITICAL"

theorem severityValue_injective : Function.Injective severityValue := by
  intro a b h
  cases a <;> cases b <;> simp_all [severityValue, txt_inj]

/-- A copy that `model_copy` makes is not validated again, so the thresholds may be in any
relation to each other. -/
structure PolicySnapshot (fold : CaseFolding) where
  policyId : FieldText 255
  folded : fold.clean policyId.text = policyId.text
  version : FieldText 100
  stripped : strip version.text = version.text
  isActive : Bool
  permitThreshold : ℚ
  forbidThreshold : ℚ
  minimumConfidence : ℚ
  deterministicBlockSeverities : List Severity
  enabledRecognizers : List Str
  blockedTerms : List Str
  sensitiveEntities : List Str
  settings : List (Str × PyObj)

/-- `_policy_facts`. -/
def policyFacts {fold : CaseFolding} (policy : PolicySnapshot fold) : PolicyFacts where
  permitThreshold := some policy.permitThreshold
  forbidThreshold := some policy.forbidThreshold
  minimumConfidence := some policy.minimumConfidence
  blockedTerms := policy.blockedTerms
  enabledRecognizers := policy.enabledRecognizers
  deterministicBlockSeverities := policy.deterministicBlockSeverities.map severityValue
  sensitiveEntities := policy.sensitiveEntities

structure KeepsProtections {fold : CaseFolding} (old new : PolicySnapshot fold) : Prop where
  severities : old.deterministicBlockSeverities ⊆ new.deterministicBlockSeverities
  recognizers : old.enabledRecognizers ⊆ new.enabledRecognizers
  terms : old.blockedTerms ⊆ new.blockedTerms
  entities : old.sensitiveEntities ⊆ new.sensitiveEntities

/-- The second is on no named axis looser than the first by more than `slack`. -/
structure StrictWithin {fold : CaseFolding} (slack : ℚ) (old new : PolicySnapshot fold) : Prop where
  permit : new.permitThreshold ≤ old.permitThreshold + slack
  forbid : new.forbidThreshold ≤ old.forbidThreshold + slack
  confidence : old.minimumConfidence - slack ≤ new.minimumConfidence
  protections : KeepsProtections old new

abbrev NotWeaker {fold : CaseFolding} (old new : PolicySnapshot fold) : Prop := StrictWithin 0 old new

section Strictness

variable {fold : CaseFolding} {old new next : PolicySnapshot fold} {slack : ℚ}

theorem NotWeaker.refl (policy : PolicySnapshot fold) : NotWeaker policy policy where
  permit := by simp
  forbid := by simp
  confidence := by simp
  protections := ⟨List.Subset.refl _, List.Subset.refl _, List.Subset.refl _, List.Subset.refl _⟩

theorem NotWeaker.trans (h : NotWeaker old new) (h' : NotWeaker new next) : NotWeaker old next where
  permit := by
    have hfirst := h.permit
    have hsecond := h'.permit
    linarith
  forbid := by
    have hfirst := h.forbid
    have hsecond := h'.forbid
    linarith
  confidence := by
    have hfirst := h.confidence
    have hsecond := h'.confidence
    linarith
  protections :=
    { severities := List.Subset.trans h.protections.severities h'.protections.severities
      recognizers := List.Subset.trans h.protections.recognizers h'.protections.recognizers
      terms := List.Subset.trans h.protections.terms h'.protections.terms
      entities := List.Subset.trans h.protections.entities h'.protections.entities }

theorem StrictWithin.flag (h : StrictWithin slack old new) (active : Bool) :
    StrictWithin slack old { new with isActive := active } :=
  ⟨h.permit, h.forbid, h.confidence,
    ⟨h.protections.severities, h.protections.recognizers, h.protections.terms, h.protections.entities⟩⟩

theorem removesFrom_eq_false_iff {old new : List Str} : removesFrom old new = false ↔ old ⊆ new := by
  simp [removesFrom, List.subset_def]

theorem map_severityValue_subset {old new : List Severity} :
    old.map severityValue ⊆ new.map severityValue ↔ old ⊆ new := by
  constructor
  · intro h severity hmem
    obtain ⟨other, hother, heq⟩ := List.mem_map.mp (h (List.mem_map_of_mem hmem))
    rwa [← severityValue_injective heq]
  · exact List.map_subset _

theorem weakeningAxes_eq_nil_iff :
    weakeningAxes (some (policyFacts old)) (some (policyFacts new)) = [] ↔ StrictWithin eps old new := by
  unfold weakeningAxes
  simp only [List.append_eq_nil_iff, List.map_eq_nil_iff, thresholdAxes, protectionAxes, List.filter_eq_nil_iff,
    List.mem_cons, List.not_mem_nil, or_false, forall_eq_or_imp, forall_eq, ThresholdAxis.loosens, policyFacts,
    if_true, Bool.false_eq_true, if_false, Bool.not_eq_true, decide_eq_false_iff_not, not_lt, removesFrom_eq_false_iff,
    map_severityValue_subset]
  constructor
  · rintro ⟨⟨hpermit, hforbid, hconfidence⟩, hterms, hrecognizers, hseverities, hentities⟩
    exact ⟨hpermit, hforbid, hconfidence, hseverities, hrecognizers, hterms, hentities⟩
  · intro h
    exact ⟨⟨h.permit, h.forbid, h.confidence⟩, h.protections.terms, h.protections.recognizers,
      h.protections.severities, h.protections.entities⟩

end Strictness

end TexGovernance.Domain
