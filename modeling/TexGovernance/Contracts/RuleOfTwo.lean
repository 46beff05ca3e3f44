import TexGovernance.Camel.Interpreter
import TexGovernance.Contracts.Atoms

/-!
# The Rule of Two (`contracts/rule_of_two.py`)

Three buckets, each declared by an explicit boolean or derived from labelled
capabilities and from the action. `str`, `str.upper` and `str.casefold` are
parameters.
-/

namespace TexGovernance.Contracts
open PyStr

structure RuleOfTwoOutcome where
  fired : Bool
  untrustedInput : Bool
  sensitiveAccess : Bool
  stateChange : Bool
  humanOversight : Bool
  reason : Str
  code : Str
  evidence : List (Str × PyVal)

def trifectaReason : Str :=
  txt "Rule-of-Two trifecta proven: this flow simultaneously (A) ingests untrusted input, (B) accesses sensitive data, and (C) changes state or communicates externally, with no reliable human oversight. Per Meta's Agents Rule of Two, an autonomous agent must hold at most two of these three — all three is the lethal-trifecta exfiltration surface. Structural FORBID."

def supervisedReason : Str :=
  txt "Rule-of-Two trifecta present but declared under reliable human oversight — not autonomous, so not forbidden by this contract."

abbrev Block := List (Str × PyVal)

def confidentialityName : Camel.ConfidentialityLevel → Str
  | .public_ => txt "PUBLIC"
  | .internal => txt "INTERNAL"
  | .confidential => txt "CONFIDENTIAL"
  | .restricted => txt "RESTRICTED"

def isSensitive : Camel.ConfidentialityLevel → Bool
  | .public_ | .internal => false
  | .confidential | .restricted => true

section Classifier

variable (strOf : PyVal → Str) (upper casefold : Str → Str)

def asBool : PyVal → Bool
  | .bool b => b
  | .int n => n = 1
  | .float q => q = 1
  | .str s => casefold (strip s) ∈ [txt "true", txt "1", txt "yes"]
  | _ => false

def labelOf (entry : Block) (key : Str) : Str :=
  upper (strip (strOf ((entry.lookup key).getD (.str []))))

def isUntrustedSource (entry : Block) : Bool :=
  [Camel.CapabilityLevel.trusted, .user, .untrusted].any fun level =>
    level.name = labelOf strOf upper entry (txt "level") && level = .untrusted

def isSensitiveSource (entry : Block) : Bool :=
  [Camel.ConfidentialityLevel.public_, .internal, .confidential, .restricted].any fun level =>
    confidentialityName level = labelOf strOf upper entry (txt "confidentiality") && isSensitive level

def mappings (caps : List PyVal) : List Block :=
  caps.filterMap fun
    | .dict items => some items
    | _ => none

def sourceOf (entry : Block) : PyVal := .str (strOf ((entry.lookup (txt "source")).getD (.str (txt "?"))))

def sourcesEntry (name : Str) (sources : List PyVal) : Block :=
  if sources = [] then [] else [(name, .seq sources)]

/-- `_derive_from_capabilities`. -/
def deriveFromCapabilities (raw : Block) : Bool × Bool × Block :=
  match raw.lookup (txt "capabilities") with
  | some (.seq caps) =>
    let untrusted := ((mappings caps).filter (isUntrustedSource strOf upper)).map (sourceOf strOf)
    let sensitive := ((mappings caps).filter (isSensitiveSource strOf upper)).map (sourceOf strOf)
    (!untrusted.isEmpty, !sensitive.isEmpty,
      sourcesEntry (txt "untrusted_sources") untrusted ++ sourcesEntry (txt "sensitive_sources") sensitive)
  | _ => (false, false, [])

/-- `_derive_state_change`. -/
def deriveStateChange (raw : Block) : Bool × Block :=
  match raw.lookup (txt "action") with
  | some (.dict action) =>
    let triggers := [txt "state_change", txt "external", txt "irreversible", txt "egress"].filter
      fun k => asBool casefold ((action.lookup k).getD .none)
    (!triggers.isEmpty, triggers.map fun k => (txt "action_" ++ k, .bool true))
  | _ => (false, [])

def classifyRuleOfTwo (raw : Block) : RuleOfTwoOutcome :=
  let (untrusted, sensitive, derivedEvidence) :=
    if (raw.lookup (txt "untrusted_input")).isSome || (raw.lookup (txt "sensitive_access")).isSome then
      (asBool casefold ((raw.lookup (txt "untrusted_input")).getD .none),
        asBool casefold ((raw.lookup (txt "sensitive_access")).getD .none), [])
    else deriveFromCapabilities strOf upper raw
  let (stateChange, actionEvidence) :=
    match raw.lookup (txt "state_change") with
    | some v => (asBool casefold v, [])
    | none => deriveStateChange casefold raw
  let humanOversight := asBool casefold ((raw.lookup (txt "human_oversight")).getD .none)
  let trifecta := untrusted && sensitive && stateChange
  { fired := trifecta && !humanOversight
    untrustedInput := untrusted
    sensitiveAccess := sensitive
    stateChange := stateChange
    humanOversight := humanOversight
    reason := if trifecta && !humanOversight then trifectaReason
      else if trifecta && humanOversight then supervisedReason else []
    code := txt "rule_of_two.trifecta"
    evidence := derivedEvidence ++ actionEvidence }

def explicitOr (raw : Block) (key : Str) (derived : Bool) : Bool :=
  ((raw.lookup key).map (asBool casefold)).getD derived

structure BucketsIndependent (raw : Block) : Prop where
  untrusted : (classifyRuleOfTwo strOf upper casefold raw).untrustedInput =
    explicitOr casefold raw (txt "untrusted_input") (deriveFromCapabilities strOf upper raw).1
  sensitive : (classifyRuleOfTwo strOf upper casefold raw).sensitiveAccess =
    explicitOr casefold raw (txt "sensitive_access") (deriveFromCapabilities strOf upper raw).2.1
  stateChange : (classifyRuleOfTwo strOf upper casefold raw).stateChange =
    explicitOr casefold raw (txt "state_change") (deriveStateChange casefold raw).1

structure Extends (raw raw' : Block) : Prop where
  capabilities : ∀ caps, raw.lookup (txt "capabilities") = some (.seq caps) →
    ∃ caps', raw'.lookup (txt "capabilities") = some (.seq caps') ∧ caps ⊆ caps'
  explicit : ∀ key ∈ [txt "untrusted_input", txt "sensitive_access", txt "state_change"],
    raw'.lookup key = raw.lookup key ∨ raw'.lookup key = some (.bool true)
  others : ∀ key ∈ [txt "action", txt "human_oversight"], raw'.lookup key = raw.lookup key

/-- A key alone does not hide what the capabilities prove of the other bucket. -/
def KeysHideNothing (raw : Block) : Prop :=
  ((raw.lookup (txt "untrusted_input")).isSome = true → raw.lookup (txt "sensitive_access") = none →
    (deriveFromCapabilities strOf upper raw).2.1 = false) ∧
  ((raw.lookup (txt "sensitive_access")).isSome = true → raw.lookup (txt "untrusted_input") = none →
    (deriveFromCapabilities strOf upper raw).1 = false)

/-- The trifecta is proven with both capability buckets derived. -/
def FiresDerived (raw : Block) : Prop :=
  raw.lookup (txt "untrusted_input") = none ∧ raw.lookup (txt "sensitive_access") = none ∧
  (deriveFromCapabilities strOf upper raw).1 = true ∧ (deriveFromCapabilities strOf upper raw).2.1 = true ∧
  explicitOr casefold raw (txt "state_change") (deriveStateChange casefold raw).1 = true ∧
  asBool casefold ((raw.lookup (txt "human_oversight")).getD .none) = false

variable {strOf upper casefold} {raw raw' : Block}

theorem classify_stateChange : (classifyRuleOfTwo strOf upper casefold raw).stateChange =
    explicitOr casefold raw (txt "state_change") (deriveStateChange casefold raw).1 := by
  unfold classifyRuleOfTwo explicitOr
  cases raw.lookup (txt "state_change") <;> rfl

theorem fired_iff : (classifyRuleOfTwo strOf upper casefold raw).fired = true ↔
    (classifyRuleOfTwo strOf upper casefold raw).untrustedInput = true ∧
    (classifyRuleOfTwo strOf upper casefold raw).sensitiveAccess = true ∧
    explicitOr casefold raw (txt "state_change") (deriveStateChange casefold raw).1 = true ∧
    asBool casefold ((raw.lookup (txt "human_oversight")).getD .none) = false := by
  rw [← @classify_stateChange strOf upper casefold raw]
  unfold classifyRuleOfTwo
  simp only [Bool.and_eq_true, Bool.not_eq_true', and_assoc]

theorem classify_buckets :
    ((classifyRuleOfTwo strOf upper casefold raw).untrustedInput,
      (classifyRuleOfTwo strOf upper casefold raw).sensitiveAccess) =
    match raw.lookup (txt "untrusted_input"), raw.lookup (txt "sensitive_access") with
    | none, none => ((deriveFromCapabilities strOf upper raw).1, (deriveFromCapabilities strOf upper raw).2.1)
    | some v, none => (asBool casefold v, false)
    | none, some w => (false, asBool casefold w)
    | some v, some w => (asBool casefold v, asBool casefold w) := by
  unfold classifyRuleOfTwo
  cases raw.lookup (txt "untrusted_input") <;> cases raw.lookup (txt "sensitive_access") <;> rfl

theorem independent_iff :
    BucketsIndependent strOf upper casefold raw ↔ KeysHideNothing strOf upper raw := by
  have hbuckets := @classify_buckets strOf upper casefold raw
  rw [Prod.mk.injEq] at hbuckets
  constructor
  · intro h
    have huntrusted := hbuckets.1.symm.trans h.untrusted
    have hsensitive := hbuckets.2.symm.trans h.sensitive
    unfold explicitOr at huntrusted hsensitive
    unfold KeysHideNothing
    cases hu : raw.lookup (txt "untrusted_input") <;> cases hs : raw.lookup (txt "sensitive_access") <;>
      simp_all
  · intro h
    refine ⟨?_, ?_, classify_stateChange⟩
    all_goals
      unfold explicitOr
      unfold KeysHideNothing at h
      cases hu : raw.lookup (txt "untrusted_input") <;> cases hs : raw.lookup (txt "sensitive_access") <;>
        simp_all

theorem mappings_subset {caps caps' : List PyVal} (h : caps ⊆ caps') : mappings caps ⊆ mappings caps' :=
  List.filterMap_subset _ h

theorem derived_grows (h : Extends raw raw') :
    ((deriveFromCapabilities strOf upper raw).1 = true →
      (deriveFromCapabilities strOf upper raw').1 = true) ∧
    ((deriveFromCapabilities strOf upper raw).2.1 = true →
      (deriveFromCapabilities strOf upper raw').2.1 = true) := by
  have hgrow : ∀ (p : Block → Bool) (caps caps' : List PyVal), caps ⊆ caps' →
      (!(((mappings caps).filter p).map (sourceOf strOf)).isEmpty) = true →
      (!(((mappings caps').filter p).map (sourceOf strOf)).isEmpty) = true := by
    intro p caps caps' hsub hne
    simp only [Bool.not_eq_true', List.isEmpty_eq_false_iff_exists_mem, List.mem_map, List.mem_filter] at hne ⊢
    obtain ⟨s, e, ⟨he, hp⟩, hs⟩ := hne
    exact ⟨s, e, ⟨mappings_subset hsub he, hp⟩, hs⟩
  unfold deriveFromCapabilities
  cases hcaps : raw.lookup (txt "capabilities") with
  | none => exact ⟨nofun, nofun⟩
  | some v =>
    cases v with
    | seq caps =>
      obtain ⟨caps', hcaps', hsub⟩ := h.capabilities caps hcaps
      rw [hcaps']
      exact ⟨hgrow _ caps caps' hsub, hgrow _ caps caps' hsub⟩
    | _ => exact ⟨nofun, nofun⟩

theorem stateChange_grows (h : Extends raw raw')
    (hchange : explicitOr casefold raw (txt "state_change") (deriveStateChange casefold raw).1 = true) :
    explicitOr casefold raw' (txt "state_change") (deriveStateChange casefold raw').1 = true := by
  have haction : deriveStateChange casefold raw' = deriveStateChange casefold raw := by
    unfold deriveStateChange
    rw [h.others (txt "action") (by simp)]
  rcases h.explicit (txt "state_change") (by simp) with hsame | htrue
  · rw [explicitOr, hsame, haction]
    exact hchange
  · rw [explicitOr, htrue]
    rfl

theorem buckets_grow (h : Extends raw raw')
    (hderived : FiresDerived strOf upper casefold raw →
      (raw'.lookup (txt "untrusted_input")).isSome = (raw'.lookup (txt "sensitive_access")).isSome)
    (hfired : (classifyRuleOfTwo strOf upper casefold raw).fired = true) :
    ((classifyRuleOfTwo strOf upper casefold raw').untrustedInput,
      (classifyRuleOfTwo strOf upper casefold raw').sensitiveAccess) = (true, true) := by
  obtain ⟨huntrusted, hsensitive, hchange, hoversight⟩ := fired_iff.mp hfired
  have hbuckets := @classify_buckets strOf upper casefold raw
  rw [huntrusted, hsensitive] at hbuckets
  rw [classify_buckets]
  have hkey := h.explicit (txt "untrusted_input") (by simp)
  have hkey' := h.explicit (txt "sensitive_access") (by simp)
  cases hu : raw.lookup (txt "untrusted_input") with
  | none =>
    cases hs : raw.lookup (txt "sensitive_access") with
    | none =>
      rw [hu, hs] at hbuckets
      obtain ⟨hfirst, hsecond⟩ := Prod.mk.inj hbuckets
      have hsame := hderived ⟨hu, hs, hfirst.symm, hsecond.symm, hchange, hoversight⟩
      obtain ⟨hproven, hproven'⟩ := @derived_grows strOf upper raw raw' h
      rw [hu] at hkey
      rw [hs] at hkey'
      rcases hkey with hkey | hkey <;> rcases hkey' with hkey' | hkey' <;> rw [hkey, hkey'] at hsame ⊢
      · exact Prod.ext (hproven hfirst.symm) (hproven' hsecond.symm)
      · cases hsame
      · cases hsame
      · rfl
    | some w =>
      rw [hu, hs] at hbuckets
      cases (Prod.mk.inj hbuckets).1
  | some v =>
    cases hs : raw.lookup (txt "sensitive_access") with
    | none =>
      rw [hu, hs] at hbuckets
      cases (Prod.mk.inj hbuckets).2
    | some w =>
      -- both are declared, and a key that is there only turns true
      rw [hu, hs] at hbuckets
      obtain ⟨hv, hw⟩ := Prod.mk.inj hbuckets
      rw [hu] at hkey
      rw [hs] at hkey'
      rcases hkey with hkey | hkey <;> rcases hkey' with hkey' | hkey' <;> rw [hkey, hkey']
      · exact hbuckets.symm
      · exact Prod.ext hv.symm rfl
      · exact Prod.ext rfl hw.symm
      · rfl

theorem not_fired_of_one_key (h : (raw.lookup (txt "untrusted_input")).isSome ≠
    (raw.lookup (txt "sensitive_access")).isSome) :
    (classifyRuleOfTwo strOf upper casefold raw).fired ≠ true := by
  intro hfired
  obtain ⟨huntrusted, hsensitive, -⟩ := fired_iff.mp hfired
  have hbuckets := @classify_buckets strOf upper casefold raw
  rw [huntrusted, hsensitive] at hbuckets
  cases hu : raw.lookup (txt "untrusted_input") <;> cases hs : raw.lookup (txt "sensitive_access") <;>
    rw [hu, hs] at hbuckets h
  · exact h rfl
  · cases (Prod.mk.inj hbuckets).1
  · cases (Prod.mk.inj hbuckets).2
  · exact h rfl

/-- The buckets of a block are decided independently and an extension of it
still fires exactly if no key hides what the capabilities prove. -/
theorem rule_of_two_iff (strOf : PyVal → Str) (upper casefold : Str → Str) (raw raw' : Block)
    (h : Extends raw raw') :
    (BucketsIndependent strOf upper casefold raw ∧
      ((classifyRuleOfTwo strOf upper casefold raw).fired = true →
        (classifyRuleOfTwo strOf upper casefold raw').fired = true)) ↔
    KeysHideNothing strOf upper raw ∧ (FiresDerived strOf upper casefold raw →
      (raw'.lookup (txt "untrusted_input")).isSome = (raw'.lookup (txt "sensitive_access")).isSome) := by
  rw [independent_iff]
  refine and_congr_right fun _ => ⟨fun hgrows hderived => ?_, fun hderived hfired => ?_⟩
  · obtain ⟨hu, hs, hfirst, hsecond, hchange, hoversight⟩ := hderived
    have hbuckets := @classify_buckets strOf upper casefold raw
    rw [hu, hs, hfirst, hsecond] at hbuckets
    obtain ⟨huntrusted, hsensitive⟩ := Prod.mk.inj hbuckets
    by_contra hone
    exact not_fired_of_one_key hone (hgrows (fired_iff.mpr ⟨huntrusted, hsensitive, hchange, hoversight⟩))
  · obtain ⟨-, -, hchange, hoversight⟩ := fired_iff.mp hfired
    obtain ⟨huntrusted, hsensitive⟩ := Prod.mk.inj (buckets_grow h hderived hfired)
    refine fired_iff.mpr ⟨huntrusted, hsensitive, stateChange_grows h hchange, ?_⟩
    rwa [h.others (txt "human_oversight") (by simp)]

end Classifier

def sampleStr : PyVal → Str
  | .str s => s
  | _ => []

/-- An untrusted mail and a restricted record, in an action that changes state. -/
def labelledBlock : Block :=
  [(txt "capabilities", .seq [
      .dict [(txt "level", .str (txt "UNTRUSTED")), (txt "confidentiality", .str (txt "PUBLIC"))],
      .dict [(txt "level", .str (txt "TRUSTED")), (txt "confidentiality", .str (txt "RESTRICTED"))]]),
    (txt "action", .dict [(txt "state_change", .bool true)])]

def declaredBlock : Block := (txt "untrusted_input", .bool true) :: labelledBlock

theorem Extends.refl (raw : Block) : Extends raw raw :=
  ⟨fun caps h => ⟨caps, h, List.Subset.refl _⟩, fun _ _ => .inl rfl, fun _ _ => rfl⟩

theorem declaredBlock_extends : Extends labelledBlock declaredBlock := by
  have hskip : ∀ key, key ≠ txt "untrusted_input" → declaredBlock.lookup key = labelledBlock.lookup key := by
    intro key hne
    rw [declaredBlock, List.lookup_cons, beq_eq_false_iff_ne.mpr hne]
  refine ⟨fun caps h => ⟨caps, ?_, List.Subset.refl _⟩, ?_, fun key hkey => hskip key ?_⟩
  · rwa [hskip _ (by decide)]
  · intro key _
    by_cases hne : key = txt "untrusted_input"
    · rw [hne, declaredBlock, List.lookup_cons_self]
      exact .inr rfl
    · exact .inl (hskip key hne)
  · revert key
    decide

theorem rule_of_two_sample :
    (BucketsIndependent sampleStr id id labelledBlock ∧
      ((classifyRuleOfTwo sampleStr id id labelledBlock).fired = true →
        (classifyRuleOfTwo sampleStr id id labelledBlock).fired = true)) ↔
    KeysHideNothing sampleStr id labelledBlock ∧ (FiresDerived sampleStr id id labelledBlock →
      (labelledBlock.lookup (txt "untrusted_input")).isSome =
        (labelledBlock.lookup (txt "sensitive_access")).isSome) :=
  rule_of_two_iff sampleStr id id labelledBlock labelledBlock (.refl _)

/-- Declaring what the capabilities prove anyway makes the block stop firing. -/
theorem declared_bucket_stops_trifecta :
    Extends labelledBlock declaredBlock ∧
    (classifyRuleOfTwo sampleStr id id labelledBlock).fired = true ∧
    (classifyRuleOfTwo sampleStr id id declaredBlock).fired = false ∧
    ¬ BucketsIndependent sampleStr id id declaredBlock := by
  refine ⟨declaredBlock_extends, by decide, by decide, fun h => ?_⟩
  have hsensitive := h.sensitive
  revert hsensitive
  decide

end TexGovernance.Contracts
