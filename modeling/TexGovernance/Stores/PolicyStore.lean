import TexGovernance.Domain.Models
import TexGovernance.Stores.AgentRegistry

/-!
# The policy store

`InMemoryPolicyStore` (`stores/policy_store.py`) and the descriptors of its four writes
(`selfgov/governor.py`). Several stored snapshots may carry the active flag; the one that was
saved last is the active policy.
-/

namespace TexGovernance.Stores
open PyStr PyRepr PyDict PyJson CaseFold Actions Domain Selfgov

def without (version : Str) (versions : List Str) : List Str := versions.filter fun stored => stored ≠ version

def unfile (families : Dict Str (List Str)) (version policyId : Str) : Dict Str (List Str) :=
  let updated := without version ((families.get? policyId).getD [])
  if updated = [] then families.pop policyId else families.set policyId updated

structure PolicyStore (fold : CaseFolding) where
  byVersion : Dict Str (PolicySnapshot fold)
  orderedVersions : List Str
  versionsByPolicyId : Dict Str (List Str)
  nodup : orderedVersions.Nodup
  listed : ∀ version, version ∈ orderedVersions ↔ byVersion.get? version ≠ none
  filed : ∀ version policy, byVersion.get? version = some policy → policy.version.text = version

namespace PolicyStore

variable {fold : CaseFolding} (store : PolicyStore fold)

def fresh : PolicyStore fold :=
  ⟨.empty, [], .empty, List.nodup_nil, fun _ => ⟨nofun, fun h => absurd rfl h⟩, nofun⟩

def get (version : Str) : Option (PolicySnapshot fold) := store.byVersion.get? version

/-- The snapshot with the flag that was saved last. -/
def getActive : Option (PolicySnapshot fold) :=
  store.orderedVersions.reverse.findSome? fun version =>
    (store.get version).filter fun policy => policy.isActive

def unlisted (version : Str) : List Str × Dict Str (List Str) :=
  match store.get version with
  | none => (store.orderedVersions, store.versionsByPolicyId)
  | some existing =>
    (without version store.orderedVersions, unfile store.versionsByPolicyId version existing.policyId.text)

theorem mem_without {version stored : Str} {versions : List Str} :
    stored ∈ without version versions ↔ stored ∈ versions ∧ stored ≠ version := by
  simp [without]

theorem unlisted_versions (version : Str) :
    (store.unlisted version).1 = without version store.orderedVersions := by
  unfold unlisted
  cases hget : store.get version with
  | none =>
    refine (List.filter_eq_self.mpr fun stored hmem => ?_).symm
    have hne : stored ≠ version := by
      intro heq
      exact (store.listed version).mp (heq ▸ hmem) hget
    exact decide_eq_true hne
  | some existing => rfl

theorem nodup_without (version : Str) : (without version store.orderedVersions).Nodup :=
  store.nodup.filter _

def put (policy : PolicySnapshot fold) : PolicyStore fold where
  byVersion := store.byVersion.set policy.version.text policy
  orderedVersions := (store.unlisted policy.version.text).1 ++ [policy.version.text]
  versionsByPolicyId :=
    let families := (store.unlisted policy.version.text).2
    families.set policy.policyId.text ((families.get? policy.policyId.text).getD [] ++ [policy.version.text])
  nodup := by
    rw [unlisted_versions]
    refine List.Nodup.append (store.nodup_without _) (List.nodup_singleton _) ?_
    simp [mem_without]
  listed version := by
    rw [unlisted_versions, List.mem_append, mem_without, List.mem_singleton, store.listed, Dict.get?_set]
    by_cases heq : version = policy.version.text
    · simp [heq]
    · simp [heq]
  filed version stored hget := by
    rw [Dict.get?_set] at hget
    by_cases heq : version = policy.version.text
    · rw [if_pos heq, Option.some.injEq] at hget
      rw [heq, hget]
    · rw [if_neg heq] at hget
      exact store.filed version stored hget

def withFlags (version : Str) (versions : List Str) (found : Dict Str (PolicySnapshot fold)) :
    Dict Str (PolicySnapshot fold) :=
  versions.foldl (fun found existing =>
    match found.get? existing with
    | none => found
    | some policy =>
      if policy.isActive = decide (existing = version) then found
      else found.set existing { policy with isActive := decide (existing = version) }) found

theorem get?_withFlags (version : Str) (versions : List Str) (found : Dict Str (PolicySnapshot fold)) (k : Str) :
    (withFlags version versions found).get? k =
      if k ∈ versions then (found.get? k).map fun policy => { policy with isActive := decide (k = version) }
      else found.get? k := by
  induction versions generalizing found with
  | nil => simp [withFlags]
  | cons existing versions ih =>
    have hcons : withFlags version (existing :: versions) found = withFlags version versions
        (withFlags version [existing] found) := rfl
    have hone : ∀ k, (withFlags version [existing] found).get? k =
        if k = existing then (found.get? k).map fun policy => { policy with isActive := decide (k = version) }
        else found.get? k := by
      intro k
      simp only [withFlags, List.foldl_cons, List.foldl_nil]
      cases hget : found.get? existing with
      | none =>
        by_cases hk : k = existing
        · simp [hk, hget]
        · simp [hk]
      | some policy =>
        by_cases hflag : policy.isActive = decide (existing = version)
        · by_cases hk : k = existing
          · simp [hk, hget, ← hflag]
          · simp [hk, hflag]
        · by_cases hk : k = existing
          · simp [hk, hget, hflag]
          · simp [hk, hflag]
    rw [hcons, ih, hone]
    by_cases hk : k = existing
    · by_cases hmem : k ∈ versions
      · simp [← hk, hmem, Option.map_map, Function.comp_def]
      · simp [← hk, hmem]
    · simp [hk]

theorem get?_flags (version k : Str) : (withFlags version store.orderedVersions store.byVersion).get? k =
    (store.get k).map fun policy => { policy with isActive := decide (k = version) } := by
  rw [get?_withFlags]
  by_cases hmem : k ∈ store.orderedVersions
  · rw [if_pos hmem]
    rfl
  · have hnone : store.byVersion.get? k = none := by
      by_contra hne
      exact hmem ((store.listed k).mpr hne)
    rw [if_neg hmem, hnone, get, hnone]
    rfl

def flagged (version : Str) : PolicyStore fold where
  byVersion := withFlags version store.orderedVersions store.byVersion
  orderedVersions := store.orderedVersions
  versionsByPolicyId := store.versionsByPolicyId
  nodup := store.nodup
  listed k := by
    rw [get?_flags, ne_eq, Option.map_eq_none_iff]
    exact store.listed k
  filed k policy hget := by
    rw [get?_flags, Option.map_eq_some_iff] at hget
    obtain ⟨stored, hstored, rfl⟩ := hget
    exact store.filed k stored hstored

def remove (version : Str) : PolicyStore fold where
  byVersion := store.byVersion.pop version
  orderedVersions := (store.unlisted version).1
  versionsByPolicyId := (store.unlisted version).2
  nodup := by
    rw [unlisted_versions]
    exact store.nodup_without version
  listed k := by
    rw [unlisted_versions, mem_without, store.listed, Dict.get?_pop]
    by_cases heq : k = version
    · simp [heq]
    · simp [heq]
  filed k policy hget := by
    rw [Dict.get?_pop] at hget
    by_cases heq : k = version
    · rw [if_pos heq] at hget
      cases hget
    · rw [if_neg heq] at hget
      exact store.filed k policy hget

end PolicyStore

section Writes

variable {fold : CaseFolding}

/-- Whether two lots of settings are equal as `model_dump(mode="json")` writes them. -/
abbrev SameJson := List (Str × PyObj) → List (Str × PyObj) → Except PyErr Bool

variable (sameJson : SameJson)

/-- Whether two snapshots are equal as `model_dump(mode="json")` writes them. -/
def sameDump (a b : PolicySnapshot fold) : Except PyErr Bool := do
  let same ← sameJson a.settings b.settings
  return same && decide (a.policyId = b.policyId ∧ a.version = b.version ∧ a.isActive = b.isActive ∧
    a.permitThreshold = b.permitThreshold ∧ a.forbidThreshold = b.forbidThreshold ∧
    a.minimumConfidence = b.minimumConfidence ∧
    a.deterministicBlockSeverities = b.deterministicBlockSeverities ∧
    a.enabledRecognizers = b.enabledRecognizers ∧ a.blockedTerms = b.blockedTerms ∧
    a.sensitiveEntities = b.sensitiveEntities)

def resaves (store : PolicyStore fold) (policy : PolicySnapshot fold) : Except PyErr Bool :=
  match store.get policy.version.text with
  | none => .ok false
  | some existing => sameDump sameJson existing policy

def replacesActive (store : PolicyStore fold) (policy : PolicySnapshot fold) : Bool :=
  (store.get policy.version.text).any fun existing => existing.isActive

def saveAxes (store : PolicyStore fold) (policy : PolicySnapshot fold) : List Str :=
  weakeningAxes ((store.getActive <|> store.get policy.version.text).map policyFacts) (some (policyFacts policy))

def savedItems (policy : PolicySnapshot fold) : List (Str × PyObj) :=
  [(txt "version", .str policy.version.text), (txt "policy_id", .str policy.policyId.text),
    (txt "new_policy_id", .str policy.policyId.text), (txt "is_active_flag", .bool policy.isActive)]

def changeItems (store : PolicyStore fold) (policy : PolicySnapshot fold) : List (Str × PyObj) :=
  if replacesActive store policy ∨ policy.isActive then
    [(txt "weakening_axes", .list ((saveAxes store policy).map .str)),
      (txt "replaces_active", .bool (replacesActive store policy))]
  else match store.get policy.version.text with
    | none => [(txt "stage_write", .bool true)]
    | some _ => []

def describePolicySave (store : PolicyStore fold) (policy : PolicySnapshot fold) :
    Except PyErr MutationDescriptor := do
  let same ← resaves sameJson store policy
  return {
    surface := txt "tex.stores.policy_store.InMemoryPolicyStore.save"
    mutationClass := policyWrite
    subjectId := some policy.version.text
    payload := .ofItems (savedItems policy ++
      if same then [(txt "no_change", .bool true)] else changeItems store policy) }

def activateAxes (store : PolicyStore fold) (target : PolicySnapshot fold) : List Str :=
  weakeningAxes (store.getActive.map policyFacts) (some (policyFacts target))

def activePolicy (store : PolicyStore fold) (version : Str) : Bool :=
  store.getActive.any fun active => active.version.text = version

def activateItems (store : PolicyStore fold) (version : Str) : List (Str × PyObj) :=
  match store.get version with
  | none => [(txt "version", .str version), (txt "no_change", .bool true), (txt "target_missing", .bool true)]
  | some target =>
    [(txt "version", .str version), (txt "policy_id", .str target.policyId.text)] ++
      if activePolicy store version then [(txt "no_change", .bool true)]
      else [(txt "weakening_axes", .list ((activateAxes store target).map .str))]

def describePolicyActivate (store : PolicyStore fold) (version : Str) : MutationDescriptor where
  surface := txt "tex.stores.policy_store.InMemoryPolicyStore.activate"
  mutationClass := policyActivate
  subjectId := some version
  payload := .ofItems (activateItems store version)

def deleteItems (store : PolicyStore fold) (version : Str) : List (Str × PyObj) :=
  match store.get version with
  | none => [(txt "version", .str version), (txt "no_change", .bool true), (txt "target_missing", .bool true)]
  | some target =>
    [(txt "version", .str version), (txt "policy_id", .str target.policyId.text),
      (txt "active_deleted", .bool target.isActive)]

def describePolicyDelete (store : PolicyStore fold) (version : Str) : MutationDescriptor where
  surface := txt "tex.stores.policy_store.InMemoryPolicyStore.delete"
  mutationClass := policyDelete
  subjectId := some version
  payload := .ofItems (deleteItems store version)

def clearItems (store : PolicyStore fold) : List (Str × PyObj) :=
  [(txt "count", .int store.byVersion.items.length)] ++
    if store.byVersion.items.length = 0 then [(txt "no_change", .bool true)] else []

def describePolicyClear (store : PolicyStore fold) : MutationDescriptor where
  surface := txt "tex.stores.policy_store.InMemoryPolicyStore.clear"
  mutationClass := policyClear
  subjectId := none
  payload := .ofItems (clearItems store)

variable (draws : Draws) (py : Interpreter) (binding : Option Binding)

def savePolicyIf (policy : PolicySnapshot fold) (allowed : Bool) :
    EStateM PyErr (World (PolicyStore fold)) Unit := do
  if allowed = false then
    return
  modify fun w => { w with store := w.store.put policy }

def savePolicy (policy : PolicySnapshot fold) : EStateM PyErr (World (PolicyStore fold)) Unit :=
  gated draws py binding (fun store => describePolicySave sameJson store policy) >>= savePolicyIf policy

def activateIf (version : Str) (allowed : Bool) :
    EStateM PyErr (World (PolicyStore fold)) (PolicySnapshot fold) := fun w =>
  match w.store.get version with
  | none => .error .other w
  | some target =>
    if allowed = false then .ok target w
    else .ok { target with isActive := true } { w with store := w.store.flagged version }

def activate (version : Str) : EStateM PyErr (World (PolicyStore fold)) (PolicySnapshot fold) :=
  gated draws py binding (fun store => .ok (describePolicyActivate store version)) >>= activateIf version

def deleteIf (version : Str) (allowed : Bool) : EStateM PyErr (World (PolicyStore fold)) Unit := do
  if allowed = false then
    return
  match (← get).store.get version with
  | none => throw .other
  | some _ => modify fun w => { w with store := w.store.remove version }

def delete (version : Str) : EStateM PyErr (World (PolicyStore fold)) Unit :=
  gated draws py binding (fun store => .ok (describePolicyDelete store version)) >>= deleteIf version

def clearIf (allowed : Bool) : EStateM PyErr (World (PolicyStore fold)) Unit := do
  if allowed = false then
    return
  modify fun w => { w with store := .fresh }

def clear : EStateM PyErr (World (PolicyStore fold)) Unit :=
  gated draws py binding (fun store => .ok (describePolicyClear store)) >>= clearIf

inductive PolicyCall (fold : CaseFolding) where
  | save (policy : PolicySnapshot fold)
  | activate (version : Str)
  | delete (version : Str)
  | clear

def performPolicy (w : World (PolicyStore fold)) : PolicyCall fold → World (PolicyStore fold)
  | .save policy => after (savePolicy sameJson draws py binding policy) w
  | .activate version => after (activate draws py binding version) w
  | .delete version => after (delete draws py binding version) w
  | .clear => after (clear draws py binding) w

def runPolicyCalls (start : World (PolicyStore fold)) (calls : List (PolicyCall fold)) :
    World (PolicyStore fold) :=
  calls.foldl (performPolicy sameJson draws py binding) start

end Writes

end TexGovernance.Stores
