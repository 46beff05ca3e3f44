import TexGovernance.Domain.Models
import TexGovernance.Selfgov.PermissiveGate

/-!
# The agent registry

`InMemoryAgentRegistry` (`stores/agent_registry.py`) and the descriptors of its two writes
(`selfgov/governor.py`).
-/

namespace TexGovernance.Stores
open PyStr PyRepr PyDict PyJson CaseFold Actions Domain Selfgov
open Engine (Uuid)

/-- An `AgentIdentity` with what the registry stamps on it. -/
structure AgentRecord (fold : CaseFolding) where
  identity : AgentIdentity fold
  revision : ℕ
  registeredAt : ℤ
  updatedAt : ℤ

namespace AgentRecord

variable {fold : CaseFolding} (agent : AgentRecord fold)

def id : Uuid := agent.identity.agentId

def status : AgentLifecycleStatus := agent.identity.lifecycleStatus

def surface : CapabilitySurface fold := agent.identity.capabilitySurface

end AgentRecord

structure AgentRegistry (fold : CaseFolding) where
  byId : Dict Uuid (AgentRecord fold)
  history : Dict Uuid (List (AgentRecord fold))

namespace AgentRegistry

variable {fold : CaseFolding}

def fresh : AgentRegistry fold := ⟨.empty, .empty⟩

def get (registry : AgentRegistry fold) (id : Uuid) : Option (AgentRecord fold) := registry.byId.get? id

def historyOf (registry : AgentRegistry fold) (id : Uuid) : List (AgentRecord fold) :=
  (registry.history.get? id).getD []

def put (registry : AgentRegistry fold) (id : Uuid) (stored : AgentRecord fold) : AgentRegistry fold where
  byId := registry.byId.set id stored
  history := registry.history.set id
    (match registry.get id with
      | none => [stored]
      | some _ => registry.historyOf id ++ [stored])

end AgentRegistry

section Writes

variable {fold : CaseFolding}

/-- `_surface_facts`: five of the dimensions. -/
def surfaceFacts (surface : CapabilitySurface fold) : SurfaceFacts :=
  [(txt "allowed_action_types", surface.allowedActionTypes.texts),
   (txt "allowed_channels", surface.allowedChannels.texts),
   (txt "allowed_environments", surface.allowedEnvironments.texts),
   (txt "allowed_recipient_domains", surface.allowedRecipientDomains.texts),
   (txt "allowed_tools", surface.allowedTools.texts)]

def savePayload (existing agent : AgentRecord fold) : List (Str × PyObj) :=
  let oldSurface := surfaceFacts existing.surface
  let newSurface := surfaceFacts agent.surface
  let widened := widenedDimensions oldSurface newSurface
  [(txt "old_status", .str existing.status.value), (txt "new_status", .str agent.status.value),
    (txt "widened_dimensions", .list (widened.map .str))] ++
  if (oldSurface ≠ newSurface ∧ widened = []) ∨ (oldSurface = newSurface ∧ existing.status = agent.status) then
    [(txt "narrowing", .bool true)]
  else []

def describeAgentSave (registry : AgentRegistry fold) (agent : AgentRecord fold) : MutationDescriptor where
  surface := txt "tex.stores.agent_registry.InMemoryAgentRegistry.save"
  mutationClass := agentSave
  subjectId := some agent.id.text
  payload := .ofItems <| match registry.get agent.id with
    | none => [(txt "new_registration", .bool true)]
    | some existing => savePayload existing agent

def lifecyclePayload (existing : Option (AgentRecord fold)) (status : AgentLifecycleStatus) :
    List (Str × PyObj) :=
  match existing with
  | none =>
    [(txt "new_status", .str status.value), (txt "no_change", .bool true), (txt "target_missing", .bool true)]
  | some existing =>
    [(txt "new_status", .str status.value), (txt "old_status", .str existing.status.value)] ++
      if existing.status = status then [(txt "no_change", .bool true)] else []

def describeLifecycle (registry : AgentRegistry fold) (id : Uuid) (status : AgentLifecycleStatus) :
    MutationDescriptor where
  surface := txt "tex.stores.agent_registry.InMemoryAgentRegistry.set_lifecycle"
  mutationClass := lifecycleTransition
  subjectId := some id.text
  payload := .ofItems (lifecyclePayload (registry.get id) status)

/-- What is stored of an agent that is saved; `now` is the time of the call. -/
def storedRecord (registry : AgentRegistry fold) (now : ℤ) (agent : AgentRecord fold) : AgentRecord fold :=
  match registry.get agent.id with
  | none => { agent with revision := 1 }
  | some existing =>
    { agent with
      revision := existing.revision + 1
      registeredAt := existing.registeredAt
      updatedAt := now }

def withStatus (existing : AgentRecord fold) (now : ℤ) (status : AgentLifecycleStatus) : AgentRecord fold where
  identity := { existing.identity with lifecycleStatus := status }
  revision := existing.revision + 1
  registeredAt := existing.registeredAt
  updatedAt := now

variable (draws : Draws) (py : Interpreter) (binding : Option Binding)

def saveIf (now : ℤ) (agent : AgentRecord fold) (allowed : Bool) :
    EStateM PyErr (World (AgentRegistry fold)) (AgentRecord fold) := do
  let w ← get
  if allowed = false then
    return (w.store.get agent.id).getD agent
  let stored := storedRecord w.store now agent
  set { w with store := w.store.put agent.id stored }
  return stored

def save (now : ℤ) (agent : AgentRecord fold) : EStateM PyErr (World (AgentRegistry fold)) (AgentRecord fold) :=
  gated draws py binding (fun registry => .ok (describeAgentSave registry agent)) >>= saveIf now agent

def setLifecycleIf (now : ℤ) (id : Uuid) (status : AgentLifecycleStatus) (allowed : Bool) :
    EStateM PyErr (World (AgentRegistry fold)) (AgentRecord fold) := fun w =>
  match w.store.get id with
  | none => .error .other w
  | some existing =>
    if allowed = false ∨ existing.status = status then .ok existing w
    else .ok (withStatus existing now status) { w with store := w.store.put id (withStatus existing now status) }

def setLifecycle (now : ℤ) (id : Uuid) (status : AgentLifecycleStatus) :
    EStateM PyErr (World (AgentRegistry fold)) (AgentRecord fold) :=
  gated draws py binding (fun registry => .ok (describeLifecycle registry id status)) >>=
    setLifecycleIf now id status

inductive RegistryCall (fold : CaseFolding) where
  | save (now : ℤ) (agent : AgentRecord fold)
  | setLifecycle (now : ℤ) (id : Uuid) (status : AgentLifecycleStatus)

def perform (w : World (AgentRegistry fold)) : RegistryCall fold → World (AgentRegistry fold)
  | .save now agent => after (save draws py binding now agent) w
  | .setLifecycle now id status => after (setLifecycle draws py binding now id status) w

/-- The world after a run on a new registry. -/
def runCalls (calls : List (RegistryCall fold)) : World (AgentRegistry fold) :=
  calls.foldl (perform draws py binding) ⟨.fresh, ⟨0, []⟩⟩

end Writes

section Held

variable {fold : CaseFolding}

def lifecycleHeld (old new : AgentLifecycleStatus) : Bool :=
  (old = .revoked ∧ new ≠ .revoked) ∨ (old = .quarantined ∧ (new = .active ∨ new = .pending))

def saveHeld (registry : AgentRegistry fold) (agent : AgentRecord fold) : Bool :=
  match registry.get agent.id with
  | none => false
  | some existing => lifecycleHeld existing.status agent.status ||
      !(widenedDimensions (surfaceFacts existing.surface) (surfaceFacts agent.surface)).isEmpty

def effect (registry : AgentRegistry fold) : RegistryCall fold → AgentRegistry fold
  | .save now agent =>
    if saveHeld registry agent then registry else registry.put agent.id (storedRecord registry now agent)
  | .setLifecycle now id status =>
    match registry.get id with
    | none => registry
    | some existing =>
      if existing.status = status ∨ lifecycleHeld existing.status status then registry
      else registry.put id (withStatus existing now status)

variable {draws : Draws} {py : Interpreter} {binding : Binding}

def foldedStatus : AgentLifecycleStatus → Str
  | .pending => txt "pending"
  | .active => txt "active"
  | .quarantined => txt "quarantined"
  | .sleeping => txt "sleeping"
  | .revoked => txt "revoked"

theorem foldedOr_status (status : AgentLifecycleStatus) :
    foldedOr py (.str status.value) = .ok (foldedStatus status) := by
  have hclean : py.fold.clean status.value = foldedStatus status := by
    refine py.fold.clean_ascii ?_ ?_ ?_
    · cases status with
      | _ => exact isAscii_of_all (by decide)
    · cases status with
      | _ => decide
    · cases status with
      | _ => decide
  have htruth : truth (.str status.value) = true := by
    cases status with
    | _ => simp [truth, AgentLifecycleStatus.value, txt_eq_nil_iff]
  unfold foldedOr
  rw [htruth, if_neg (by decide)]
  exact congrArg Except.ok hclean

theorem lifecycleSignatures_status (old new : AgentLifecycleStatus) : ∃ lifecycle,
    lifecycleSignatures py (.str old.value) (.str new.value) = .ok lifecycle ∧
      (lifecycle ≠ ([], []) ↔ lifecycleHeld old new = true) := by
  unfold lifecycleSignatures
  simp only [foldedOr_status, bind, Except.bind, pure, Except.pure]
  cases old <;> cases new <;>
    simp [foldedStatus, lifecycleHeld, terminalStatus, quarantinedStatus, raisedTargets, txt_inj, txt_eq_nil_iff]

theorem mem_sortedNames {names : List Str} {name : Str} : name ∈ sortedNames names ↔ name ∈ names :=
  (List.perm_insertionSort _ _).mem_iff

theorem widens_iff {old new : List Str} : widens old new = true ↔ old ≠ [] ∧ (new = [] ∨ ¬ new ⊆ old) := by
  unfold widens removesFrom
  rw [Bool.and_eq_true, Bool.not_eq_true', Bool.or_eq_true, List.isEmpty_iff, List.isEmpty_eq_false_iff,
    List.any_eq_true, List.subset_def]
  simp only [decide_eq_true_eq, not_forall, exists_prop]

structure TrackedWithin (old new : CapabilitySurface fold) : Prop where
  actionTypes : widens old.allowedActionTypes.texts new.allowedActionTypes.texts = false
  channels : widens old.allowedChannels.texts new.allowedChannels.texts = false
  environments : widens old.allowedEnvironments.texts new.allowedEnvironments.texts = false
  recipientDomains : widens old.allowedRecipientDomains.texts new.allowedRecipientDomains.texts = false
  tools : widens old.allowedTools.texts new.allowedTools.texts = false

theorem widenedDimensions_eq_nil_iff (old new : CapabilitySurface fold) :
    widenedDimensions (surfaceFacts old) (surfaceFacts new) = [] ↔ TrackedWithin old new := by
  unfold widenedDimensions
  rw [List.filter_eq_nil_iff]
  simp only [mem_sortedNames, List.mem_dedup, List.map_append, List.mem_append, surfaceFacts, List.map_cons,
    List.map_nil, or_self, Bool.not_eq_true]
  constructor
  · intro h
    refine ⟨?_, ?_, ?_, ?_, ?_⟩
    · simpa [List.lookup_cons] using h (txt "allowed_action_types") (by simp)
    · simpa [List.lookup_cons] using h (txt "allowed_channels") (by simp)
    · simpa [List.lookup_cons] using h (txt "allowed_environments") (by simp)
    · simpa [List.lookup_cons] using h (txt "allowed_recipient_domains") (by simp)
    · simpa [List.lookup_cons] using h (txt "allowed_tools") (by simp)
  · intro h key hkey
    simp only [List.mem_cons, List.not_mem_nil, or_false] at hkey
    obtain rfl | rfl | rfl | rfl | rfl := hkey
    · simpa [List.lookup_cons] using h.actionTypes
    · simpa [List.lookup_cons] using h.channels
    · simpa [List.lookup_cons] using h.environments
    · simpa [List.lookup_cons] using h.recipientDomains
    · simpa [List.lookup_cons] using h.tools

theorem toJsonItems_texts (texts : List Str) : ∃ js, toJsonItems (texts.map PyObj.str) = .ok js := by
  induction texts with
  | nil => exact ⟨[], rfl⟩
  | cons s texts ih =>
    obtain ⟨js, hjs⟩ := ih
    exact ⟨.str (utf16 s) :: js, by simp [toJsonItems, toJson, hjs, bind, Except.bind, pure, Except.pure]⟩

theorem length_id (id : Uuid) : id.text.length ≤ 300 := by
  have h := (Bool.and_eq_true_iff.mp id.isUuidText).1
  have hlength : id.text.length = 36 := of_decide_eq_true h
  omega

def saveItems (registry : AgentRegistry fold) (agent : AgentRecord fold) : List (Str × PyObj) :=
  match registry.get agent.id with
  | none => [(txt "new_registration", .bool true)]
  | some existing => savePayload existing agent

theorem describable_save (registry : AgentRegistry fold) (agent : AgentRecord fold) :
    Describable (describeAgentSave registry agent) (saveItems registry agent) where
  payload := rfl
  dumped := by
    unfold saveItems savePayload
    cases registry.get agent.id with
    | none => exact ⟨_, rfl⟩
    | some existing =>
      obtain ⟨js, hjs⟩ := toJsonItems_texts
        (widenedDimensions (surfaceFacts existing.surface) (surfaceFacts agent.surface))
      dsimp only
      split <;> simp [toJson, toJsonMembers, hjs, bind, Except.bind, pure, Except.pure]
  surface := by
    show fitsField 200 (txt _)
    decide
  mutationClass := by
    show fitsField 100 (txt _)
    decide
  subject := by
    intro subjectId h
    cases h
    exact length_id agent.id
  environment := rfl

theorem describable_lifecycle (registry : AgentRegistry fold) (id : Uuid) (status : AgentLifecycleStatus) :
    Describable (describeLifecycle registry id status) (lifecyclePayload (registry.get id) status) where
  payload := rfl
  dumped := by
    unfold lifecyclePayload
    cases registry.get id with
    | none => simp [toJson, toJsonMembers, bind, Except.bind, pure, Except.pure]
    | some existing =>
      dsimp only
      split <;> simp [toJson, toJsonMembers, bind, Except.bind, pure, Except.pure]
  surface := by
    show fitsField 200 (txt _)
    decide
  mutationClass := by
    show fitsField 100 (txt _)
    decide
  subject := by
    intro subjectId h
    cases h
    exact length_id id
  environment := rfl

theorem facts_of_none {items : List (Str × PyObj)} (hchanges : isTrue (field items (txt "no_change")) = false)
    (hold : field items (txt "old_status") = .none) (hnew : field items (txt "new_status") = .none)
    (haxes : field items (txt "weakening_axes") = .none) (hwidened : field items (txt "widened_dimensions") = .none) :
    Facts py items ([], []) [] [] :=
  ⟨hchanges, by rw [hold, hnew]; rfl, by rw [haxes]; rfl, by rw [hwidened]; rfl⟩

theorem tupleOr_texts (texts : List Str) : tupleOr (.list (texts.map .str)) = .ok (texts.map .str) := by
  cases texts with
  | nil => rfl
  | cons s texts => rfl

theorem aims_of_none {mutationClass : Str} {items : List (Str × PyObj)} (hclass : mutationClass ≠ governorBinding)
    (hid : field items (txt "policy_id") = .none) (hnew : field items (txt "new_policy_id") = .none) :
    aimsAtGovernor py mutationClass items = false := by
  have hname : ¬ ([] : Str) = governorPolicyId := by decide
  simp [aimsAtGovernor, hclass, hid, hnew, strOr, truth, hname]

theorem save_fired (registry : AgentRegistry fold) (agent : AgentRecord fold) : ∃ mg,
    evaluateMetaguard py (describeAgentSave registry agent) = .ok mg ∧ mg.fired = saveHeld registry agent := by
  have hclass : agentSave ∉ [keyMutation, policyDelete, policyClear] := by decide
  have hbinding : agentSave ≠ governorBinding := by decide
  cases hget : registry.get agent.id with
  | none =>
    have hfacts : Facts py [(txt "new_registration", .bool true)] ([], []) [] [] :=
      facts_of_none (by simp [field, Selfgov.isTrue, List.lookup_cons]) (by simp [field, List.lookup_cons])
        (by simp [field, List.lookup_cons]) (by simp [field, List.lookup_cons])
        (by simp [field, List.lookup_cons])
    obtain ⟨mg, hmg, hfired⟩ := @fired_iff py (describeAgentSave registry agent) _ _ _ _
      (by simp [describeAgentSave, hget]) hfacts
    refine ⟨mg, hmg, Bool.eq_iff_iff.mpr (hfired.trans ?_)⟩
    have haims := @aims_of_none py agentSave [(txt "new_registration", .bool true)] hbinding
      (by simp [field, List.lookup_cons]) (by simp [field, List.lookup_cons])
    simp [Fires, saveHeld, hget, describeAgentSave, haims, hclass]
  | some existing =>
    obtain ⟨lifecycle, hlifecycle, hheld⟩ := @lifecycleSignatures_status py existing.status agent.status
    have hfield : ∀ key, key ≠ txt "narrowing" → field (savePayload existing agent) key =
        field [(txt "old_status", .str existing.status.value), (txt "new_status", .str agent.status.value),
          (txt "widened_dimensions", .list ((widenedDimensions (surfaceFacts existing.surface)
            (surfaceFacts agent.surface)).map .str))] key := by
      intro key hkey
      unfold savePayload
      dsimp only
      split
      · simp only [field, List.lookup_append, List.lookup_cons, beq_false_of_ne hkey, List.lookup_nil,
          Option.or_none]
      · rw [List.append_nil]
    have hread : ∀ name : String, name ≠ "narrowing" → field (savePayload existing agent) (txt name) =
        field [(txt "old_status", .str existing.status.value), (txt "new_status", .str agent.status.value),
          (txt "widened_dimensions", .list ((widenedDimensions (surfaceFacts existing.surface)
            (surfaceFacts agent.surface)).map .str))] (txt name) :=
      fun name hname => hfield (txt name) fun h => hname (txt_inj.mp h)
    have hfacts : Facts py (savePayload existing agent) lifecycle []
        ((widenedDimensions (surfaceFacts existing.surface) (surfaceFacts agent.surface)).map .str) := by
      refine ⟨?_, ?_, ?_, ?_⟩
      · rw [hread _ (by simp)]
        simp [field, Selfgov.isTrue, List.lookup_cons]
      · rw [hread _ (by simp), hread _ (by simp)]
        simpa [field, List.lookup_cons] using hlifecycle
      · rw [hread _ (by simp)]
        simp [field, List.lookup_cons, tupleOr, truth]
      · rw [hread _ (by simp)]
        simpa [field, List.lookup_cons] using tupleOr_texts _
    obtain ⟨mg, hmg, hfired⟩ := @fired_iff py (describeAgentSave registry agent) _ _ _ _
      (by simp [describeAgentSave, hget]) hfacts
    refine ⟨mg, hmg, Bool.eq_iff_iff.mpr (hfired.trans ?_)⟩
    have haims := @aims_of_none py agentSave (savePayload existing agent) hbinding
      (by rw [hread _ (by simp)]; simp [field, List.lookup_cons])
      (by rw [hread _ (by simp)]; simp [field, List.lookup_cons])
    simp [Fires, saveHeld, hget, describeAgentSave, haims, hclass, ← hheld]

theorem lifecycleHeld_self (status : AgentLifecycleStatus) : lifecycleHeld status status = false := by
  cases status with
  | _ => rfl

theorem lifecycle_fired {registry : AgentRegistry fold} {id : Uuid} (status : AgentLifecycleStatus)
    {existing : AgentRecord fold} (hget : registry.get id = some existing) : ∃ mg,
    evaluateMetaguard py (describeLifecycle registry id status) = .ok mg ∧
      mg.fired = lifecycleHeld existing.status status := by
  have hclass : lifecycleTransition ∉ [keyMutation, policyDelete, policyClear] := by decide
  have hbinding : lifecycleTransition ≠ governorBinding := by decide
  have hpayload : (describeLifecycle registry id status).payload =
      .ofItems (lifecyclePayload (some existing) status) := by
    rw [describeLifecycle, hget]
  by_cases hsame : existing.status = status
  · refine ⟨_, evaluateMetaguard_noChange hpayload ?_, ?_⟩
    · simp [lifecyclePayload, hsame, field, List.lookup_cons, Selfgov.isTrue]
    · rw [hsame, lifecycleHeld_self]
      rfl
  · have hitems : lifecyclePayload (some existing) status =
        [(txt "new_status", .str status.value), (txt "old_status", .str existing.status.value)] := by
      simp [lifecyclePayload, hsame]
    rw [hitems] at hpayload
    obtain ⟨lifecycle, hlifecycle, hheld⟩ := @lifecycleSignatures_status py existing.status status
    have hfacts : Facts py [(txt "new_status", .str status.value), (txt "old_status", .str existing.status.value)]
        lifecycle [] [] := by
      refine ⟨?_, ?_, ?_, ?_⟩
      · simp [field, Selfgov.isTrue, List.lookup_cons]
      · simpa [field, List.lookup_cons] using hlifecycle
      · simp [field, List.lookup_cons, tupleOr, truth]
      · simp [field, List.lookup_cons, tupleOr, truth]
    obtain ⟨mg, hmg, hfired⟩ := fired_iff hpayload hfacts
    refine ⟨mg, hmg, Bool.eq_iff_iff.mpr (hfired.trans ?_)⟩
    have haims := @aims_of_none py lifecycleTransition
      [(txt "new_status", .str status.value), (txt "old_status", .str existing.status.value)] hbinding
      (by simp [field, List.lookup_cons]) (by simp [field, List.lookup_cons])
    simp [Fires, describeLifecycle, haims, hclass, ← hheld]

theorem perform_save (hpermits : PermitsEverything binding) (now : ℤ) (agent : AgentRecord fold)
    (w : World (AgentRegistry fold)) :
    (perform draws py (some binding) w (.save now agent)).store = effect w.store (.save now agent) := by
  obtain ⟨mg, hmg, hfired⟩ := @save_fired fold py w.store agent
  obtain ⟨log', hgate⟩ := @gated_permissive draws binding py _ _ _ hpermits
    (fun registry : AgentRegistry fold => .ok (describeAgentSave registry agent)) w rfl
    (describable_save w.store agent) mg hmg
  refine (congrArg World.store (after_bind hgate (saveIf now agent))).trans ?_
  change _ = if saveHeld w.store agent then w.store else w.store.put agent.id (storedRecord w.store now agent)
  rw [hfired]
  cases saveHeld w.store agent with
  | true => rfl
  | false => rfl

theorem perform_setLifecycle (hpermits : PermitsEverything binding) (now : ℤ) (id : Uuid)
    (status : AgentLifecycleStatus) (w : World (AgentRegistry fold)) :
    (perform draws py (some binding) w (.setLifecycle now id status)).store =
      effect w.store (.setLifecycle now id status) := by
  suffices hallowed : ∃ allowed log', gated draws py (some binding)
      (fun registry : AgentRegistry fold => .ok (describeLifecycle registry id status)) w =
        .ok allowed { w with log := log' } ∧
      ∀ existing, w.store.get id = some existing → allowed = !lifecycleHeld existing.status status by
    obtain ⟨allowed, log', hgate, hallowed⟩ := hallowed
    refine (congrArg World.store (after_bind hgate (setLifecycleIf now id status))).trans ?_
    unfold effect setLifecycleIf after
    cases hget : w.store.get id with
    | none => simp [hget]
    | some existing =>
      rw [hallowed existing hget]
      by_cases hsame : existing.status = status
      · simp [hget, hsame]
      · cases hheld : lifecycleHeld existing.status status with
        | true => simp [hget, hsame, hheld]
        | false => simp [hget, hsame, hheld]
  cases hget : w.store.get id with
  | none =>
    have hpayload : (describeLifecycle w.store id status).payload =
        .ofItems (lifecyclePayload (none : Option (AgentRecord fold)) status) := by
      rw [describeLifecycle, hget]
    have hmg : evaluateMetaguard py (describeLifecycle w.store id status) = .ok ⟨[], [], false, true⟩ :=
      evaluateMetaguard_noChange hpayload (by simp [lifecyclePayload, field, List.lookup_cons, Selfgov.isTrue])
    obtain ⟨log', hgate⟩ := @gated_permissive draws binding py _ _ _ hpermits
      (fun registry : AgentRegistry fold => .ok (describeLifecycle registry id status)) w rfl
      (describable_lifecycle w.store id status) _ hmg
    refine ⟨_, log', hgate, fun existing hfound => ?_⟩
    cases hfound
  | some existing =>
    obtain ⟨mg, hmg, hfired⟩ := @lifecycle_fired fold py _ _ status _ hget
    obtain ⟨log', hgate⟩ := @gated_permissive draws binding py _ _ _ hpermits
      (fun registry : AgentRegistry fold => .ok (describeLifecycle registry id status)) w rfl
      (describable_lifecycle w.store id status) mg hmg
    refine ⟨_, log', hgate, fun found hfound => ?_⟩
    cases hfound
    rw [hfired]

theorem perform_store (hpermits : PermitsEverything binding) (call : RegistryCall fold)
    (w : World (AgentRegistry fold)) :
    (perform draws py (some binding) w call).store = effect w.store call := by
  cases call with
  | save now agent => exact perform_save hpermits now agent w
  | setLifecycle now id status => exact perform_setLifecycle hpermits now id status w

theorem runCalls_store (hpermits : PermitsEverything binding) (calls : List (RegistryCall fold)) :
    (runCalls draws py (some binding) calls).store = calls.foldl effect .fresh := by
  unfold runCalls
  generalize hstart : (⟨.fresh, ⟨0, []⟩⟩ : World (AgentRegistry fold)) = w
  rw [show (AgentRegistry.fresh : AgentRegistry fold) = w.store by rw [← hstart]]
  clear hstart
  induction calls generalizing w with
  | nil => rfl
  | cons call calls ih => rw [List.foldl_cons, List.foldl_cons, ih, perform_store hpermits]

/-- It permits everything and is bound without a ledger. -/
def permissiveBinding : Binding where
  pdp _ := .answer ⟨.permit, [], .none⟩
  sealsDecisions := false
  ledger := none

theorem permissive_permits : PermitsEverything permissiveBinding := fun _ => ⟨_, rfl, rfl⟩

theorem sampleTenant_ne_nil : txt "default" ≠ [] := by decide

def sampleAgent (status : AgentLifecycleStatus) (surface : CapabilitySurface foldedTexts) :
    AgentRecord foldedTexts where
  identity :=
    { agentId := sampleUuid
      name := ⟨txt "scout", by decide, by decide⟩
      stripped := by decide
      tenantId := ⟨txt "default", sampleTenant_ne_nil, by decide⟩
      normalized := by decide
      lifecycleStatus := status
      capabilitySurface := surface }
  revision := 1
  registeredAt := 0
  updatedAt := 0

end Held

end TexGovernance.Stores
