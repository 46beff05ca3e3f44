import TexGovernance.Stores.AgentRegistry

/-!
# Quarantine and revocation over runs

A revocation is final. A quarantine is lifted by way of SLEEPING: falling asleep is a move
toward caution, and nothing remembers at the waking where the agent came from.
-/

namespace TexGovernance.Stores
open PyStr PyDict CaseFold Domain Selfgov
open Engine (Uuid)

variable {fold : CaseFolding}

namespace AgentRegistry

variable {registry : AgentRegistry fold} {id : Uuid} {stored : AgentRecord fold}

theorem get_put (k : Uuid) : (registry.put id stored).get k = if k = id then some stored else registry.get k :=
  Dict.get?_set _ _ _ _

theorem historyOf_put (k : Uuid) : (registry.put id stored).historyOf k =
    if k = id then
      match registry.get id with
      | none => [stored]
      | some _ => registry.historyOf id ++ [stored]
    else registry.historyOf k := by
  unfold historyOf put
  rw [Dict.get?_set]
  split
  · rfl
  · rfl

end AgentRegistry

namespace RegistryCall

def target : RegistryCall fold → Uuid
  | .save _ agent => agent.id
  | .setLifecycle _ id _ => id

def asks : RegistryCall fold → AgentLifecycleStatus
  | .save _ agent => agent.status
  | .setLifecycle _ _ status => status

def Widens (registry : AgentRegistry fold) : RegistryCall fold → Prop
  | .save _ agent => ∃ existing, registry.get agent.id = some existing ∧
      ¬ TrackedWithin existing.surface agent.surface
  | .setLifecycle .. => False

end RegistryCall

theorem saveHeld_iff {registry : AgentRegistry fold} {agent existing : AgentRecord fold}
    (hget : registry.get agent.id = some existing) : saveHeld registry agent = true ↔
      lifecycleHeld existing.status agent.status = true ∨ ¬ TrackedWithin existing.surface agent.surface := by
  unfold saveHeld
  rw [hget, Bool.or_eq_true, Bool.not_eq_true', List.isEmpty_eq_false_iff, ← widenedDimensions_eq_nil_iff]

theorem storedRecord_status (registry : AgentRegistry fold) (now : ℤ) (agent : AgentRecord fold) :
    (storedRecord registry now agent).status = agent.status := by
  unfold storedRecord
  cases registry.get agent.id with
  | none => rfl
  | some existing => rfl

structure Commits (registry : AgentRegistry fold) (call : RegistryCall fold) (stored : AgentRecord fold) : Prop where
  effect : effect registry call = registry.put call.target stored
  status : stored.status = call.asks
  unheld : ∀ existing, registry.get call.target = some existing →
    lifecycleHeld existing.status call.asks = false ∧ ¬ call.Widens registry

theorem effect_cases (registry : AgentRegistry fold) (call : RegistryCall fold) :
    (effect registry call = registry ∧ ∀ existing, registry.get call.target = some existing →
      lifecycleHeld existing.status call.asks = true ∨ call.Widens registry ∨ existing.status = call.asks) ∨
    ∃ stored, Commits registry call stored := by
  cases call with
  | save now agent =>
    cases hget : registry.get agent.id with
    | none =>
      have hfree : saveHeld registry agent = false := by
        unfold saveHeld
        rw [hget]
      refine .inr ⟨storedRecord registry now agent, if_neg (by rw [hfree]; decide),
        storedRecord_status registry now agent, ?_⟩
      exact fun existing hsome => absurd (hget.symm.trans hsome) nofun
    | some existing =>
      by_cases hheld : saveHeld registry agent = true
      · refine .inl ⟨if_pos hheld, fun found hfound => ?_⟩
        cases hget.symm.trans hfound
        exact ((saveHeld_iff hget).mp hheld).imp_right fun h => .inl ⟨existing, hget, h⟩
      · refine .inr ⟨storedRecord registry now agent, if_neg hheld, storedRecord_status registry now agent,
          fun found hfound => ?_⟩
        cases hget.symm.trans hfound
        obtain ⟨hlifecycle, hwithin⟩ := not_or.mp (mt (saveHeld_iff hget).mpr hheld)
        refine ⟨Bool.eq_false_of_not_eq_true hlifecycle, ?_⟩
        rintro ⟨other, hother, hwidens⟩
        cases hget.symm.trans hother
        exact hwithin hwidens
  | setLifecycle now id status =>
    cases hget : registry.get id with
    | none =>
      refine .inl ⟨by simp [effect, hget], fun existing hsome => absurd (hget.symm.trans hsome) nofun⟩
    | some existing =>
      by_cases hheld : existing.status = status ∨ lifecycleHeld existing.status status = true
      · refine .inl ⟨by simp [effect, hget, hheld], fun found hfound => ?_⟩
        cases hget.symm.trans hfound
        exact hheld.symm.imp_right .inr
      · refine .inr ⟨withStatus existing now status, by simp [effect, hget, hheld, RegistryCall.target], rfl,
          fun found hfound => ?_⟩
        cases hget.symm.trans hfound
        exact ⟨Bool.eq_false_of_not_eq_true (not_or.mp hheld).2, not_false⟩

namespace AgentRegistry

variable (registry : AgentRegistry fold) (id : Uuid)

def statusOf : Option AgentLifecycleStatus := (registry.get id).map AgentRecord.status

def EverQuarantined : Prop := ∃ past ∈ registry.historyOf id, past.status = .quarantined

end AgentRegistry

def WakesQuarantined (registry : AgentRegistry fold) (call : RegistryCall fold) : Prop :=
  registry.statusOf call.target = some .sleeping ∧ registry.EverQuarantined call.target ∧
    (call.asks = .active ∨ call.asks = .pending) ∧ ¬ call.Widens registry

section Step

variable {registry : AgentRegistry fold} {call : RegistryCall fold}

theorem statusOf_eq_some_iff {id : Uuid} {status : AgentLifecycleStatus} :
    registry.statusOf id = some status ↔ ∃ record, registry.get id = some record ∧ record.status = status := by
  simp [AgentRegistry.statusOf]

theorem statusOf_commit {stored : AgentRecord fold} (h : Commits registry call stored) (id : Uuid) :
    (effect registry call).statusOf id = if id = call.target then some call.asks else registry.statusOf id := by
  rw [h.effect, AgentRegistry.statusOf, AgentRegistry.get_put]
  split
  · rw [Option.map_some, h.status]
  · rfl

theorem status_step {id : Uuid} {old new : AgentLifecycleStatus} (hold : registry.statusOf id = some old)
    (hnew : (effect registry call).statusOf id = some new) : lifecycleHeld old new = false := by
  obtain ⟨hsame, -⟩ | ⟨stored, hcommit⟩ := effect_cases registry call
  · rw [hsame, hold, Option.some.injEq] at hnew
    rw [hnew, lifecycleHeld_self]
  · rw [statusOf_commit hcommit] at hnew
    by_cases hid : id = call.target
    · rw [if_pos hid, Option.some.injEq] at hnew
      obtain ⟨existing, hget, hstatus⟩ := statusOf_eq_some_iff.mp hold
      rw [← hnew, ← hstatus]
      exact (hcommit.unheld existing (hid ▸ hget)).1
    · rw [if_neg hid, hold, Option.some.injEq] at hnew
      rw [hnew, lifecycleHeld_self]

theorem registered_step {id : Uuid} (h : registry.statusOf id ≠ none) :
    (effect registry call).statusOf id ≠ none := by
  obtain ⟨hsame, -⟩ | ⟨stored, hcommit⟩ := effect_cases registry call
  · rwa [hsame]
  · rw [statusOf_commit hcommit]
    split
    · exact Option.some_ne_none _
    · exact h

theorem revoked_step {id : Uuid} (h : registry.statusOf id = some .revoked) :
    (effect registry call).statusOf id = some .revoked := by
  obtain ⟨new, hnew⟩ := Option.ne_none_iff_exists'.mp
    (@registered_step _ registry call id (by rw [h]; exact Option.some_ne_none _))
  have hheld := status_step h hnew
  have hrevoked : new = .revoked := by
    by_contra hne
    simp [lifecycleHeld, hne] at hheld
  rw [hnew, hrevoked]

structure Recorded (registry : AgentRegistry fold) : Prop where
  current : ∀ id record, registry.get id = some record → record ∈ registry.historyOf id
  registered : ∀ id, registry.historyOf id ≠ [] → registry.statusOf id ≠ none

theorem recorded_fresh : Recorded (AgentRegistry.fresh : AgentRegistry fold) :=
  ⟨nofun, fun _ h => absurd rfl h⟩

theorem mem_historyOf_commit {stored : AgentRecord fold} (h : Commits registry call stored) :
    stored ∈ (effect registry call).historyOf call.target := by
  rw [h.effect, AgentRegistry.historyOf_put, if_pos rfl]
  cases registry.get call.target with
  | none => simp
  | some existing => simp

theorem recorded_step (h : Recorded registry) : Recorded (effect registry call) := by
  obtain ⟨hsame, -⟩ | ⟨stored, hcommit⟩ := effect_cases registry call
  · rwa [hsame]
  constructor
  · intro id record hget
    rw [hcommit.effect, AgentRegistry.get_put] at hget
    by_cases hid : id = call.target
    · rw [if_pos hid, Option.some.injEq] at hget
      rw [hid, ← hget]
      exact mem_historyOf_commit hcommit
    · rw [if_neg hid] at hget
      rw [hcommit.effect, AgentRegistry.historyOf_put, if_neg hid]
      exact h.current id record hget
  · intro id hhistory
    rw [statusOf_commit hcommit]
    by_cases hid : id = call.target
    · rw [if_pos hid]
      exact Option.some_ne_none _
    · rw [if_neg hid]
      rw [hcommit.effect, AgentRegistry.historyOf_put, if_neg hid] at hhistory
      exact h.registered id hhistory

theorem of_mem_historyOf_effect {id : Uuid} {past : AgentRecord fold}
    (h : past ∈ (effect registry call).historyOf id) :
    past ∈ registry.historyOf id ∨ (effect registry call).get id = some past := by
  obtain ⟨hsame, -⟩ | ⟨stored, hcommit⟩ := effect_cases registry call
  · exact .inl (hsame ▸ h)
  · rw [hcommit.effect, AgentRegistry.historyOf_put] at h
    by_cases hid : id = call.target
    · rw [hcommit.effect, AgentRegistry.get_put, if_pos hid]
      rw [if_pos hid] at h
      split at h
      · exact .inr (congrArg some (List.mem_singleton.mp h).symm)
      · rw [← hid] at h
        obtain h | h := List.mem_append.mp h
        · exact .inl h
        · exact .inr (congrArg some (List.mem_singleton.mp h).symm)
    · rw [if_neg hid] at h
      exact .inl h

def NeverRaised (registry : AgentRegistry fold) : Prop :=
  ∀ id, registry.EverQuarantined id → registry.statusOf id ∉ [some .active, some .pending]

theorem neverRaised_step (hrecorded : Recorded registry) (h : NeverRaised registry)
    (hwakes : ¬ WakesQuarantined registry call) : NeverRaised (effect registry call) := by
  rintro id ⟨past, hpast, hquarantined⟩ hraised
  obtain hold | hnow := of_mem_historyOf_effect hpast
  · obtain ⟨hsame, -⟩ | ⟨stored, hcommit⟩ := effect_cases registry call
    · rw [hsame] at hraised
      exact h id ⟨past, hold, hquarantined⟩ hraised
    rw [statusOf_commit hcommit] at hraised
    by_cases hid : id = call.target
    · rw [if_pos hid] at hraised
      have hasks : call.asks = .active ∨ call.asks = .pending := by simpa using hraised
      have hquarantined' : registry.EverQuarantined id := ⟨past, hold, hquarantined⟩
      obtain ⟨old, hstatus⟩ := Option.ne_none_iff_exists'.mp
        (hrecorded.registered id (List.ne_nil_of_mem hold))
      obtain ⟨existing, hget, rfl⟩ := statusOf_eq_some_iff.mp hstatus
      have hunheld := hcommit.unheld existing (hid ▸ hget)
      have hlow := h id hquarantined'
      rw [hstatus] at hlow
      have hsleeping : existing.status = .sleeping := by
        have hlifecycle := hunheld.1
        cases hcase : existing.status with
        | sleeping => rfl
        | active => simp [hcase] at hlow
        | pending => simp [hcase] at hlow
        | quarantined => simp [hcase, lifecycleHeld, hasks] at hlifecycle
        | revoked => obtain hasks | hasks := hasks <;> simp [hcase, lifecycleHeld, hasks] at hlifecycle
      subst hid
      exact hwakes ⟨hstatus.trans (congrArg some hsleeping), hquarantined', hasks, hunheld.2⟩
    · rw [if_neg hid] at hraised
      exact h id ⟨past, hold, hquarantined⟩ hraised
  · have hstatus : (effect registry call).statusOf id = some .quarantined := by
      rw [AgentRegistry.statusOf, hnow, Option.map_some, hquarantined]
    rw [hstatus] at hraised
    simp at hraised

end Step

section Runs

def reached (calls : List (RegistryCall fold)) : AgentRegistry fold := calls.foldl effect .fresh

variable {calls before between : List (RegistryCall fold)}

theorem reached_append (before between : List (RegistryCall fold)) :
    reached (before ++ between) = between.foldl effect (reached before) := List.foldl_append

theorem reached_concat (calls : List (RegistryCall fold)) (call : RegistryCall fold) :
    reached (calls ++ [call]) = effect (reached calls) call := by
  rw [reached_append]
  rfl

theorem recorded_reached (calls : List (RegistryCall fold)) : Recorded (reached calls) := by
  induction calls using List.reverseRecOn with
  | nil => exact recorded_fresh
  | append_singleton calls call ih =>
    rw [reached_concat]
    exact recorded_step ih

theorem revoked_run {registry : AgentRegistry fold} {id : Uuid} (h : registry.statusOf id = some .revoked)
    (calls : List (RegistryCall fold)) : (calls.foldl effect registry).statusOf id = some .revoked := by
  induction calls generalizing registry with
  | nil => exact h
  | cons call calls ih => exact ih (revoked_step h)

theorem historyOf_step {registry : AgentRegistry fold} {call : RegistryCall fold} (hrecorded : Recorded registry)
    {id : Uuid} {past : AgentRecord fold} (h : past ∈ registry.historyOf id) :
    past ∈ (effect registry call).historyOf id := by
  obtain ⟨hsame, -⟩ | ⟨stored, hcommit⟩ := effect_cases registry call
  · rwa [hsame]
  rw [hcommit.effect, AgentRegistry.historyOf_put]
  by_cases hid : id = call.target
  · subst hid
    obtain ⟨old, hstatus⟩ := Option.ne_none_iff_exists'.mp (hrecorded.registered _ (List.ne_nil_of_mem h))
    obtain ⟨existing, hget, -⟩ := statusOf_eq_some_iff.mp hstatus
    rw [if_pos rfl, hget]
    exact List.mem_append_left _ h
  · rwa [if_neg hid]

theorem everQuarantined_run {id : Uuid} (h : (reached before).statusOf id = some .quarantined)
    (between : List (RegistryCall fold)) : (reached (before ++ between)).EverQuarantined id := by
  induction between using List.reverseRecOn with
  | nil =>
    obtain ⟨record, hget, hstatus⟩ := statusOf_eq_some_iff.mp h
    rw [List.append_nil]
    exact ⟨record, (recorded_reached before).current id record hget, hstatus⟩
  | append_singleton between call ih =>
    obtain ⟨past, hpast, hstatus⟩ := ih
    rw [← List.append_assoc, reached_concat]
    exact ⟨past, historyOf_step (recorded_reached _) hpast, hstatus⟩

theorem exists_of_everQuarantined {id : Uuid} (h : (reached calls).EverQuarantined id) :
    ∃ before between, calls = before ++ between ∧ (reached before).statusOf id = some .quarantined := by
  induction calls using List.reverseRecOn with
  | nil =>
    obtain ⟨past, hpast, -⟩ := h
    exact absurd hpast List.not_mem_nil
  | append_singleton calls call ih =>
    obtain ⟨past, hpast, hstatus⟩ := h
    rw [reached_concat] at hpast
    obtain hold | hnow := of_mem_historyOf_effect hpast
    · obtain ⟨before, between, rfl, hquarantined⟩ := ih ⟨past, hold, hstatus⟩
      exact ⟨before, between ++ [call], by rw [List.append_assoc], hquarantined⟩
    · refine ⟨calls ++ [call], [], (List.append_nil _).symm, ?_⟩
      rw [reached_concat, AgentRegistry.statusOf, hnow, Option.map_some, hstatus]

def LeavesAsleep (calls : List (RegistryCall fold)) : Prop :=
  ∀ before call rest, calls = before ++ call :: rest → ¬ WakesQuarantined (reached before) call

theorem neverRaised_reached (h : LeavesAsleep calls) : NeverRaised (reached calls) := by
  induction calls using List.reverseRecOn with
  | nil =>
    rintro id ⟨past, hpast, -⟩
    exact absurd hpast List.not_mem_nil
  | append_singleton calls call ih =>
    rw [reached_concat]
    refine neverRaised_step (recorded_reached calls) (ih fun before c rest heq => ?_)
      (h calls call [] rfl)
    exact h before c (rest ++ [call]) (by rw [heq, List.append_assoc, List.cons_append])

theorem raised_of_wakes {registry : AgentRegistry fold} {call : RegistryCall fold}
    (h : WakesQuarantined registry call) :
    (effect registry call).statusOf call.target ∈ [some .active, some .pending] := by
  obtain ⟨hsleeping, -, hasks, hwidens⟩ := h
  obtain ⟨existing, hget, hstatus⟩ := statusOf_eq_some_iff.mp hsleeping
  obtain ⟨-, hsame⟩ | ⟨stored, hcommit⟩ := effect_cases registry call
  · exfalso
    obtain hheld | hheld | hheld := hsame existing hget
    · simp [hstatus, lifecycleHeld] at hheld
    · exact hwidens hheld
    · rw [hstatus] at hheld
      simp [← hheld] at hasks
  · rw [statusOf_commit hcommit, if_pos rfl]
    obtain hasks | hasks := hasks <;> simp [hasks]

end Runs

section Governed

variable (draws : Draws) (py : Interpreter) (binding : Binding)

/-- At no later point of a run is a revoked agent anything else, or a quarantined one active or
pending. -/
def NeverLifted (calls : List (RegistryCall fold)) : Prop :=
  ∀ before between rest, calls = before ++ between ++ rest → ∀ id,
    ((runCalls draws py (some binding) before).store.statusOf id = some .revoked →
      (runCalls draws py (some binding) (before ++ between)).store.statusOf id = some .revoked) ∧
    ((runCalls draws py (some binding) before).store.statusOf id = some .quarantined →
      (runCalls draws py (some binding) (before ++ between)).store.statusOf id ∉ [some .active, some .pending])

variable {draws py binding}

theorem leavesAsleep_of_neverLifted (hpermits : PermitsEverything binding) {calls : List (RegistryCall fold)}
    (h : NeverLifted draws py binding calls) : LeavesAsleep calls := by
  intro before call rest heq hwakes
  obtain ⟨before', between, rfl, hquarantined⟩ := exists_of_everQuarantined hwakes.2.1
  have hlifted := (h before' (between ++ [call]) rest (by simp [heq]) call.target).2
  rw [runCalls_store hpermits, runCalls_store hpermits] at hlifted
  refine hlifted hquarantined ?_
  change (reached (before' ++ (between ++ [call]))).statusOf call.target ∈ _
  rw [← List.append_assoc, reached_concat]
  exact raised_of_wakes hwakes

/-- A revocation is never lifted, and a quarantine is not if and only if no call of the run wakes
a sleeping agent that was quarantined. -/
theorem never_lifted_iff (hpermits : PermitsEverything binding) (calls : List (RegistryCall fold)) :
    NeverLifted draws py binding calls ↔ ∀ before call rest, calls = before ++ call :: rest →
      ¬ WakesQuarantined (runCalls draws py (some binding) before).store call := by
  have hstore : ∀ before : List (RegistryCall fold),
      (runCalls draws py (some binding) before).store = reached before := runCalls_store hpermits
  constructor
  · intro h before call rest heq
    rw [hstore]
    exact leavesAsleep_of_neverLifted hpermits h before call rest heq
  · intro h before between rest heq id
    rw [hstore, hstore]
    refine ⟨fun hrevoked => ?_, fun hquarantined => ?_⟩
    · rw [reached_append]
      exact revoked_run hrevoked between
    · refine neverRaised_reached (fun before' call rest' heq' => ?_) id (everQuarantined_run hquarantined between)
      rw [← hstore]
      exact h before' call (rest' ++ rest) (by rw [heq, heq', List.append_assoc, List.cons_append])

/-- One registration. -/
def registered : RegistryCall foldedTexts := .save 0 (sampleAgent .active (.unrestricted foldedTexts))

theorem never_lifted_registered : NeverLifted plainDraws plainInterpreter permissiveBinding [registered] := by
  refine (never_lifted_iff permissive_permits _).mpr ?_
  intro before call rest heq hwakes
  cases before with
  | nil => exact absurd hwakes.1 nofun
  | cons first before => simp at heq

def lulled : List (RegistryCall foldedTexts) :=
  [registered, .setLifecycle 1 sampleUuid .quarantined, .setLifecycle 2 sampleUuid .sleeping]

theorem quarantine_slept_off : ¬ NeverLifted plainDraws plainInterpreter permissiveBinding
    (lulled ++ [.setLifecycle 3 sampleUuid .active]) := by
  intro h
  refine leavesAsleep_of_neverLifted permissive_permits h lulled (.setLifecycle 3 sampleUuid .active) [] rfl
    ⟨by decide, ?_, .inl rfl, not_false⟩
  have hquarantined : (reached [registered, .setLifecycle 1 sampleUuid .quarantined]).statusOf sampleUuid =
      some .quarantined := by decide
  exact everQuarantined_run hquarantined [.setLifecycle 2 sampleUuid .sleeping]

end Governed

end TexGovernance.Stores

namespace TexGovernance.Stores
open PyStr CaseFold Domain Selfgov
open Engine (Uuid)

variable {fold : CaseFolding}

def Wider (old new : List Str) : Prop := old ≠ [] ∧ (new = [] ∨ ¬ new ⊆ old)

def WiderLimit (old new : Option { n : ℕ // 1 ≤ n }) : Prop :=
  ∃ n, old = some n ∧ ∀ m, new = some m → n.val < m.val

def WiderTracked (old new : CapabilitySurface fold) : Prop :=
  Wider old.allowedActionTypes.texts new.allowedActionTypes.texts ∨
    Wider old.allowedChannels.texts new.allowedChannels.texts ∨
    Wider old.allowedEnvironments.texts new.allowedEnvironments.texts ∨
    Wider old.allowedRecipientDomains.texts new.allowedRecipientDomains.texts ∨
    Wider old.allowedTools.texts new.allowedTools.texts

def WiderUntracked (old new : CapabilitySurface fold) : Prop :=
  Wider old.allowedMcpServers.texts new.allowedMcpServers.texts ∨
    Wider old.dataScopes.texts new.dataScopes.texts ∨
    WiderLimit old.maxActionsPerHour new.maxActionsPerHour

def WiderSurface (old new : CapabilitySurface fold) : Prop := WiderTracked old new ∨ WiderUntracked old new

theorem not_wider_self (texts : List Str) : ¬ Wider texts texts := by
  rintro ⟨hne, hnil | hnot⟩
  · exact hne hnil
  · exact hnot (List.Subset.refl texts)

theorem not_widerSurface_self (surface : CapabilitySurface fold) : ¬ WiderSurface surface surface := by
  simp only [WiderSurface, WiderTracked, WiderUntracked, not_wider_self, false_or]
  rintro ⟨n, hsome, hlt⟩
  exact absurd (hlt n hsome) (lt_irrefl _)

theorem trackedWithin_iff {old new : CapabilitySurface fold} : TrackedWithin old new ↔ ¬ WiderTracked old new := by
  have hfalse : ∀ old new : List Str, widens old new = false ↔ ¬ Wider old new := fun old new => by
    rw [Wider, ← widens_iff, Bool.not_eq_true]
  simp only [WiderTracked, not_or, ← hfalse]
  constructor
  · rintro ⟨hactions, hchannels, henvironments, hdomains, htools⟩
    exact ⟨hactions, hchannels, henvironments, hdomains, htools⟩
  · rintro ⟨hactions, hchannels, henvironments, hdomains, htools⟩
    exact ⟨hactions, hchannels, henvironments, hdomains, htools⟩

theorem storedRecord_surface (registry : AgentRegistry fold) (now : ℤ) (agent : AgentRecord fold) :
    (storedRecord registry now agent).surface = agent.surface := by
  unfold storedRecord
  cases registry.get agent.id with
  | none => rfl
  | some existing => rfl

def SlipsThrough (registry : AgentRegistry fold) (agent : AgentRecord fold) : Prop :=
  ∃ existing, registry.get agent.id = some existing ∧ WiderUntracked existing.surface agent.surface ∧
    TrackedWithin existing.surface agent.surface ∧ lifecycleHeld existing.status agent.status = false

def SaveBounded (registry registry' : AgentRegistry fold) (agent : AgentRecord fold) : Prop :=
  ∀ existing, registry.get agent.id = some existing →
    (∀ record, registry'.get agent.id = some record → ¬ WiderSurface existing.surface record.surface) ∧
    (WiderSurface existing.surface agent.surface → registry'.get agent.id = some existing)

theorem saveBounded_iff (registry : AgentRegistry fold) (now : ℤ) (agent : AgentRecord fold) :
    SaveBounded registry (effect registry (.save now agent)) agent ↔ ¬ SlipsThrough registry agent := by
  cases hget : registry.get agent.id with
  | none =>
    refine ⟨fun _ => ?_, fun _ existing hsome => absurd (hget.symm.trans hsome) nofun⟩
    rintro ⟨existing, hsome, -⟩
    exact absurd (hget.symm.trans hsome) nofun
  | some existing =>
    have hstored : saveHeld registry agent = false → (effect registry (.save now agent)).get agent.id =
        some (storedRecord registry now agent) := by
      intro hfree
      have heffect : effect registry (.save now agent) =
          registry.put agent.id (storedRecord registry now agent) := if_neg (by rw [hfree]; decide)
      rw [heffect, AgentRegistry.get_put, if_pos rfl]
    constructor
    · rintro hbounded ⟨found, hfound, huntracked, hwithin, hlifecycle⟩
      cases hget.symm.trans hfound
      have hfree : saveHeld registry agent = false := by
        refine Bool.eq_false_of_not_eq_true fun hheld => ?_
        obtain h | h := (saveHeld_iff hget).mp hheld
        · exact absurd (h.symm.trans hlifecycle) (by decide)
        · exact h hwithin
      refine (hbounded existing hget).1 _ (hstored hfree) ?_
      rw [storedRecord_surface]
      exact .inr huntracked
    · intro hslips found hfound
      cases hget.symm.trans hfound
      by_cases hheld : saveHeld registry agent = true
      · have heffect : effect registry (.save now agent) = registry := if_pos hheld
        rw [heffect]
        refine ⟨fun record hrecord => ?_, fun _ => hget⟩
        cases hget.symm.trans hrecord
        exact not_widerSurface_self _
      · have hfree := Bool.eq_false_of_not_eq_true hheld
        obtain ⟨hlifecycle, hwithin⟩ := not_or.mp (mt (saveHeld_iff hget).mpr hheld)
        have hnarrow : ¬ WiderSurface existing.surface agent.surface := by
          rintro (htracked | huntracked)
          · exact trackedWithin_iff.mp (not_not.mp hwithin) htracked
          · exact hslips ⟨existing, hget, huntracked, not_not.mp hwithin, Bool.eq_false_of_not_eq_true hlifecycle⟩
        refine ⟨fun record hrecord => ?_, fun hwider => absurd hwider hnarrow⟩
        cases (hstored hfree).symm.trans hrecord
        rwa [storedRecord_surface]

section Governed

variable (draws : Draws) (py : Interpreter) (binding : Binding)

/-- No save of a run widens a surface. -/
def NeverWidened (calls : List (RegistryCall fold)) : Prop :=
  ∀ before now agent rest, calls = before ++ .save now agent :: rest →
    SaveBounded (runCalls draws py (some binding) before).store
      (runCalls draws py (some binding) (before ++ [.save now agent])).store agent

variable {draws py binding}

theorem saveBounded_run (hpermits : PermitsEverything binding) (before : List (RegistryCall fold)) (now : ℤ)
    (agent : AgentRecord fold) : SaveBounded (runCalls draws py (some binding) before).store
      (runCalls draws py (some binding) (before ++ [.save now agent])).store agent ↔
        ¬ SlipsThrough (runCalls draws py (some binding) before).store agent := by
  rw [← saveBounded_iff _ now, runCalls_store hpermits, runCalls_store hpermits, List.foldl_append]
  rfl

/-- The surfaces of a run stay within their bounds if and only if no save widens the MCP servers,
the data scopes or the hourly limit of a registered agent without being held for something else. -/
theorem never_widened_iff (hpermits : PermitsEverything binding) (calls : List (RegistryCall fold)) :
    NeverWidened draws py binding calls ↔ ∀ before now agent rest, calls = before ++ .save now agent :: rest →
      ¬ SlipsThrough (runCalls draws py (some binding) before).store agent := by
  unfold NeverWidened
  simp only [saveBounded_run hpermits]

theorem never_widened_registered : NeverWidened plainDraws plainInterpreter permissiveBinding [registered] := by
  refine (never_widened_iff permissive_permits _).mpr ?_
  intro before now agent rest heq hslips
  cases before with
  | nil =>
    obtain ⟨existing, hget, -⟩ := hslips
    exact absurd hget nofun
  | cons first before => simp at heq

def oneServer : CapabilitySurface foldedTexts :=
  { CapabilitySurface.unrestricted foldedTexts with
    allowedMcpServers := ⟨[txt "files"], by decide, by decide, by decide⟩ }

/-- The restriction to one MCP server is dropped. -/
theorem servers_widened : ¬ NeverWidened plainDraws plainInterpreter permissiveBinding
    [.save 0 (sampleAgent .active oneServer), .save 1 (sampleAgent .active (.unrestricted foldedTexts))] := by
  intro h
  have hbounded := h [.save 0 (sampleAgent .active oneServer)] 1
    (sampleAgent .active (.unrestricted foldedTexts)) [] rfl
  refine (saveBounded_run permissive_permits _ _ _).mp hbounded ?_
  rw [runCalls_store permissive_permits]
  refine ⟨sampleAgent .active oneServer, rfl, .inl ⟨by decide, .inl rfl⟩, trackedWithin_iff.mpr ?_, rfl⟩
  simp [WiderTracked, Wider, sampleAgent, oneServer, AgentRecord.surface, CapabilitySurface.unrestricted,
    CleanTexts.none]

end Governed

end TexGovernance.Stores
