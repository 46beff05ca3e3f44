import TexGovernance.Stores.Lifecycle

/-!
# Revisions of an agent

Whatever the governor answers or raises, a call stores the next revision of one agent or nothing.
-/

namespace TexGovernance.Stores
open PyStr PyDict Actions Selfgov
open Engine (Uuid)

variable {fold : CaseFold.CaseFolding} {registry : AgentRegistry fold} {id : Uuid} {stored : AgentRecord fold}

structure NextRevision (registry : AgentRegistry fold) (id : Uuid) (stored : AgentRecord fold) : Prop where
  own : stored.id = id
  first : registry.get id = none → stored.revision = 1
  next : ∀ existing, registry.get id = some existing →
    stored.revision = existing.revision + 1 ∧ stored.registeredAt = existing.registeredAt

theorem next_storedRecord (registry : AgentRegistry fold) (now : ℤ) (agent : AgentRecord fold) :
    NextRevision registry agent.id (storedRecord registry now agent) := by
  unfold storedRecord
  cases hget : registry.get agent.id with
  | none =>
    refine ⟨rfl, fun _ => rfl, fun existing hexisting => ?_⟩
    cases hget.symm.trans hexisting
  | some found =>
    refine ⟨rfl, fun hnone => ?_, fun existing hexisting => ?_⟩
    · cases hget.symm.trans hnone
    · cases hget.symm.trans hexisting
      exact ⟨rfl, rfl⟩

/-- What one call may do: it stores the next revision of one agent or nothing. -/
def RevisesOne (registry registry' : AgentRegistry fold) : Prop :=
  registry' = registry ∨ ∃ id stored, NextRevision registry id stored ∧ registry' = registry.put id stored

/-- The current record of an agent is the last of its history, which counts the revisions from one. -/
structure Revised (registry : AgentRegistry fold) (id : Uuid) : Prop where
  current : registry.get id = (registry.historyOf id).getLast?
  numbered : ∀ i record, (registry.historyOf id)[i]? = some record → record.revision = i + 1
  own : ∀ record ∈ registry.historyOf id, record.id = id
  registered : ∀ record ∈ registry.historyOf id, ∀ other ∈ registry.historyOf id,
    record.registeredAt = other.registeredAt

theorem revised_fresh (id : Uuid) : Revised (AgentRegistry.fresh : AgentRegistry fold) id := by
  have hempty : (AgentRegistry.fresh : AgentRegistry fold).historyOf id = [] := rfl
  constructor
  · rfl
  · simp [hempty]
  · simp [hempty]
  · simp [hempty]

namespace Revised

theorem historyOf_put (h : Revised registry id) (stored : AgentRecord fold) :
    (registry.put id stored).historyOf id = registry.historyOf id ++ [stored] := by
  rw [AgentRegistry.historyOf_put, if_pos rfl]
  cases hget : registry.get id with
  | none =>
    have hempty : registry.historyOf id = [] := List.getLast?_eq_none_iff.mp (h.current.symm.trans hget)
    rw [hempty]
    rfl
  | some existing => rfl

theorem revision_eq (h : Revised registry id) (hnext : NextRevision registry id stored) :
    stored.revision = (registry.historyOf id).length + 1 := by
  cases hget : registry.get id with
  | none =>
    have hempty : registry.historyOf id = [] := List.getLast?_eq_none_iff.mp (h.current.symm.trans hget)
    rw [hnext.first hget, hempty]
    rfl
  | some existing =>
    have hlast := h.current.symm.trans hget
    have hpos := List.length_pos_of_mem (List.mem_of_getLast? hlast)
    rw [List.getLast?_eq_getElem?] at hlast
    have hexisting := h.numbered _ _ hlast
    have hstored := (hnext.next existing hget).1
    omega

theorem registeredAt_eq (h : Revised registry id) (hnext : NextRevision registry id stored) :
    ∀ record ∈ registry.historyOf id, stored.registeredAt = record.registeredAt := by
  intro record hrecord
  cases hget : registry.get id with
  | none =>
    rw [List.getLast?_eq_none_iff.mp (h.current.symm.trans hget)] at hrecord
    cases hrecord
  | some existing =>
    have hexisting := List.mem_of_getLast? (h.current.symm.trans hget)
    exact (hnext.next existing hget).2.trans (h.registered existing hexisting record hrecord)

theorem put_self (h : Revised registry id) (hnext : NextRevision registry id stored) :
    Revised (registry.put id stored) id := by
  have hhistory := h.historyOf_put stored
  have hsame := h.registeredAt_eq hnext
  refine ⟨?_, fun i record hi => ?_, ?_, ?_⟩
  · rw [AgentRegistry.get_put, if_pos rfl, hhistory, List.getLast?_concat]
  · rw [hhistory, List.getElem?_append] at hi
    split at hi
    · exact h.numbered i record hi
    · obtain ⟨hlt, rfl⟩ := List.getElem?_eq_some_iff.mp hi
      have hrevision := h.revision_eq hnext
      simp only [List.length_singleton] at hlt
      simp only [List.getElem_singleton]
      omega
  · rw [hhistory]
    simp only [List.forall_mem_append, List.forall_mem_singleton]
    exact ⟨h.own, hnext.own⟩
  · rw [hhistory]
    simp only [List.forall_mem_append, List.forall_mem_singleton]
    exact ⟨fun record hrecord => ⟨h.registered record hrecord, (hsame record hrecord).symm⟩, hsame, trivial⟩

theorem of_same {registry' : AgentRegistry fold} (h : Revised registry id)
    (hget : registry'.get id = registry.get id) (hhistory : registry'.historyOf id = registry.historyOf id) :
    Revised registry' id := by
  constructor
  · rw [hget, hhistory]
    exact h.current
  · rw [hhistory]
    exact h.numbered
  · rw [hhistory]
    exact h.own
  · rw [hhistory]
    exact h.registered

theorem put (h : ∀ k, Revised registry k) (hnext : NextRevision registry id stored) (k : Uuid) :
    Revised (registry.put id stored) k ∧ registry.historyOf k <+: (registry.put id stored).historyOf k := by
  by_cases hk : k = id
  · subst hk
    refine ⟨(h k).put_self hnext, ?_⟩
    rw [(h k).historyOf_put]
    exact List.prefix_append _ _
  · have hhistory : (registry.put id stored).historyOf k = registry.historyOf k := by
      rw [AgentRegistry.historyOf_put, if_neg hk]
    have hget : (registry.put id stored).get k = registry.get k := by
      rw [AgentRegistry.get_put, if_neg hk]
    refine ⟨(h k).of_same hget hhistory, ?_⟩
    rw [hhistory]

end Revised

section Runs

variable (draws : Draws) (py : Interpreter) (binding : Option Binding)

/-- The gate itself leaves the store alone, whether it answers or raises. -/
theorem after_gated {σ α : Type} {P : σ → Prop} {describe : σ → Except PyErr MutationDescriptor}
    {f : Bool → EStateM PyErr (World σ) α} {w : World σ} (hw : P w.store)
    (hf : ∀ allowed w', w'.store = w.store → P (after (f allowed) w').store) :
    P (after (gated draws py binding describe >>= f) w).store := by
  have hkept : (after (gated draws py binding describe) w).store = w.store := by
    unfold after gated
    cases gateControllerMutation draws py binding ⟨describe w.store, describe w.store⟩ w.log with
    | ok outcome log => rfl
    | error e log => rfl
  cases hgate : gated draws py binding describe w with
  | error e w' =>
    rw [after_of_error hgate] at hkept
    rwa [after_of_error (bind_error hgate f), hkept]
  | ok allowed w' =>
    rw [after_of_ok hgate] at hkept
    rw [after_bind hgate]
    exact hf allowed w' hkept

theorem perform_cases {w : World (AgentRegistry fold)} (h : ∀ id, Revised w.store id) (call : RegistryCall fold) :
    RevisesOne w.store (perform draws py binding w call).store := by
  cases call with
  | save now agent =>
    refine after_gated draws py binding (P := RevisesOne w.store) (.inl rfl) fun allowed w' hw' => ?_
    cases allowed with
    | false => exact .inl hw'
    | true =>
      refine .inr ⟨agent.id, storedRecord w.store now agent, next_storedRecord _ _ _, ?_⟩
      rw [← hw']
      rfl
  | setLifecycle now id status =>
    refine after_gated draws py binding (P := RevisesOne w.store) (.inl rfl) fun allowed w' hw' => ?_
    unfold after setLifecycleIf
    cases hget : w'.store.get id with
    | none => exact .inl hw'
    | some existing =>
      by_cases hskip : allowed = false ∨ existing.status = status
      · simp only [if_pos hskip]
        exact .inl hw'
      · simp only [if_neg hskip]
        rw [hw'] at hget ⊢
        refine .inr ⟨id, withStatus existing now status, ⟨?_, fun hnone => ?_, fun found hfound => ?_⟩, rfl⟩
        · exact (h id).own existing (List.mem_of_getLast? ((h id).current.symm.trans hget))
        · cases hget.symm.trans hnone
        · cases hget.symm.trans hfound
          exact ⟨rfl, rfl⟩

theorem revised_run (calls : List (RegistryCall fold)) {w : World (AgentRegistry fold)}
    (h : ∀ id, Revised w.store id) (id : Uuid) :
    Revised (calls.foldl (perform draws py binding) w).store id ∧
      w.store.historyOf id <+: (calls.foldl (perform draws py binding) w).store.historyOf id := by
  induction calls generalizing w with
  | nil => exact ⟨h id, List.prefix_refl _⟩
  | cons call calls ih =>
    have hstep : ∀ k, Revised (perform draws py binding w call).store k ∧
        w.store.historyOf k <+: (perform draws py binding w call).store.historyOf k := by
      intro k
      obtain hsame | ⟨target, stored, hnext, hput⟩ := perform_cases draws py binding h call
      · rw [hsame]
        exact ⟨h k, List.prefix_refl _⟩
      · rw [hput]
        exact Revised.put h hnext k
    obtain ⟨hrevised, hprefix⟩ := ih fun k => (hstep k).1
    exact ⟨hrevised, (hstep id).2.trans hprefix⟩

/-- Under any governor the history of an agent only grows, by consecutive revisions that keep the time of
the registration, and the registry answers with the last of them. -/
theorem agent_history_append_only (earlier later : List (RegistryCall fold)) (id : Uuid) :
    Revised (runCalls draws py binding (earlier ++ later)).store id ∧
      (runCalls draws py binding earlier).store.historyOf id <+:
        (runCalls draws py binding (earlier ++ later)).store.historyOf id := by
  have hearlier := fun k => (revised_run draws py binding earlier (w := ⟨.fresh, ⟨0, []⟩⟩) revised_fresh k).1
  unfold runCalls
  rw [List.foldl_append]
  exact revised_run draws py binding later hearlier id

end Runs

end TexGovernance.Stores
