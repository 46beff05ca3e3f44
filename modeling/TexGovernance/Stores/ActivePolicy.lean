import TexGovernance.Stores.PolicyWrites

/-!
# The active policy over runs

Which snapshot is active depends on the flags and on the order of the saves.
-/

namespace TexGovernance.Stores
open PyStr PyRepr PyDict PyJson CaseFold Domain Selfgov

variable {fold : CaseFolding}

namespace PolicyStore

variable (store : PolicyStore fold)

def activeWithout (version : Str) : Option (PolicySnapshot fold) :=
  (without version store.orderedVersions).reverse.findSome? fun stored =>
    (store.get stored).filter fun policy => policy.isActive

variable {store}

theorem get_put (policy : PolicySnapshot fold) (version : Str) :
    (store.put policy).get version = if version = policy.version.text then some policy else store.get version :=
  Dict.get?_set _ _ _ _

theorem findSome?_agree {α : Type} {f g : Str → Option α} {versions : List Str}
    (h : ∀ version ∈ versions, f version = g version) : versions.findSome? f = versions.findSome? g := by
  induction versions with
  | nil => rfl
  | cons version versions ih =>
    rw [List.findSome?_cons, List.findSome?_cons, h version List.mem_cons_self,
      ih fun v hv => h v (List.mem_cons_of_mem _ hv)]

theorem getActive_put (policy : PolicySnapshot fold) : (store.put policy).getActive =
    if policy.isActive then some policy else store.activeWithout policy.version.text := by
  have hversions : (store.put policy).orderedVersions.reverse =
      policy.version.text :: (without policy.version.text store.orderedVersions).reverse := by
    change ((store.unlisted policy.version.text).1 ++ [policy.version.text]).reverse = _
    rw [unlisted_versions, List.reverse_append]
    rfl
  unfold getActive activeWithout
  rw [hversions, List.findSome?_cons, get_put, if_pos rfl]
  cases hflag : policy.isActive with
  | true => simp [Option.filter, hflag]
  | false =>
    simp only [Option.filter, hflag, Bool.false_eq_true, if_false]
    refine findSome?_agree fun stored hmem => ?_
    have hne : stored ≠ policy.version.text := (mem_without.mp (List.mem_reverse.mp hmem)).2
    rw [get_put, if_neg hne]

theorem stored_of_getActive {active : PolicySnapshot fold} (h : store.getActive = some active) :
    store.get active.version.text = some active ∧ active.isActive = true := by
  obtain ⟨version, -, hfound⟩ := List.exists_of_findSome?_eq_some h
  obtain ⟨hget, hflag⟩ := Option.filter_eq_some_iff.mp hfound
  exact ⟨(store.filed version active hget).symm ▸ hget, hflag⟩

theorem findSome?_without {α : Type} {f : Str → Option α} {version : Str} {a : α} {versions : List Str}
    (h : versions.findSome? f = some a) (hother : f version ≠ some a) :
    (versions.filter fun stored => stored ≠ version).findSome? f = some a := by
  induction versions with
  | nil => exact absurd h nofun
  | cons stored versions ih =>
    rw [List.findSome?_cons] at h
    by_cases heq : stored = version
    · rw [heq] at h
      cases hf : f version with
      | some b =>
        rw [hf] at h
        exact absurd (hf.trans h) hother
      | none =>
        rw [hf] at h
        rw [heq, List.filter_cons_of_neg (by simp)]
        exact ih h
    · rw [List.filter_cons_of_pos (by simp [heq]), List.findSome?_cons]
      cases hf : f stored with
      | some b =>
        rw [hf] at h
        exact h
      | none =>
        rw [hf] at h
        exact ih h

theorem activeWithout_of_ne {active : PolicySnapshot fold} (h : store.getActive = some active) {version : Str}
    (hne : version ≠ active.version.text) : store.activeWithout version = some active := by
  unfold activeWithout without
  rw [← List.filter_reverse]
  refine findSome?_without h ?_
  intro hfound
  exact hne (store.filed version active (Option.filter_eq_some_iff.mp hfound).1).symm

theorem findSome?_single {α : Type} {f : Str → Option α} {version : Str} {a : α} {versions : List Str}
    (hmem : version ∈ versions) (hfound : f version = some a) (hother : ∀ stored, stored ≠ version → f stored = none) :
    versions.findSome? f = some a := by
  induction versions with
  | nil => exact absurd hmem List.not_mem_nil
  | cons stored versions ih =>
    rw [List.findSome?_cons]
    by_cases heq : stored = version
    · rw [heq, hfound]
    · rw [hother stored heq]
      exact ih ((List.mem_cons.mp hmem).resolve_left (Ne.symm heq))

theorem getActive_flagged {version : Str} {target : PolicySnapshot fold} (hget : store.get version = some target) :
    (store.flagged version).getActive = some { target with isActive := true } := by
  have hflag : ∀ stored, ((store.flagged version).get stored).filter (fun policy => policy.isActive) =
      if stored = version then some { target with isActive := true } else none := by
    intro stored
    have hstored : (store.flagged version).get stored = _ := store.get?_flags version stored
    rw [hstored]
    by_cases heq : stored = version
    · simp [heq, hget, Option.filter]
    · rw [if_neg heq]
      cases store.get stored with
      | none => rfl
      | some policy => simp [heq, Option.filter]
  refine @findSome?_single _ _ version _ _ ?_ ?_ ?_
  · rw [List.mem_reverse]
    refine (store.listed version).mpr ?_
    exact ne_of_eq_of_ne hget (Option.some_ne_none target)
  · rw [hflag, if_pos rfl]
  · intro stored hne
    rw [hflag, if_neg hne]

end PolicyStore

section Slips

variable (sameJson : SameJson) (store : PolicyStore fold) (active : PolicySnapshot fold)

def Creeps (candidate : PolicySnapshot fold) : Prop :=
  StrictWithin eps active candidate ∧ (active.permitThreshold < candidate.permitThreshold ∨
    active.forbidThreshold < candidate.forbidThreshold ∨ candidate.minimumConfidence < active.minimumConfidence)

def Revives (policy : PolicySnapshot fold) : Prop :=
  resaves sameJson store policy = .ok true ∧ policy.isActive = true ∧ ¬ NotWeaker active policy

def Retires (policy : PolicySnapshot fold) : Prop :=
  policy.isActive = false ∧ policy.version.text = active.version.text ∧
    resaves sameJson store policy = .ok false ∧ ¬ OfGovernor policy ∧ StrictWithin eps active policy ∧
    ∀ next, store.activeWithout active.version.text = some next → ¬ NotWeaker active next

def SlipsPast : PolicyCall fold → Prop
  | .save policy => Revives sameJson store active policy ∨ Retires sameJson store active policy ∨
      (resaves sameJson store policy = .ok false ∧ policy.isActive = true ∧ ¬ OfGovernor policy ∧
        Creeps active policy)
  | .activate version => ∃ target, store.get version = some target ∧ version ≠ active.version.text ∧
      ¬ OfGovernor target ∧ Creeps active target
  | .delete _ => False
  | .clear => False

end Slips

section Step

variable {sameJson : SameJson} {store : PolicyStore fold} {active : PolicySnapshot fold}

theorem creeps_iff {candidate : PolicySnapshot fold} :
    Creeps active candidate ↔ StrictWithin eps active candidate ∧ ¬ NotWeaker active candidate := by
  unfold Creeps
  refine and_congr_right fun hwithin => ?_
  constructor
  · rintro (hpermit | hforbid | hconfidence) hstrict
    · exact absurd hstrict.permit (by simpa using hpermit)
    · exact absurd hstrict.forbid (by simpa using hforbid)
    · exact absurd hstrict.confidence (by simpa using hconfidence)
  · intro hweaker
    by_contra hnone
    push Not at hnone
    obtain ⟨hpermit, hforbid, hconfidence⟩ := hnone
    exact hweaker ⟨by simpa using hpermit, by simpa using hforbid, by simpa using hconfidence, hwithin.protections⟩

theorem saveAxes_eq_nil_iff (hactive : store.getActive = some active) (policy : PolicySnapshot fold) :
    saveAxes store policy = [] ↔ StrictWithin eps active policy := by
  unfold saveAxes
  rw [hactive]
  exact weakeningAxes_eq_nil_iff

theorem activateAxes_eq_nil_iff (hactive : store.getActive = some active) (target : PolicySnapshot fold) :
    activateAxes store target = [] ↔ StrictWithin eps active target := by
  unfold activateAxes
  rw [hactive]
  exact weakeningAxes_eq_nil_iff

theorem flag_of_resaves {policy existing : PolicySnapshot fold} (h : resaves sameJson store policy = .ok true)
    (hget : store.get policy.version.text = some existing) : existing.isActive = policy.isActive := by
  unfold resaves sameDump at h
  rw [hget] at h
  cases hsame : sameJson existing.settings policy.settings with
  | error e => simp [hsame, bind, Except.bind] at h
  | ok same =>
    simp only [hsame, bind, Except.bind, pure, Except.pure, Except.ok.injEq, Bool.and_eq_true,
      decide_eq_true_eq] at h
    exact h.2.2.2.1

def Keeps (active : PolicySnapshot fold) (store' : PolicyStore fold) : Prop :=
  ∃ new, store'.getActive = some new ∧ NotWeaker active new

theorem keeps_self (hactive : store.getActive = some active) : Keeps active store :=
  ⟨active, hactive, NotWeaker.refl active⟩

theorem keeps_of_eq {store' : PolicyStore fold} {new : PolicySnapshot fold} (h : store'.getActive = some new) :
    Keeps active store' ↔ NotWeaker active new := by
  constructor
  · rintro ⟨other, hother, hstrict⟩
    cases h.symm.trans hother
    exact hstrict
  · exact fun hstrict => ⟨new, h, hstrict⟩

theorem unheld_iff (hactive : store.getActive = some active) {policy : PolicySnapshot fold}
    (hlooked : replacesActive store policy = true ∨ policy.isActive = true) :
    policySaveHeld sameJson store policy = false ↔ resaves sameJson store policy = .ok true ∨
      (resaves sameJson store policy = .ok false ∧ ¬ OfGovernor policy ∧ StrictWithin eps active policy) := by
  unfold policySaveHeld
  cases hresaves : resaves sameJson store policy with
  | error e => simp
  | ok same =>
    cases same with
    | true => simp
    | false => simp [hlooked, saveAxes_eq_nil_iff hactive]

theorem keeps_save_flagged (hactive : store.getActive = some active) {policy : PolicySnapshot fold}
    (hflag : policy.isActive = true) :
    Keeps active (policyEffect sameJson store (.save policy)) ↔ ¬ SlipsPast sameJson store active (.save policy) := by
  have hunheld := @unheld_iff _ sameJson store active hactive policy (.inr hflag)
  have hput : (store.put policy).getActive = some policy := by
    rw [PolicyStore.getActive_put, if_pos hflag]
  have hslips : SlipsPast sameJson store active (.save policy) ↔
      policySaveHeld sameJson store policy = false ∧ ¬ NotWeaker active policy := by
    rw [hunheld]
    change Revives sameJson store active policy ∨ Retires sameJson store active policy ∨ _ ↔ _
    simp only [Revives, Retires, hflag, creeps_iff, true_and, Bool.true_eq_false, false_and, false_or]
    tauto
  rw [hslips]
  change Keeps active (if policySaveHeld sameJson store policy then store else store.put policy) ↔ _
  cases policySaveHeld sameJson store policy with
  | true => simpa using keeps_self hactive
  | false => simp [keeps_of_eq hput]

theorem keeps_save_unflagged (hactive : store.getActive = some active) {policy : PolicySnapshot fold}
    (hflag : policy.isActive = false) :
    Keeps active (policyEffect sameJson store (.save policy)) ↔ ¬ SlipsPast sameJson store active (.save policy) := by
  obtain ⟨hstored, hflagged⟩ := PolicyStore.stored_of_getActive hactive
  have hput : (store.put policy).getActive = store.activeWithout policy.version.text := by
    rw [PolicyStore.getActive_put, if_neg (by simp [hflag])]
  change Keeps active (if policySaveHeld sameJson store policy then store else store.put policy) ↔
    ¬ (Revives sameJson store active policy ∨ Retires sameJson store active policy ∨ _)
  by_cases hversion : policy.version.text = active.version.text
  · have hlooked : replacesActive store policy = true := by
      unfold replacesActive
      rw [hversion, hstored]
      exact hflagged
    have hchanges : resaves sameJson store policy ≠ .ok true := by
      intro hresaves
      have hsame := flag_of_resaves hresaves (hversion ▸ hstored)
      rw [hflagged, hflag] at hsame
      exact absurd hsame (by decide)
    have hunheld := @unheld_iff _ sameJson store active hactive policy (.inl hlooked)
    have hslips : Retires sameJson store active policy ↔ policySaveHeld sameJson store policy = false ∧
        ∀ next, store.activeWithout active.version.text = some next → ¬ NotWeaker active next := by
      rw [hunheld]
      simp only [Retires, hflag, hversion, hchanges, true_and, false_or]
      tauto
    rw [hslips]
    simp only [Revives, hflag, Bool.false_eq_true, false_and, and_false, false_or, or_false]
    cases policySaveHeld sameJson store policy with
    | true => simpa using keeps_self hactive
    | false => simp [Keeps, hput, hversion]
  · have hother : (store.put policy).getActive = some active :=
      hput.trans (PolicyStore.activeWithout_of_ne hactive hversion)
    refine iff_of_true ?_ ?_
    · split
      · exact keeps_self hactive
      · exact keeps_self hother
    · simp [Revives, Retires, hflag, hversion]

theorem keeps_activate (hactive : store.getActive = some active) (version : Str) :
    Keeps active (policyEffect sameJson store (.activate version)) ↔
      ¬ SlipsPast sameJson store active (.activate version) := by
  obtain ⟨hstored, hflagged⟩ := PolicyStore.stored_of_getActive hactive
  change _ ↔ ¬ ∃ target, store.get version = some target ∧ _
  simp only [policyEffect]
  cases hget : store.get version with
  | none => simpa using keeps_self hactive
  | some target =>
    have hversion : target.version.text = version := store.filed version target hget
    have hnew : (store.flagged version).getActive = some { target with isActive := true } :=
      PolicyStore.getActive_flagged hget
    have hstrict : Keeps active (store.flagged version) ↔ NotWeaker active target :=
      (keeps_of_eq hnew).trans ⟨fun h => h.flag target.isActive, fun h => h.flag true⟩
    have hheld : activateHeld store target = false ↔ version = active.version.text ∨
        (¬ OfGovernor target ∧ StrictWithin eps active target) := by
      have hsame : activePolicy store version = decide (version = active.version.text) := by
        unfold activePolicy
        rw [hactive]
        exact decide_eq_decide.mpr eq_comm
      unfold activateHeld
      rw [hversion, hsame]
      by_cases heq : version = active.version.text
      · simp [heq]
      · simp [heq, activateAxes_eq_nil_iff hactive]
    have hown : version = active.version.text → NotWeaker active target := by
      intro heq
      rw [heq, hstored] at hget
      rw [← Option.some.inj hget]
      exact NotWeaker.refl active
    have hslips : (∃ found, some target = some found ∧ version ≠ active.version.text ∧ ¬ OfGovernor found ∧
        Creeps active found) ↔ activateHeld store target = false ∧ ¬ NotWeaker active target := by
      rw [hheld]
      simp only [Option.some.injEq, exists_eq_left', creeps_iff]
      tauto
    rw [hslips]
    change Keeps active (if activateHeld store target then store else store.flagged version) ↔ _
    cases activateHeld store target with
    | true => simpa using keeps_self hactive
    | false => simp [hstrict]

theorem keeps_step (hactive : store.getActive = some active) (call : PolicyCall fold) :
    Keeps active (policyEffect sameJson store call) ↔ ¬ SlipsPast sameJson store active call := by
  cases call with
  | save policy =>
    cases hflag : policy.isActive with
    | true => exact keeps_save_flagged hactive hflag
    | false => exact keeps_save_unflagged hactive hflag
  | activate version => exact keeps_activate hactive version
  | delete version => exact iff_of_true (keeps_self hactive) not_false
  | clear =>
    have hnonempty : ¬ store.byVersion.items.length = 0 := by
      obtain ⟨hstored, -⟩ := PolicyStore.stored_of_getActive hactive
      intro hempty
      have hnone := (Dict.items_eq_nil_iff store.byVersion).mp (List.length_eq_zero_iff.mp hempty)
        active.version.text
      exact absurd (hstored.symm.trans hnone) nofun
    refine iff_of_true ?_ not_false
    unfold policyEffect
    rw [if_neg hnonempty]
    exact keeps_self hactive

end Step

section Runs

variable (sameJson : SameJson) (draws : Draws) (py : Interpreter) (binding : Binding)

/-- Each operation leaves an active policy that is as strict on every named axis, and so does
the whole run. -/
def NeverWeakened (start : World (PolicyStore fold)) (calls : List (PolicyCall fold)) : Prop :=
  (∀ before call rest, calls = before ++ call :: rest → ∃ old new,
    (runPolicyCalls sameJson draws py (some binding) start before).store.getActive = some old ∧
    (runPolicyCalls sameJson draws py (some binding) start (before ++ [call])).store.getActive = some new ∧
    NotWeaker old new) ∧
  ∃ first last, start.store.getActive = some first ∧
    (runPolicyCalls sameJson draws py (some binding) start calls).store.getActive = some last ∧
    NotWeaker first last

/-- No call of the run weakens the policy that is active then and gets past the signatures. -/
def NothingSlips (start : World (PolicyStore fold)) (calls : List (PolicyCall fold)) : Prop :=
  ∀ before call rest, calls = before ++ call :: rest → ∀ active,
    (runPolicyCalls sameJson draws py (some binding) start before).store.getActive = some active →
    ¬ SlipsPast sameJson (runPolicyCalls sameJson draws py (some binding) start before).store active call

variable {sameJson draws py binding} {start : World (PolicyStore fold)} {calls : List (PolicyCall fold)}

theorem runPolicyCalls_concat (calls : List (PolicyCall fold)) (call : PolicyCall fold) :
    runPolicyCalls sameJson draws py (some binding) start (calls ++ [call]) =
      performPolicy sameJson draws py (some binding) (runPolicyCalls sameJson draws py (some binding) start calls)
        call := by
  unfold runPolicyCalls
  rw [List.foldl_append]
  rfl

theorem keeps_run_step (hpermits : PermitsEverything binding) {active : PolicySnapshot fold}
    (hactive : (runPolicyCalls sameJson draws py (some binding) start calls).store.getActive = some active)
    (call : PolicyCall fold) :
    Keeps active (runPolicyCalls sameJson draws py (some binding) start (calls ++ [call])).store ↔
      ¬ SlipsPast sameJson (runPolicyCalls sameJson draws py (some binding) start calls).store active call := by
  rw [runPolicyCalls_concat, performPolicy_store hpermits]
  exact keeps_step hactive call

theorem nothingSlips_of_neverWeakened (hpermits : PermitsEverything binding)
    (h : NeverWeakened sameJson draws py binding start calls) :
    NothingSlips sameJson draws py binding start calls := by
  intro before call rest heq active hactive
  obtain ⟨old, new, hold, hnew, hstrict⟩ := h.1 before call rest heq
  cases hactive.symm.trans hold
  exact (keeps_run_step hpermits hactive call).mp ⟨new, hnew, hstrict⟩

theorem keeps_run (hpermits : PermitsEverything binding) {first : PolicySnapshot fold}
    (hfirst : start.store.getActive = some first) (h : NothingSlips sameJson draws py binding start calls) :
    Keeps first (runPolicyCalls sameJson draws py (some binding) start calls).store := by
  induction calls using List.reverseRecOn with
  | nil => exact keeps_self hfirst
  | append_singleton calls call ih =>
    obtain ⟨active, hactive, hstrict⟩ := ih fun before c rest heq =>
      h before c (rest ++ [call]) (by rw [heq, List.append_assoc, List.cons_append])
    obtain ⟨new, hnew, hstep⟩ := (keeps_run_step hpermits hactive call).mpr (h calls call [] rfl active hactive)
    exact ⟨new, hnew, hstrict.trans hstep⟩

/-- The active policy is never weakened if and only if no call of the run revives a weaker
flagged snapshot by saving it again, retires the active version, or creeps under the
tolerance. -/
theorem never_weakened_iff (hpermits : PermitsEverything binding) (hstart : start.store.getActive ≠ none)
    (calls : List (PolicyCall fold)) :
    NeverWeakened sameJson draws py binding start calls ↔ NothingSlips sameJson draws py binding start calls := by
  refine ⟨nothingSlips_of_neverWeakened hpermits, fun h => ?_⟩
  obtain ⟨first, hfirst⟩ := Option.ne_none_iff_exists'.mp hstart
  refine ⟨fun before call rest heq => ?_, ?_⟩
  · have hbefore : NothingSlips sameJson draws py binding start before := by
      intro before' call' rest' heq'
      exact h before' call' (rest' ++ call :: rest) (by rw [heq, heq', List.append_assoc, List.cons_append])
    obtain ⟨old, hold, -⟩ := keeps_run hpermits hfirst hbefore
    obtain ⟨new, hnew, hstrict⟩ :=
      (keeps_run_step hpermits hold call).mpr (h before call rest heq old hold)
    exact ⟨old, new, hold, hnew, hstrict⟩
  · obtain ⟨last, hlast, hstrict⟩ := keeps_run hpermits hfirst h
    exact ⟨first, last, hfirst, hlast, hstrict⟩

/-- Compared as texts. -/
def sameText : SameJson := fun a b => do
  let x ← dumps (.dict a)
  let y ← dumps (.dict b)
  return decide (x = y)

theorem default_ne_nil : txt "default" ≠ [] := by decide

theorem default_fits : fitsField 255 (txt "default") := by decide

theorem v1_ne_nil : txt "v1" ≠ [] := by decide

theorem v1_fits : fitsField 100 (txt "v1") := by decide

theorem v2_ne_nil : txt "v2" ≠ [] := by decide

theorem v2_fits : fitsField 100 (txt "v2") := by decide

def v1 : FieldText 100 := ⟨txt "v1", v1_ne_nil, v1_fits⟩

theorem v1_stripped : strip v1.text = v1.text := by decide

def samplePolicy (version : FieldText 100) (stripped : strip version.text = version.text) (permit : ℚ) :
    PolicySnapshot foldedTexts where
  policyId := ⟨txt "default", default_ne_nil, default_fits⟩
  folded := by decide
  version
  stripped
  isActive := true
  permitThreshold := permit
  forbidThreshold := 7 / 10
  minimumConfidence := 6 / 10
  deterministicBlockSeverities := [.critical]
  enabledRecognizers := []
  blockedTerms := []
  sensitiveEntities := []
  settings := []

def laxPolicy : PolicySnapshot foldedTexts :=
  samplePolicy v1 v1_stripped (4 / 10)

def strictPolicy : PolicySnapshot foldedTexts :=
  samplePolicy ⟨txt "v2", v2_ne_nil, v2_fits⟩ (by decide) (3 / 10)

def laxWorld : World (PolicyStore foldedTexts) := ⟨PolicyStore.fresh.put laxPolicy, ⟨0, []⟩⟩

theorem active_lax : laxWorld.store.getActive = some laxPolicy := by
  unfold laxWorld
  rw [PolicyStore.getActive_put]
  rfl

theorem strict_after_lax : NotWeaker laxPolicy strictPolicy := by
  refine ⟨?_, ?_, ?_, ⟨List.Subset.refl _, List.Subset.refl _, List.Subset.refl _, List.Subset.refl _⟩⟩
  · norm_num [laxPolicy, strictPolicy, samplePolicy]
  · norm_num [laxPolicy, strictPolicy, samplePolicy]
  · norm_num [laxPolicy, strictPolicy, samplePolicy]

theorem resaves_strict : resaves sameText laxWorld.store strictPolicy = .ok false := by
  have hget : laxWorld.store.get strictPolicy.version.text = none := by
    unfold laxWorld
    rw [PolicyStore.get_put, if_neg (by decide)]
    rfl
  unfold resaves
  rw [hget]

theorem never_weakened_tightened : NeverWeakened sameText plainDraws plainInterpreter permissiveBinding laxWorld
    [.save strictPolicy] := by
  refine (never_weakened_iff permissive_permits (by rw [active_lax]; exact Option.some_ne_none _) _).mpr ?_
  intro before call rest heq active hactive hslips
  cases before with
  | cons first before => simp at heq
  | nil =>
    cases heq
    cases active_lax.symm.trans hactive
    obtain ⟨hresaves, -⟩ | ⟨hflag, -⟩ | ⟨-, -, -, hcreeps⟩ := hslips
    · exact absurd (hresaves.symm.trans resaves_strict) (by decide)
    · exact absurd hflag (by decide)
    · exact (creeps_iff.mp hcreeps).2 strict_after_lax

/-- The lax policy is replaced by a strict one and then saved again as it is stored. -/
theorem lax_policy_revived : PermitsEverything permissiveBinding ∧ laxWorld.store.getActive = some laxPolicy ∧
    ¬ NeverWeakened sameText plainDraws plainInterpreter permissiveBinding laxWorld
      [.save strictPolicy, .save laxPolicy] := by
  refine ⟨permissive_permits, active_lax, fun h => ?_⟩
  have hstore : (runPolicyCalls sameText plainDraws plainInterpreter (some permissiveBinding) laxWorld
      [.save strictPolicy]).store = laxWorld.store.put strictPolicy := by
    rw [runPolicyCalls_store permissive_permits]
    change (if policySaveHeld sameText laxWorld.store strictPolicy then laxWorld.store else _) = _
    have hown : ¬ OfGovernor strictPolicy := by decide
    have hwithin : StrictWithin eps laxPolicy strictPolicy := by
      have hslack : (0 : ℚ) ≤ eps := by norm_num [eps]
      have hstrict := strict_after_lax
      exact ⟨hstrict.permit.trans (by linarith), hstrict.forbid.trans (by linarith),
        le_trans (by linarith) hstrict.confidence, hstrict.protections⟩
    have hunheld := (unheld_iff active_lax (.inr rfl)).mpr (.inr ⟨resaves_strict, hown, hwithin⟩)
    rw [hunheld]
    rfl
  have hactive : (laxWorld.store.put strictPolicy).getActive = some strictPolicy := by
    rw [PolicyStore.getActive_put]
    rfl
  have hnot := nothingSlips_of_neverWeakened permissive_permits h [.save strictPolicy] (.save laxPolicy) [] rfl
    strictPolicy (by rw [hstore]; exact hactive)
  rw [hstore] at hnot
  refine hnot (.inl ⟨?_, rfl, fun hstrict => ?_⟩)
  · have hget : (laxWorld.store.put strictPolicy).get laxPolicy.version.text = some laxPolicy := by
      unfold laxWorld
      rw [PolicyStore.get_put, if_neg (by decide), PolicyStore.get_put, if_pos rfl]
    unfold resaves
    rw [hget]
    simp [sameDump, sameText, laxPolicy, samplePolicy, dumps, toJson, toJsonMembers, bind, Except.bind, pure,
      Except.pure]
  · have hpermit := hstrict.permit
    norm_num [laxPolicy, strictPolicy, samplePolicy] at hpermit

end Runs

end TexGovernance.Stores
