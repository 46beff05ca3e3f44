import TexGovernance.Stores.PolicyStore

/-!
# Policy writes under a permissive governor

Under a policy decision point that permits everything a write of the policy store is held by
the signatures alone, and what it leaves is a function of the store.
-/

namespace TexGovernance.Stores
open PyStr PyRepr PyDict PyJson CaseFold Actions Domain Selfgov

variable {fold : CaseFolding}

section Held

variable (sameJson : SameJson) (store : PolicyStore fold)

def OfGovernor (policy : PolicySnapshot fold) : Prop := policy.policyId.text = governorPolicyId

instance (policy : PolicySnapshot fold) : Decidable (OfGovernor policy) := inferInstanceAs (Decidable (_ = _))

def policySaveHeld (policy : PolicySnapshot fold) : Bool :=
  match resaves sameJson store policy with
  | .error _ => true
  | .ok true => false
  | .ok false => OfGovernor policy ∨
      ((replacesActive store policy ∨ policy.isActive) ∧ saveAxes store policy ≠ [])

def activateHeld (target : PolicySnapshot fold) : Bool :=
  if activePolicy store target.version.text then false
  else OfGovernor target ∨ activateAxes store target ≠ []

def policyEffect : PolicyCall fold → PolicyStore fold
  | .save policy => if policySaveHeld sameJson store policy then store else store.put policy
  | .activate version =>
    match store.get version with
    | none => store
    | some target => if activateHeld store target then store else store.flagged version
  | .delete _ => store
  | .clear => if store.byVersion.items.length = 0 then .fresh else store

end Held

variable {sameJson : SameJson} {draws : Draws} {py : Interpreter} {binding : Binding}
variable {store : PolicyStore fold}

theorem facts_of_axes {items : List (Str × PyObj)} {axes : List PyObj}
    (hchanges : isTrue (field items (txt "no_change")) = false)
    (hold : field items (txt "old_status") = .none) (hnew : field items (txt "new_status") = .none)
    (haxes : tupleOr (field items (txt "weakening_axes")) = .ok axes)
    (hwidened : field items (txt "widened_dimensions") = .none) : Facts py items ([], []) axes [] :=
  ⟨hchanges, by rw [hold, hnew]; rfl, haxes, by rw [hwidened]; rfl⟩

theorem strOr_text (s : Str) : strOr py (.str s) = s := by
  unfold strOr truth strOf
  by_cases hs : s = []
  · simp [hs]
  · simp [hs]

variable {items more : List (Str × PyObj)}

theorem field_append_of_none {key : Str} (h : items.lookup key = none) :
    field (items ++ more) key = field more key := by
  unfold field
  rw [List.lookup_append, h, Option.none_or]

theorem field_append_of_some {key : Str} {value : PyObj}
    (h : items.lookup key = some value) : field (items ++ more) key = value := by
  unfold field
  rw [List.lookup_append, h, Option.some_or]
  rfl

def factNames : List String := ["no_change", "old_status", "new_status", "weakening_axes", "widened_dimensions"]

theorem facts_append {axes : List PyObj}
    (hitems : ∀ name ∈ factNames, items.lookup (txt name) = none) (h : Facts py more ([], []) axes []) :
    Facts py (items ++ more) ([], []) axes [] where
  changes := by
    rw [field_append_of_none (hitems _ (by simp [factNames]))]
    exact h.changes
  lifecycle := by
    rw [field_append_of_none (hitems _ (by simp [factNames])), field_append_of_none (hitems _ (by simp [factNames]))]
    exact h.lifecycle
  axes := by
    rw [field_append_of_none (hitems _ (by simp [factNames]))]
    exact h.axes
  widened := by
    rw [field_append_of_none (hitems _ (by simp [factNames]))]
    exact h.widened

theorem lookup_named {items : List (Str × PyObj)} (names : List String) (hkeys : items.map Prod.fst = names.map txt)
    (hnames : ∀ name ∈ factNames, name ∉ names) : ∀ name ∈ factNames, items.lookup (txt name) = none := by
  intro name hname
  rw [List.lookup_eq_none_iff]
  intro item hitem
  have hkey : item.1 ∈ names.map txt := hkeys ▸ List.mem_map_of_mem hitem
  obtain ⟨other, hother, heq⟩ := List.mem_map.mp hkey
  rw [bne_iff_ne]
  intro hsame
  exact hnames name hname (txt_inj.mp (hsame.trans heq.symm) ▸ hother)

def consideredAxes (store : PolicyStore fold) (policy : PolicySnapshot fold) : List Str :=
  if replacesActive store policy ∨ policy.isActive then saveAxes store policy else []

theorem change_facts (policy : PolicySnapshot fold) :
    Facts py (changeItems store policy) ([], []) ((consideredAxes store policy).map .str) [] := by
  unfold changeItems consideredAxes
  by_cases hlooked : replacesActive store policy = true ∨ policy.isActive = true
  · rw [if_pos hlooked, if_pos hlooked]
    refine facts_of_axes ?_ ?_ ?_ ?_ ?_
    · simp [field, Selfgov.isTrue, List.lookup_cons]
    · simp [field, List.lookup_cons]
    · simp [field, List.lookup_cons]
    · simpa [field, List.lookup_cons] using tupleOr_texts _
    · simp [field, List.lookup_cons]
  · rw [if_neg hlooked, if_neg hlooked]
    cases store.get policy.version.text with
    | none =>
      refine facts_of_axes ?_ ?_ ?_ ?_ ?_
      · simp [field, Selfgov.isTrue, List.lookup_cons]
      · simp [field, List.lookup_cons]
      · simp [field, List.lookup_cons]
      · simp [field, List.lookup_cons, tupleOr, truth]
      · simp [field, List.lookup_cons]
    | some existing => exact facts_of_axes rfl rfl rfl rfl rfl

theorem saved_skip (policy : PolicySnapshot fold) :
    ∀ name ∈ factNames, (savedItems policy).lookup (txt name) = none :=
  lookup_named ["version", "policy_id", "new_policy_id", "is_active_flag"] rfl (by decide)

theorem aims_of_id {mutationClass : Str} {items : List (Str × PyObj)} {policy : PolicySnapshot fold}
    (hclass : mutationClass ≠ governorBinding)
    (hid : field items (txt "policy_id") = .str policy.policyId.text)
    (hnew : field items (txt "new_policy_id") ∈ [.none, .str policy.policyId.text]) :
    aimsAtGovernor py mutationClass items = decide (OfGovernor policy) := by
  have hblank : ¬ strOr py .none = governorPolicyId := by
    change ¬ ([] : Str) = governorPolicyId
    decide
  refine Bool.eq_iff_iff.mpr ?_
  rw [decide_eq_true_iff]
  obtain hnew | hnew := List.mem_pair.mp hnew
  · simp [aimsAtGovernor, hclass, hid, hnew, strOr_text, hblank, OfGovernor]
  · simp [aimsAtGovernor, hclass, hid, hnew, strOr_text, OfGovernor]

theorem saved_aims (policy : PolicySnapshot fold) (more : List (Str × PyObj)) :
    aimsAtGovernor py policyWrite (savedItems policy ++ more) = decide (OfGovernor policy) := by
  have hclass : policyWrite ≠ governorBinding := by decide
  have hid : field (savedItems policy ++ more) (txt "policy_id") = .str policy.policyId.text :=
    field_append_of_some (by simp [savedItems, List.lookup_cons])
  have hnew : field (savedItems policy ++ more) (txt "new_policy_id") = .str policy.policyId.text :=
    field_append_of_some (by simp [savedItems, List.lookup_cons])
  exact aims_of_id hclass hid (List.mem_pair.mpr (.inr hnew))

theorem toJsonMembers_append {ms ms' : List (Str × Json)}
    (h : toJsonMembers items = .ok ms) (h' : toJsonMembers more = .ok ms') :
    toJsonMembers (items ++ more) = .ok (ms ++ ms') := by
  induction items generalizing ms with
  | nil =>
    cases h
    exact h'
  | cons item items ih =>
    obtain ⟨k, x⟩ := item
    simp only [toJsonMembers, List.cons_append, bind, Except.bind, pure, Except.pure] at h ⊢
    cases hx : toJson x with
    | error e => simp [hx] at h
    | ok value =>
      cases hitems : toJsonMembers items with
      | error e => simp [hx, hitems] at h
      | ok members =>
        simp only [hx, hitems, Except.ok.injEq] at h
        rw [ih hitems, ← h]
        rfl

def Written (items : List (Str × PyObj)) : Prop := ∃ members, toJsonMembers items = .ok members

theorem Written.append (h : Written items) (h' : Written more) :
    Written (items ++ more) := by
  obtain ⟨ms, hms⟩ := h
  obtain ⟨ms', hms'⟩ := h'
  exact ⟨ms ++ ms', toJsonMembers_append hms hms'⟩

theorem Written.dumped {items : List (Str × PyObj)} (h : Written items) : ∃ j, toJson (.dict items) = .ok j := by
  obtain ⟨ms, hms⟩ := h
  simp [toJson, hms, bind, Except.bind, pure, Except.pure]

theorem written_texts (key : Str) (texts : List Str) : Written [(key, .list (texts.map .str))] := by
  obtain ⟨js, hjs⟩ := toJsonItems_texts texts
  exact ⟨[(key, .arr js)], by simp [toJsonMembers, toJson, hjs, bind, Except.bind, pure, Except.pure]⟩

theorem written_saved (policy : PolicySnapshot fold) : Written (savedItems policy) := ⟨_, rfl⟩

theorem written_changes (policy : PolicySnapshot fold) : Written (changeItems store policy) := by
  unfold changeItems
  split
  · exact (written_texts _ _).append ⟨_, rfl⟩
  · cases store.get policy.version.text with
    | none => exact ⟨_, rfl⟩
    | some existing => exact ⟨_, rfl⟩

theorem describable_version {surface mutationClass version : Str} {items : List (Str × PyObj)}
    (hsurface : fitsField 200 surface) (hclass : fitsField 100 mutationClass) (hversion : version.length ≤ 100)
    (hitems : Written items) :
    Describable ⟨surface, mutationClass, some version, .ofItems items, txt "production"⟩ items where
  payload := rfl
  dumped := hitems.dumped
  surface := hsurface
  mutationClass := hclass
  subject := by
    intro subjectId h
    cases h
    omega
  environment := rfl

theorem savePolicy_fired {policy : PolicySnapshot fold} (hresaves : resaves sameJson store policy = .ok false) :
    ∃ descriptor mg, describePolicySave sameJson store policy = .ok descriptor ∧
      Describable descriptor (savedItems policy ++ changeItems store policy) ∧
      evaluateMetaguard py descriptor = .ok mg ∧ mg.fired = policySaveHeld sameJson store policy := by
  have hclass : policyWrite ∉ [keyMutation, policyDelete, policyClear] := by decide
  obtain ⟨mg, hmg, hfired⟩ := @fired_iff py ⟨txt "tex.stores.policy_store.InMemoryPolicyStore.save", policyWrite,
    some policy.version.text, .ofItems (savedItems policy ++ changeItems store policy), txt "production"⟩ _ _ _ _ rfl
    (facts_append (saved_skip policy) (change_facts policy))
  refine ⟨_, mg, ?_, ?_, hmg, ?_⟩
  · unfold describePolicySave
    rw [hresaves]
    rfl
  · exact describable_version (by decide) (by decide) policy.version.fits.1
      ((written_saved policy).append (written_changes policy))
  · refine Bool.eq_iff_iff.mpr (hfired.trans ?_)
    simp only [Fires, saved_aims, hclass, policySaveHeld, hresaves, consideredAxes]
    by_cases hlooked : replacesActive store policy = true ∨ policy.isActive = true
    · simp [hlooked]
    · simp [hlooked]

theorem describePolicySave_resave {policy : PolicySnapshot fold}
    (hresaves : resaves sameJson store policy = .ok true) : ∃ descriptor,
      describePolicySave sameJson store policy = .ok descriptor ∧
        evaluateMetaguard py descriptor = .ok ⟨[], [], false, true⟩ := by
  refine ⟨_, by unfold describePolicySave; rw [hresaves]; rfl, ?_⟩
  refine evaluateMetaguard_noChange rfl ?_
  change isTrue (field (savedItems policy ++ [(txt "no_change", PyObj.bool true)]) (txt "no_change")) = true
  rw [field_append_of_none (saved_skip policy _ (by simp [factNames]))]
  simp [field, Selfgov.isTrue]

theorem activate_missing {version : Str} (hget : store.get version = none) :
    evaluateMetaguard py (describePolicyActivate store version) = .ok ⟨[], [], false, true⟩ := by
  refine evaluateMetaguard_noChange rfl ?_
  simp [activateItems, hget, field, List.lookup_cons, Selfgov.isTrue]

theorem length_version {version : Str} {target : PolicySnapshot fold} (hget : store.get version = some target) :
    version.length ≤ 100 := by
  rw [← store.filed version target hget]
  exact target.version.fits.1

theorem named_skip (version : Str) (target : PolicySnapshot fold) : ∀ name ∈ factNames,
    ([(txt "version", .str version), (txt "policy_id", .str target.policyId.text)] :
      List (Str × PyObj)).lookup (txt name) = none :=
  lookup_named ["version", "policy_id"] rfl (by decide)

theorem activate_fired {version : Str} {target : PolicySnapshot fold} (hget : store.get version = some target) :
    Describable (describePolicyActivate store version) (activateItems store version) ∧
    ∃ mg, evaluateMetaguard py (describePolicyActivate store version) = .ok mg ∧
      mg.fired = activateHeld store target := by
  have hclass : policyActivate ∉ [keyMutation, policyDelete, policyClear] := by decide
  have hbinding : policyActivate ≠ governorBinding := by decide
  have hversion : target.version.text = version := store.filed version target hget
  unfold activateHeld
  rw [hversion]
  by_cases hactive : activePolicy store version = true
  · have hitems : activateItems store version =
        [(txt "version", PyObj.str version), (txt "policy_id", PyObj.str target.policyId.text)] ++
          [(txt "no_change", PyObj.bool true)] := by
      simp [activateItems, hget, hactive]
    refine ⟨describable_version (by decide) (by decide) (length_version hget) ?_,
      ⟨[], [], false, true⟩, evaluateMetaguard_noChange rfl ?_, ?_⟩
    · rw [hitems]
      exact ⟨_, rfl⟩
    · rw [hitems, field_append_of_none (named_skip version target _ (by simp [factNames]))]
      simp [field, Selfgov.isTrue]
    · rw [if_pos hactive]
      rfl
  · have hitems : activateItems store version =
        [(txt "version", PyObj.str version), (txt "policy_id", PyObj.str target.policyId.text)] ++
          [(txt "weakening_axes", PyObj.list ((activateAxes store target).map .str))] := by
      simp [activateItems, hget, hactive]
    have hfacts : Facts py ([(txt "version", PyObj.str version), (txt "policy_id", PyObj.str target.policyId.text)] ++
        [(txt "weakening_axes", PyObj.list ((activateAxes store target).map .str))]) ([], [])
        ((activateAxes store target).map .str) [] := by
      refine facts_append (named_skip version target) (facts_of_axes ?_ ?_ ?_ ?_ ?_)
      · simp [field, Selfgov.isTrue, List.lookup_cons]
      · simp [field, List.lookup_cons]
      · simp [field, List.lookup_cons]
      · simpa [field, List.lookup_cons] using tupleOr_texts _
      · simp [field, List.lookup_cons]
    obtain ⟨mg, hmg, hfired⟩ := @fired_iff py (describePolicyActivate store version) _ _ _ _
      (congrArg Payload.ofItems hitems) hfacts
    refine ⟨describable_version (by decide) (by decide) (length_version hget) ?_, mg, hmg,
      Bool.eq_iff_iff.mpr (hfired.trans ?_)⟩
    · rw [hitems]
      exact Written.append ⟨_, rfl⟩ (written_texts _ _)
    · have hid : field ([(txt "version", PyObj.str version), (txt "policy_id", PyObj.str target.policyId.text)] ++
          [(txt "weakening_axes", PyObj.list ((activateAxes store target).map .str))]) (txt "policy_id") =
          .str target.policyId.text := field_append_of_some (by simp [List.lookup_cons])
      have haims := @aims_of_id _ py _ _ _ hbinding hid (by simp [field, List.lookup_cons])
      simp only [Fires, describePolicyActivate, haims, hclass, hactive]
      simp

theorem destroys_fired {descriptor : MutationDescriptor} {items : List (Str × PyObj)}
    (hpayload : descriptor.payload = .ofItems items) (hskip : ∀ name ∈ factNames, items.lookup (txt name) = none)
    (hclass : descriptor.mutationClass ∈ [keyMutation, policyDelete, policyClear]) :
    ∃ mg, evaluateMetaguard py descriptor = .ok mg ∧ mg.fired = true := by
  have hfacts : Facts py items ([], []) [] [] := by
    rw [← List.append_nil items]
    exact facts_append hskip (facts_of_axes rfl rfl rfl rfl rfl)
  obtain ⟨mg, hmg, hfired⟩ := fired_iff hpayload hfacts
  exact ⟨mg, hmg, hfired.mpr (.inr (.inr (.inr (.inr hclass))))⟩

section Effect

variable (hpermits : PermitsEverything binding) (w : World (PolicyStore fold))

include hpermits in
theorem perform_savePolicy (policy : PolicySnapshot fold) :
    (performPolicy sameJson draws py (some binding) w (.save policy)).store =
      policyEffect sameJson w.store (.save policy) := by
  suffices hgate : ∃ log', gated draws py (some binding)
      (fun store => describePolicySave sameJson store policy) w =
        .ok (!policySaveHeld sameJson w.store policy) { w with log := log' } by
    obtain ⟨log', hgate⟩ := hgate
    refine (congrArg World.store (after_bind hgate (savePolicyIf policy))).trans ?_
    change _ = if policySaveHeld sameJson w.store policy then w.store else w.store.put policy
    cases policySaveHeld sameJson w.store policy with
    | true => rfl
    | false => rfl
  cases hresaves : resaves sameJson w.store policy with
  | error e =>
    have hheld : policySaveHeld sameJson w.store policy = true := by
      unfold policySaveHeld
      rw [hresaves]
    rw [hheld]
    refine @gated_undescribed _ draws binding py _ _ e ?_
    unfold describePolicySave
    rw [hresaves]
    rfl
  | ok same =>
    cases same with
    | true =>
      have hheld : policySaveHeld sameJson w.store policy = false := by
        unfold policySaveHeld
        rw [hresaves]
      obtain ⟨descriptor, hdescribe, hmg⟩ := @describePolicySave_resave _ sameJson py w.store policy hresaves
      rw [hheld]
      exact ⟨w.log, gated_noChange hdescribe hmg⟩
    | false =>
      obtain ⟨descriptor, mg, hdescribe, hdescribable, hmg, hfired⟩ :=
        @savePolicy_fired _ sameJson py w.store policy hresaves
      rw [← hfired]
      exact gated_permissive hpermits hdescribe hdescribable hmg

include hpermits in
theorem perform_activate (version : Str) :
    (performPolicy sameJson draws py (some binding) w (.activate version)).store =
      policyEffect sameJson w.store (.activate version) := by
  cases hget : w.store.get version with
  | none =>
    have hgate := @gated_noChange _ draws binding py
      (fun store : PolicyStore fold => .ok (describePolicyActivate store version)) w _ rfl (activate_missing hget)
    refine (congrArg World.store (after_bind hgate (activateIf version))).trans ?_
    simp [after, activateIf, policyEffect, hget]
  | some target =>
    obtain ⟨hdescribable, mg, hmg, hfired⟩ := @activate_fired _ py w.store version target hget
    obtain ⟨log', hgate⟩ := @gated_permissive draws binding py _ _ _ hpermits
      (fun store : PolicyStore fold => .ok (describePolicyActivate store version)) w rfl hdescribable mg hmg
    refine (congrArg World.store (after_bind hgate (activateIf version))).trans ?_
    rw [hfired]
    cases hheld : activateHeld w.store target with
    | true => simp [after, activateIf, policyEffect, hget, hheld]
    | false => simp [after, activateIf, policyEffect, hget, hheld]

theorem store_of_fired {α : Type} {descriptor : MutationDescriptor}
    {act : Bool → EStateM PyErr (World (PolicyStore fold)) α}
    (hdenied : ∀ w, (after (act false) w).store = w.store)
    (describe : PolicyStore fold → Except PyErr MutationDescriptor)
    (hdescribe : describe w.store = .ok descriptor) {mg : MetaguardResult}
    (hmg : evaluateMetaguard py descriptor = .ok mg) (hfired : mg.fired = true) :
    (after (gated draws py (some binding) describe >>= act) w).store = w.store := by
  obtain ⟨log', hgate⟩ | ⟨e, log', hgate⟩ := @gated_fired _ draws binding _ _ _ _ hdescribe _ hmg hfired
  · rw [after_bind hgate]
    exact hdenied _
  · have herror : (gated draws py (some binding) describe >>= act) w = .error e { w with log := log' } :=
      bind_error hgate act
    rw [after_of_error herror]

theorem perform_delete (version : Str) :
    (performPolicy sameJson draws py (some binding) w (.delete version)).store = w.store := by
  cases hget : w.store.get version with
  | none =>
    have hmg : evaluateMetaguard py (describePolicyDelete w.store version) = .ok ⟨[], [], false, true⟩ :=
      evaluateMetaguard_noChange rfl (by simp [deleteItems, hget, field, List.lookup_cons, Selfgov.isTrue])
    have hgate := @gated_noChange _ draws binding py
      (fun store : PolicyStore fold => .ok (describePolicyDelete store version)) w _ rfl hmg
    refine (congrArg World.store (after_bind hgate (deleteIf version))).trans ?_
    have hraises : deleteIf version true w = .error .other w := by
      change (match w.store.get version with
        | none => throw .other
        | some _ => modify fun w => { w with store := w.store.remove version } :
          EStateM PyErr (World (PolicyStore fold)) Unit) w = _
      rw [hget]
      rfl
    rw [after_of_error hraises]
  | some target =>
    obtain ⟨mg, hmg, hfired⟩ := @destroys_fired py (describePolicyDelete w.store version)
      [(txt "version", .str version), (txt "policy_id", .str target.policyId.text),
        (txt "active_deleted", .bool target.isActive)] (by simp [describePolicyDelete, deleteItems, hget])
      (lookup_named ["version", "policy_id", "active_deleted"] rfl (by decide))
      (by simp [describePolicyDelete])
    exact store_of_fired w (fun _ => rfl) (fun store => .ok (describePolicyDelete store version)) rfl hmg hfired

theorem perform_clear :
    (performPolicy sameJson draws py (some binding) w .clear).store = policyEffect sameJson w.store .clear := by
  by_cases hempty : w.store.byVersion.items.length = 0
  · have hmg : evaluateMetaguard py (describePolicyClear w.store) = .ok ⟨[], [], false, true⟩ :=
      evaluateMetaguard_noChange rfl (by simp [clearItems, hempty, field, List.lookup_cons, Selfgov.isTrue])
    have hgate := @gated_noChange _ draws binding py
      (fun store : PolicyStore fold => .ok (describePolicyClear store)) w _ rfl hmg
    refine (congrArg World.store (after_bind hgate clearIf)).trans ?_
    exact (if_pos hempty).symm
  · obtain ⟨mg, hmg, hfired⟩ := @destroys_fired py (describePolicyClear w.store)
      [(txt "count", .int w.store.byVersion.items.length)] (by simp [describePolicyClear, clearItems, hempty])
      (lookup_named ["count"] rfl (by decide)) (by simp [describePolicyClear])
    refine (store_of_fired w (fun _ => rfl) (fun store => .ok (describePolicyClear store)) rfl hmg hfired).trans ?_
    exact (if_neg hempty).symm

include hpermits in
theorem performPolicy_store (call : PolicyCall fold) :
    (performPolicy sameJson draws py (some binding) w call).store = policyEffect sameJson w.store call := by
  cases call with
  | save policy => exact perform_savePolicy hpermits w policy
  | activate version => exact perform_activate hpermits w version
  | delete version => exact perform_delete w version
  | clear => exact perform_clear w

include hpermits in
theorem runPolicyCalls_store (calls : List (PolicyCall fold)) :
    (runPolicyCalls sameJson draws py (some binding) w calls).store =
      calls.foldl (policyEffect sameJson) w.store := by
  unfold runPolicyCalls
  induction calls generalizing w with
  | nil => rfl
  | cons call calls ih => rw [List.foldl_cons, List.foldl_cons, ih, performPolicy_store hpermits]

end Effect

end TexGovernance.Stores
