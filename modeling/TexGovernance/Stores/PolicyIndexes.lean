import TexGovernance.Stores.PolicyStore

/-!
# The three indexes of the policy store

What the version list, the snapshots and the lists of the families say of one another after
any run of writes with no governor bound, and which version is active after an activation.
-/

namespace TexGovernance.Stores
open PyStr PyDict CaseFold Actions Domain Selfgov

variable {fold : CaseFolding}

namespace PolicyStore

variable (store : PolicyStore fold)

def ofFamily (policyId version : Str) : Bool :=
  (store.get version).any fun policy => policy.policyId.text = policyId

def family (policyId : Str) : List Str := (store.versionsByPolicyId.get? policyId).getD []

structure Indexed : Prop where
  nodup : store.orderedVersions.Nodup
  perm : store.orderedVersions.Perm store.byVersion.keys
  family : ∀ policyId, store.family policyId = store.orderedVersions.filter (store.ofFamily policyId)
  nonempty : ∀ policyId, store.versionsByPolicyId.get? policyId ≠ some []
  keyed : ∀ version policy, store.get version = some policy → policy.version.text = version

theorem get?_unfile (families : Dict Str (List Str)) (version policyId k : Str) :
    (unfile families version policyId).get? k =
      if k = policyId then
        (some (without version ((families.get? policyId).getD []))).filter (· ≠ [])
      else families.get? k := by
  unfold unfile
  simp only
  by_cases hempty : without version ((families.get? policyId).getD []) = []
  · rw [if_pos hempty, Dict.get?_pop, hempty]
    rfl
  · have hkept : decide (without version ((families.get? policyId).getD []) ≠ []) = true :=
      decide_eq_true hempty
    rw [if_neg hempty, Dict.get?_set, Option.filter_some, if_pos hkept]

theorem without_filter (version : Str) (p : Str → Bool) (versions : List Str) :
    without version (versions.filter p) = (without version versions).filter p := List.filter_comm ..

theorem without_of_not_mem {version : Str} {versions : List Str} (h : version ∉ versions) :
    without version versions = versions := by
  refine List.filter_eq_self.mpr fun stored hmem => decide_eq_true fun heq => ?_
  exact h (heq ▸ hmem)

variable {store}

theorem unlisted_family (h : store.Indexed) (version k : Str) :
    ((store.unlisted version).2.get? k).getD [] =
      (without version store.orderedVersions).filter (store.ofFamily k) := by
  have hfamily := h.family k
  unfold family at hfamily
  unfold unlisted
  cases hget : store.get version with
  | none =>
    have hnot : version ∉ store.orderedVersions := fun hmem => (store.listed version).mp hmem hget
    rw [without_of_not_mem hnot]
    exact hfamily
  | some existing =>
    simp only
    rw [get?_unfile, ← without_filter, ← hfamily]
    by_cases hk : k = existing.policyId.text
    · rw [if_pos hk, ← hk, Option.filter_some]
      by_cases hempty : without version ((store.versionsByPolicyId.get? k).getD []) = []
      · rw [hempty]
        rfl
      · rw [if_pos (decide_eq_true hempty)]
        rfl
    · -- the list of another family never had the version
      have hnot : version ∉ (store.versionsByPolicyId.get? k).getD [] := by
        rw [hfamily, List.mem_filter, ofFamily, hget]
        exact fun hmem => hk (of_decide_eq_true hmem.2).symm
      rw [if_neg hk, without_of_not_mem hnot]

theorem unlisted_nonempty (h : store.Indexed) (version k : Str) :
    (store.unlisted version).2.get? k ≠ some [] := by
  unfold unlisted
  cases store.get version with
  | none => exact h.nonempty k
  | some existing =>
    simp only
    rw [get?_unfile]
    split
    · rw [Option.filter_some]
      split
      · rename_i hne
        exact fun heq => of_decide_eq_true hne (Option.some.inj heq)
      · exact nofun
    · exact h.nonempty k

theorem perm_keys (store : PolicyStore fold) : store.orderedVersions.Perm store.byVersion.keys := by
  refine (List.perm_ext_iff_of_nodup store.nodup store.byVersion.nodup).mpr fun version => ?_
  rw [store.listed, ne_eq, Dict.get?_eq_none_iff, not_not]
  rfl

theorem indexed_fresh : (fresh : PolicyStore fold).Indexed :=
  ⟨fresh.nodup, fresh.perm_keys, fun _ => rfl, fun _ => nofun, fresh.filed⟩

theorem Indexed.put (h : store.Indexed) (policy : PolicySnapshot fold) : (store.put policy).Indexed := by
  have hget : ∀ version, (store.put policy).get version =
      if version = policy.version.text then some policy else store.get version :=
    fun version => Dict.get?_set ..
  have hversions : (store.put policy).orderedVersions =
      without policy.version.text store.orderedVersions ++ [policy.version.text] :=
    congrArg (· ++ [policy.version.text]) (store.unlisted_versions _)
  have hfamilies : ∀ k, (store.put policy).versionsByPolicyId.get? k =
      if k = policy.policyId.text then
        some (((store.unlisted policy.version.text).2.get? policy.policyId.text).getD [] ++
          [policy.version.text])
      else (store.unlisted policy.version.text).2.get? k :=
    fun k => Dict.get?_set ..
  refine ⟨(store.put policy).nodup, (store.put policy).perm_keys, fun k => ?_, fun k => ?_,
    (store.put policy).filed⟩
  · have hkept : (without policy.version.text store.orderedVersions).filter
          ((store.put policy).ofFamily k) =
        (without policy.version.text store.orderedVersions).filter (store.ofFamily k) := by
      refine List.filter_congr fun version hmem => ?_
      unfold ofFamily
      rw [hget, if_neg (mem_without.mp hmem).2]
    have hnew : (store.put policy).ofFamily k policy.version.text =
        decide (policy.policyId.text = k) := by
      unfold ofFamily
      rw [hget, if_pos rfl]
      rfl
    rw [hversions, List.filter_append, hkept, ← unlisted_family h, List.filter_singleton, hnew]
    unfold PolicyStore.family
    rw [hfamilies]
    by_cases hk : k = policy.policyId.text
    · rw [if_pos hk, ← hk]
      simp
    · rw [if_neg hk]
      simp [Ne.symm hk]
  · rw [hfamilies]
    split
    · simp
    · exact unlisted_nonempty h _ k

theorem Indexed.flagged (h : store.Indexed) (version : Str) : (store.flagged version).Indexed := by
  refine ⟨(store.flagged version).nodup, (store.flagged version).perm_keys, fun k => ?_, h.nonempty,
    (store.flagged version).filed⟩
  have hsame : (store.flagged version).ofFamily k = store.ofFamily k := by
    funext stored
    unfold ofFamily
    have hget : (store.flagged version).get stored = _ := store.get?_flags version stored
    rw [hget, Option.any_map]
  rw [hsame]
  exact h.family k

theorem Indexed.remove (h : store.Indexed) (version : Str) : (store.remove version).Indexed := by
  refine ⟨(store.remove version).nodup, (store.remove version).perm_keys, fun k => ?_,
    unlisted_nonempty h version, (store.remove version).filed⟩
  have hversions : (store.remove version).orderedVersions = without version store.orderedVersions :=
    store.unlisted_versions version
  rw [hversions]
  refine (unlisted_family h version k).trans (List.filter_congr fun stored hmem => ?_)
  have hget : (store.remove version).get stored = _ := Dict.get?_pop ..
  unfold ofFamily
  rw [hget, if_neg (mem_without.mp hmem).2]
  rfl

end PolicyStore

section Unbound

variable (sameJson : SameJson) (draws : Draws) (py : Interpreter)

def raised {α : Type} (r : EStateM.Result PyErr (World (PolicyStore fold)) α) : Option PyErr :=
  match r with
  | .ok _ _ => none
  | .error e _ => some e

/-- What a call raises in a state, if it does. -/
def raises (w : World (PolicyStore fold)) : PolicyCall fold → Option PyErr
  | .save policy => raised (savePolicy sameJson draws py none policy w)
  | .activate version => raised (activate draws py none version w)
  | .delete version => raised (delete draws py none version w)
  | .clear => raised (clear draws py none w)

def activated (w : World (PolicyStore fold)) (last : Option Str) : PolicyCall fold → Option Str
  | .save _ => none
  | .activate version => if raises sameJson draws py w (.activate version) = none then some version else last
  | .delete _ => last
  | .clear => last

def track (state : World (PolicyStore fold) × Option Str) (call : PolicyCall fold) :
    World (PolicyStore fold) × Option Str :=
  (performPolicy sameJson draws py none state.1 call, activated sameJson draws py state.1 state.2 call)

/-- Of the stored versions only that of the activation has the flag. -/
def ActiveIs (store : PolicyStore fold) (last : Option Str) : Prop :=
  ∀ version ∈ last, ∀ k policy, store.get k = some policy → (policy.isActive = true ↔ k = version)

theorem deleteIf_missing {w : World (PolicyStore fold)} {version : Str} (hget : w.store.get version = none) :
    deleteIf version true w = .error .other w := by
  unfold deleteIf
  simp only [Bool.true_eq_false, if_false]
  rw [bind_ok (show (get : EStateM PyErr _ _) w = .ok w w from rfl), hget]
  rfl

theorem deleteIf_stored {w : World (PolicyStore fold)} {version : Str} {target : PolicySnapshot fold}
    (hget : w.store.get version = some target) :
    deleteIf version true w = .ok () { w with store := w.store.remove version } := by
  unfold deleteIf
  simp only [Bool.true_eq_false, if_false]
  rw [bind_ok (show (get : EStateM PyErr _ _) w = .ok w w from rfl), hget]
  rfl

theorem performPolicy_unbound (w : World (PolicyStore fold)) (call : PolicyCall fold) :
    (raises sameJson draws py w call ≠ none → performPolicy sameJson draws py none w call = w) ∧
    (raises sameJson draws py w call = none → (performPolicy sameJson draws py none w call).store =
      match call with
      | .save policy => w.store.put policy
      | .activate version => w.store.flagged version
      | .delete version => w.store.remove version
      | .clear => .fresh) := by
  have hgate : ∀ describe, gated draws py none describe w = .ok true w := fun _ => rfl
  cases call with
  | save policy =>
    have hrun : savePolicy sameJson draws py none policy w = .ok () { w with store := w.store.put policy } :=
      bind_ok (hgate _) _
    simp [raises, performPolicy, raised, after, hrun]
  | activate version =>
    have hrun : activate draws py none version w = activateIf version true w := bind_ok (hgate _) _
    simp only [raises, performPolicy, raised, after, hrun, activateIf]
    cases w.store.get version with
    | none => simp
    | some target => simp
  | delete version =>
    have hrun : delete draws py none version w = deleteIf version true w := bind_ok (hgate _) _
    cases hget : w.store.get version with
    | none =>
      rw [deleteIf_missing hget] at hrun
      simp [raises, performPolicy, raised, after, hrun]
    | some target =>
      rw [deleteIf_stored hget] at hrun
      simp [raises, performPolicy, raised, after, hrun]
  | clear =>
    have hrun : clear draws py none w = .ok () { w with store := .fresh } := bind_ok (hgate _) _
    simp [raises, performPolicy, raised, after, hrun]

theorem track_step {state : World (PolicyStore fold) × Option Str} (call : PolicyCall fold)
    (h : state.1.store.Indexed) (hactive : ActiveIs state.1.store state.2) :
    (track sameJson draws py state call).1.store.Indexed ∧
      ActiveIs (track sameJson draws py state call).1.store (track sameJson draws py state call).2 := by
  obtain ⟨w, last⟩ := state
  obtain ⟨hraises, hdone⟩ := performPolicy_unbound sameJson draws py w call
  unfold track
  simp only
  by_cases hraise : raises sameJson draws py w call = none
  · rw [hdone hraise]
    cases call with
    | save policy => exact ⟨h.put policy, fun _ hlast => absurd hlast nofun⟩
    | activate version =>
      refine ⟨h.flagged version, fun active hlast k policy hget => ?_⟩
      rw [activated, if_pos hraise, Option.mem_some_iff] at hlast
      subst hlast
      have hflag : (w.store.flagged version).get k = _ := w.store.get?_flags version k
      obtain ⟨stored, -, rfl⟩ := Option.map_eq_some_iff.mp (hflag.symm.trans hget)
      exact decide_eq_true_iff
    | delete version =>
      refine ⟨h.remove version, fun active hlast k policy hget => ?_⟩
      have hpop : (w.store.remove version).get k = _ := Dict.get?_pop ..
      have hkept : (if k = version then none else w.store.byVersion.get? k) = some policy :=
        hpop.symm.trans hget
      split at hkept
      · cases hkept
      · exact hactive active hlast k policy hkept
    | clear => exact ⟨PolicyStore.indexed_fresh, fun _ _ _ _ hget => absurd hget nofun⟩
  · rw [hraises hraise]
    refine ⟨h, ?_⟩
    cases call with
    | save policy => exact fun _ hlast => absurd hlast nofun
    | activate version =>
      rw [activated, if_neg hraise]
      exact hactive
    | delete version => exact hactive
    | clear => exact hactive

theorem track_run (state : World (PolicyStore fold) × Option Str) (calls : List (PolicyCall fold))
    (h : state.1.store.Indexed) (hactive : ActiveIs state.1.store state.2) :
    (calls.foldl (track sameJson draws py) state).1.store.Indexed ∧
      ActiveIs (calls.foldl (track sameJson draws py) state).1.store
        (calls.foldl (track sameJson draws py) state).2 := by
  induction calls generalizing state with
  | nil => exact ⟨h, hactive⟩
  | cons call calls ih =>
    obtain ⟨hnext, hactiveNext⟩ := track_step sameJson draws py call h hactive
    exact ih _ hnext hactiveNext

theorem track_fst (state : World (PolicyStore fold) × Option Str) (calls : List (PolicyCall fold)) :
    (calls.foldl (track sameJson draws py) state).1 =
      runPolicyCalls sameJson draws py none state.1 calls := by
  induction calls generalizing state with
  | nil => rfl
  | cons call calls ih => exact ih _

/-- After every run on a new store the indexes say the same, a call that raises
then changes nothing, and from a successful activation on until a save the
version that it named is the active one of those stored. -/
theorem policy_indexes_agree (log : GateLog) (calls : List (PolicyCall fold)) :
    (runPolicyCalls sameJson draws py none ⟨.fresh, log⟩ calls).store.Indexed ∧
    (∀ call, raises sameJson draws py (runPolicyCalls sameJson draws py none ⟨.fresh, log⟩ calls) call ≠ none →
      performPolicy sameJson draws py none (runPolicyCalls sameJson draws py none ⟨.fresh, log⟩ calls) call =
        runPolicyCalls sameJson draws py none ⟨.fresh, log⟩ calls) ∧
    ActiveIs (runPolicyCalls sameJson draws py none ⟨.fresh, log⟩ calls).store
      (calls.foldl (track sameJson draws py) (⟨.fresh, log⟩, none)).2 := by
  obtain ⟨hindexed, hactive⟩ := track_run sameJson draws py (⟨.fresh, log⟩, none) calls
    PolicyStore.indexed_fresh fun _ hlast => absurd hlast nofun
  rw [track_fst] at hindexed hactive
  exact ⟨hindexed, fun call => (performPolicy_unbound sameJson draws py _ call).1, hactive⟩

end Unbound

end TexGovernance.Stores
