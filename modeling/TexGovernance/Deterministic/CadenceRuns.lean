import TexGovernance.Deterministic.Cadence

/-!
# Runs of the cadence tracker

A request is counted when it is assessed first.
-/

namespace TexGovernance.Deterministic
open PyStr PyDict SlidingWindow
open Engine (Uuid CadenceLevel)

def firsts (requests : List EvaluationRequest) : List EvaluationRequest :=
  requests.reverse.dedup.reverse

theorem mem_firsts {requests : List EvaluationRequest} {r : EvaluationRequest} :
    r ∈ firsts requests ↔ r ∈ requests := by
  unfold firsts
  rw [List.mem_reverse, List.mem_dedup, List.mem_reverse]

theorem firsts_snoc_of_mem {pre : List EvaluationRequest} {r : EvaluationRequest} (h : r ∈ pre) :
    firsts (pre ++ [r]) = firsts pre := by
  unfold firsts
  rw [List.reverse_append, List.reverse_singleton, List.singleton_append,
    List.dedup_cons_of_mem (List.mem_reverse.mpr h)]

theorem firsts_snoc_of_notMem {pre : List EvaluationRequest} {r : EvaluationRequest} (h : r ∉ pre) :
    firsts (pre ++ [r]) = firsts pre ++ [r] := by
  unfold firsts
  rw [List.reverse_append, List.reverse_singleton, List.singleton_append,
    List.dedup_cons_of_notMem fun hr => h (List.mem_reverse.mp hr), List.reverse_cons]

def actionsOf (c : CadenceConfig) (key : Str) (requests : List EvaluationRequest) :
    List EvaluationRequest :=
  (firsts requests).filter fun r => trackedKey c r = some key

section Actions

variable {c : CadenceConfig} {key : Str} {pre : List EvaluationRequest} {r : EvaluationRequest}

theorem mem_actionsOf {requests : List EvaluationRequest} :
    r ∈ actionsOf c key requests ↔ r ∈ requests ∧ trackedKey c r = some key := by
  unfold actionsOf
  rw [List.mem_filter, mem_firsts, decide_eq_true_iff]

theorem actionsOf_snoc_new (hr : r ∉ pre) (hkey : trackedKey c r = some key) :
    actionsOf c key (pre ++ [r]) = actionsOf c key pre ++ [r] := by
  unfold actionsOf
  rw [firsts_snoc_of_notMem hr, List.filter_append, List.filter_singleton, hkey, decide_eq_true rfl]
  rfl

theorem actionsOf_snoc_other (hkey : r ∈ pre ∨ trackedKey c r ≠ some key) :
    actionsOf c key (pre ++ [r]) = actionsOf c key pre := by
  unfold actionsOf
  by_cases hr : r ∈ pre
  · rw [firsts_snoc_of_mem hr]
  · rw [firsts_snoc_of_notMem hr, List.filter_append, List.filter_singleton,
      decide_eq_false (hkey.resolve_left hr)]
    exact List.append_nil _

end Actions

section Tracker

variable (casefold : Str → Str) (formatG : ℚ → Str)

def entryOf (r : EvaluationRequest) : WindowEntry :=
  ⟨r.requestedAt, r.requestId.text, deriveTargets casefold r⟩

def windowOf (c : CadenceConfig) (key : Str) (requests : List EvaluationRequest) :
    List WindowEntry :=
  window WindowEntry.ts (· - c.windowSeconds) ((actionsOf c key requests).map (entryOf casefold))

/-- The requests before the first assessment of `r`. -/
def before (r : EvaluationRequest) (requests : List EvaluationRequest) : List EvaluationRequest :=
  requests.takeWhile (· ≠ r)

def firstAssessment (c : CadenceConfig) (key : Str) (r : EvaluationRequest)
    (requests : List EvaluationRequest) : CadenceAssessment :=
  ActionCadenceTracker.assessWindow formatG c key (windowOf casefold c key (before r requests ++ [r]))

structure Served (c : CadenceConfig) (requests : List EvaluationRequest) : Prop where
  distinct_ids : ∀ r ∈ requests, ∀ r' ∈ requests, r.requestId = r'.requestId → r = r'
  few_keys : (requests.filterMap (trackedKey c)).toFinset.card ≤ c.maxTrackedKeys
  room : ∀ pre, pre <+: requests → ∀ key window,
    ((ActionCadenceTracker.new c).after casefold formatG pre).windows.get? key = some window →
      window.length < c.maxWindowEntries
  remembered : ∀ pre r, pre ++ [r] <+: requests → r ∈ pre → trackedKey c r ≠ none →
    ((ActionCadenceTracker.new c).after casefold formatG pre).memo.get? r.requestId.text ≠ none

structure TrackerInv (c : CadenceConfig) (requests : List EvaluationRequest)
    (t : ActionCadenceTracker) : Prop where
  config : t.config = c
  windows : ∀ key, t.windows.get? key =
    if actionsOf c key requests = [] then none else some (windowOf casefold c key requests)
  memo : ∀ id a, t.memo.get? id = some a → ∃ r ∈ requests, r.requestId.text = id ∧
    ∃ key, trackedKey c r = some key ∧ a = firstAssessment casefold formatG c key r requests

variable {casefold formatG} {c : CadenceConfig} {requests pre : List EvaluationRequest}
variable {r : EvaluationRequest} {key : Str} {t : ActionCadenceTracker}

theorem Served.initial (h : Served casefold formatG c requests) (hpre : pre <+: requests) :
    Served casefold formatG c pre where
  distinct_ids := fun r hr r' hr' => h.distinct_ids r (hpre.subset hr) r' (hpre.subset hr')
  few_keys := by
    refine (Finset.card_le_card ?_).trans h.few_keys
    intro k hk
    rw [List.mem_toFinset] at hk ⊢
    exact (hpre.filterMap _).subset hk
  room := fun p hp => h.room p (hp.trans hpre)
  remembered := fun p r hp => h.remembered p r (hp.trans hpre)

theorem before_split {later : List EvaluationRequest} (hr : r ∉ pre) :
    before r (pre ++ r :: later) = pre := by
  unfold before
  rw [List.takeWhile_append_of_pos]
  · simp
  · intro q hq
    rw [decide_eq_true_iff]
    rintro rfl
    exact hr hq

theorem before_append (hr : r ∈ pre) (later : List EvaluationRequest) :
    before r (pre ++ later) = before r pre := by
  obtain ⟨a, b, rfl, ha⟩ := List.eq_append_cons_of_mem hr
  rw [List.append_assoc, List.cons_append, before_split ha, before_split ha]

namespace ActionCadenceTracker

theorem evict_of_le {ν : Type} {cap : ℕ} {d : Dict Str ν} (h : d.items.length ≤ cap) :
    evict cap d = d := by
  unfold evict
  rw [Nat.sub_eq_zero_of_le h]
  rfl

theorem get?_of_get?_evict {ν : Type} {cap : ℕ} {d : Dict Str ν} {k : Str} {v : ν}
    (h : (evict cap d).get? k = some v) : d.get? k = some v := by
  unfold evict at h
  generalize d.items.length - cap = n at h
  induction n generalizing d with
  | zero => exact h
  | succ n ih =>
    rw [Function.iterate_succ_apply] at h
    exact Dict.get?_of_get?_popFirst (ih h)

end ActionCadenceTracker

open ActionCadenceTracker

theorem uuid_ext {a b : Uuid} (h : a.text = b.text) : a = b := by
  cases a
  cases b
  simp only at h
  simp only [h]

theorem entry_of_mem_windowOf {e : WindowEntry} (he : e ∈ windowOf casefold c key pre) :
    ∃ q ∈ pre, e = entryOf casefold q := by
  have hmem := (window_suffix _ _ _).subset he
  obtain ⟨q, hq, rfl⟩ := List.mem_map.mp hmem
  exact ⟨q, (mem_actionsOf.mp hq).1, rfl⟩

theorem windowOf_snoc_new (hr : r ∉ pre) (hkey : trackedKey c r = some key) :
    windowOf casefold c key (pre ++ [r]) =
      push WindowEntry.ts (· - c.windowSeconds) (windowOf casefold c key pre) (entryOf casefold r) := by
  unfold windowOf
  rw [actionsOf_snoc_new hr hkey, List.map_append, List.map_singleton, window_snoc]

theorem insertAction_eq (hr : ∀ q ∈ pre, q.requestId ≠ r.requestId)
    (hkey : trackedKey c r = some key)
    (hroom : (insertAction casefold c r (windowOf casefold c key pre)).length < c.maxWindowEntries) :
    insertAction casefold c r (windowOf casefold c key pre) = windowOf casefold c key (pre ++ [r]) := by
  have hnew : r ∉ pre := fun hmem => hr r hmem rfl
  have hnone : ((windowOf casefold c key pre).dropWhile fun entry =>
      entry.ts ≤ r.requestedAt - c.windowSeconds).any (·.requestId = r.requestId.text) = false := by
    rw [List.any_eq_false]
    intro e he
    obtain ⟨q, hq, rfl⟩ := entry_of_mem_windowOf ((List.dropWhile_sublist _).subset he)
    intro hid
    rw [decide_eq_true_iff] at hid
    exact hr q hq (uuid_ext hid)
  unfold insertAction at hroom ⊢
  simp only [hnone, Bool.false_eq_true, if_false] at hroom ⊢
  rw [List.length_drop] at hroom
  rw [Nat.sub_eq_zero_of_le (by omega), List.drop_zero, windowOf_snoc_new hnew hkey]
  rfl

theorem TrackerInv.keep (h : TrackerInv casefold formatG c pre t)
    (hold : r ∈ pre ∨ trackedKey c r = none) {t' : ActionCadenceTracker}
    (hconfig : t'.config = t.config) (hwindows : t'.windows = t.windows)
    (hmemo : ∀ id, t'.memo.get? id = t.memo.get? id) :
    TrackerInv casefold formatG c (pre ++ [r]) t' := by
  have hactions : ∀ key, actionsOf c key (pre ++ [r]) = actionsOf c key pre := by
    intro key
    refine actionsOf_snoc_other (hold.imp_right fun hnone => ?_)
    rw [hnone]
    exact fun heq => (by cases heq)
  refine ⟨hconfig.trans h.config, fun key => ?_, fun id a ha => ?_⟩
  · rw [hwindows, h.windows key]
    unfold windowOf
    rw [hactions key]
  · rw [hmemo id] at ha
    obtain ⟨q, hq, hid, key, hkey, rfl⟩ := h.memo id a ha
    refine ⟨q, List.mem_append_left _ hq, hid, key, hkey, ?_⟩
    unfold firstAssessment
    rw [before_append hq]

theorem length_le_keys {ν : Type} {d : Dict Str ν}
    (h : ∀ key, d.get? key ≠ none → ∃ q ∈ requests, trackedKey c q = some key) :
    d.items.length ≤ (requests.filterMap (trackedKey c)).toFinset.card := by
  have hsub : d.keys.toFinset ⊆ (requests.filterMap (trackedKey c)).toFinset := by
    intro key hkey
    rw [List.mem_toFinset] at hkey ⊢
    obtain ⟨q, hq, hqkey⟩ := h key fun hnone => (Dict.get?_eq_none_iff _ key).mp hnone hkey
    exact List.mem_filterMap.mpr ⟨q, hq, hqkey⟩
  have hcard : d.keys.toFinset.card = d.keys.length := List.toFinset_card_of_nodup d.nodup
  have hlen : d.keys.length = d.items.length := List.length_map _
  have hle := Finset.card_le_card hsub
  omega

theorem TrackerInv.action_of_window (h : TrackerInv casefold formatG c pre t)
    (hget : t.windows.get? key ≠ none) : ∃ q ∈ pre, trackedKey c q = some key := by
  rw [h.windows key] at hget
  obtain ⟨q, hq⟩ := List.exists_mem_of_ne_nil (actionsOf c key pre) fun hnil => hget (if_pos hnil)
  exact ⟨q, mem_actionsOf.mp hq⟩

theorem TrackerInv.window_getD (h : TrackerInv casefold formatG c pre t) (key : Str) :
    (t.windows.get? key).getD [] = windowOf casefold c key pre := by
  rw [h.windows key]
  split
  · next hnil =>
    unfold windowOf
    rw [hnil]
    rfl
  · rfl

theorem TrackerInv.observe (h : TrackerInv casefold formatG c pre t)
    (hids : ∀ q ∈ pre, q.requestId ≠ r.requestId) (hkey : trackedKey c r = some key)
    (hkeys : ((pre ++ [r]).filterMap (trackedKey c)).toFinset.card ≤ c.maxTrackedKeys)
    (hroom : ∀ window, (t.observe casefold formatG key r).2.windows.get? key = some window →
      window.length < c.maxWindowEntries) :
    (t.observe casefold formatG key r).1 =
        assessWindow formatG c key (windowOf casefold c key (pre ++ [r])) ∧
      TrackerInv casefold formatG c (pre ++ [r]) (t.observe casefold formatG key r).2 := by
  have hnew : r ∉ pre := fun hmem => hids r hmem rfl
  set inserted := insertAction casefold c r (windowOf casefold c key pre) with hinserted
  have hobserve : t.observe casefold formatG key r =
      (assessWindow formatG c key inserted,
        ⟨c, evict c.maxTrackedKeys ((t.windows.set key inserted).moveToEnd key),
          evict c.maxMemoEntries ((t.memo.set r.requestId.text
            (assessWindow formatG c key inserted)).moveToEnd r.requestId.text)⟩) := by
    unfold ActionCadenceTracker.observe
    rw [h.window_getD key, h.config]
  have hevict : evict c.maxTrackedKeys ((t.windows.set key inserted).moveToEnd key) =
      (t.windows.set key inserted).moveToEnd key := by
    refine evict_of_le ((length_le_keys fun k hk => ?_).trans hkeys)
    rw [Dict.get?_moveToEnd, Dict.get?_set] at hk
    split at hk
    · next hk' =>
      subst hk'
      exact ⟨r, by simp, hkey⟩
    · obtain ⟨q, hq, hqkey⟩ := h.action_of_window hk
      exact ⟨q, List.mem_append_left _ hq, hqkey⟩
  rw [hobserve, hevict] at hroom ⊢
  have hwindow : inserted = windowOf casefold c key (pre ++ [r]) :=
    insertAction_eq hids hkey (hroom inserted (by rw [Dict.get?_moveToEnd, Dict.get?_set, if_pos rfl]))
  refine ⟨by rw [hwindow], rfl, fun k => ?_, fun id a ha => ?_⟩
  · rw [Dict.get?_moveToEnd, Dict.get?_set]
    by_cases hk : k = key
    · subst hk
      rw [if_pos rfl, hwindow, actionsOf_snoc_new hnew hkey,
        if_neg (List.append_ne_nil_of_right_ne_nil _ (List.cons_ne_nil _ _))]
    · have hother : trackedKey c r ≠ some k := fun heq => hk (Option.some.inj (heq.symm.trans hkey))
      rw [if_neg hk, h.windows k]
      unfold windowOf
      rw [actionsOf_snoc_other (.inr hother)]
  · have ha := get?_of_get?_evict ha
    rw [Dict.get?_moveToEnd, Dict.get?_set] at ha
    split at ha
    · next hid =>
      refine ⟨r, by simp, hid.symm, key, hkey, ?_⟩
      unfold firstAssessment
      rw [before_split hnew, ← hwindow]
      exact (Option.some.inj ha).symm
    · obtain ⟨q, hq, hid, k, hqkey, rfl⟩ := h.memo id a ha
      refine ⟨q, List.mem_append_left _ hq, hid, k, hqkey, ?_⟩
      unfold firstAssessment
      rw [before_append hq]

end Tracker

end TexGovernance.Deterministic
