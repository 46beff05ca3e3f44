import TexGovernance.Forbid.LocalSource

/-!
# Retention, versions and scopes of the local source

An insertion replaces what is stored under its key, whatever lifetime that had, and a read
compares tenants as they are spelled.
-/

namespace TexGovernance.Forbid.Local
open PyStr CaseFold PyDict

variable {T : Type}

section Cap

variable (p : LocalConfig T)

theorem get?_of_get?_evict {turns : ℕ} {entries : Dict LocalKey (LocalForbidEntry T)} {k : LocalKey}
    {e : LocalForbidEntry T} (h : (evict p turns entries).get? k = some e) : entries.get? k = some e := by
  induction turns generalizing entries with
  | zero => exact h
  | succ turns ih =>
    unfold evict at h
    split at h
    · exact h
    · split at h
      · exact h
      · have hpopped := ih h
        rw [Dict.get?_pop] at hpopped
        split at hpopped
        · cases hpopped
        · exact hpopped

theorem ttl_of_evicted {turns : ℕ} {entries : Dict LocalKey (LocalForbidEntry T)} {k : LocalKey}
    {e : LocalForbidEntry T} (hstored : entries.get? k = some e) (hgone : (evict p turns entries).get? k = none) :
    e.ttlSeconds ≠ none ∧ p.maxEntries < entries.items.length := by
  induction turns generalizing entries with
  | zero => exact absurd (hstored.symm.trans hgone) nofun
  | succ turns ih =>
    unfold evict at hgone
    split at hgone
    · exact absurd (hstored.symm.trans hgone) nofun
    · next hover =>
      split at hgone
      · exact absurd (hstored.symm.trans hgone) nofun
      · next item hitem =>
        have hmem := List.mem_of_find?_eq_some hitem
        by_cases hk : k = item.1
        · have hsame : entries.get? item.1 = some item.2 := (Dict.get?_eq_some_iff _ _ _).mpr hmem
          rw [hk, hsame] at hstored
          have hmortal := List.find?_some hitem
          rw [← Option.some.inj hstored]
          exact ⟨Option.isSome_iff_ne_none.mp hmortal, by omega⟩
        · have hpopped : (entries.pop item.1).get? k = some e := by
            rw [Dict.get?_pop, if_neg hk]
            exact hstored
          obtain ⟨httl, hlonger⟩ := ih hpopped hgone
          have hshorter : (entries.pop item.1).items.length < entries.items.length :=
            Dict.length_pop_lt (List.mem_map_of_mem hmem)
          exact ⟨httl, by omega⟩

end Cap

theorem get?_upsert (s : LocalForbidSource T) (e : LocalForbidEntry T) (k : LocalKey) :
    (upsert s e).entries.get? k = if k = e.key then some e else s.entries.get? k := by
  unfold upsert
  simp only [Dict.get?_set, Dict.get?_pop]
  split
  · rfl
  · rfl

theorem get?_revoke (s : LocalForbidSource T) (r : RevokeArgs) (k : LocalKey) :
    (revoke r s).2.entries.get? k = if k = r.key then none else s.entries.get? k := by
  unfold revoke
  cases hget : s.entries.get? r.key with
  | none =>
    by_cases hk : k = r.key
    · rw [if_pos hk, hk]
      exact hget
    · rw [if_neg hk]
  | some e => exact Dict.get?_pop _ _ _

structure Advances (s s' : LocalForbidSource T) : Prop where
  le : s.epoch ≤ s'.epoch
  same : s.epoch = s'.epoch → s'.entries.items = s.entries.items

theorem Advances.trans {s s' s'' : LocalForbidSource T} (h : Advances s s') (h' : Advances s' s'') :
    Advances s s'' where
  le := h.le.trans h'.le
  same heq := by
    have hfirst : s.epoch = s'.epoch := le_antisymm h.le (heq ▸ h'.le)
    rw [h'.same (hfirst.symm.trans heq), h.same hfirst]

section Step

variable [Sub T] [LE T] [DecidableLE T] {p : LocalConfig T} {s : LocalForbidSource T}

def LocalOp.stored (p : LocalConfig T) (s : LocalForbidSource T) : LocalOp T → Option (LocalForbidEntry T)
  | .add a => entryOfArgs p (p.clock s.clockReads) a
  | _ => none

def LocalOp.Revokes (k : LocalKey) : LocalOp T → Prop
  | .revoke r => r.key = k
  | _ => False

theorem apply_add {a : AddArgs T} {e : LocalForbidEntry T}
    (h : entryOfArgs p (p.clock s.clockReads) a = some e) : LocalOp.apply p s (.add a) =
      enforceCap p (upsert { s with clockReads := s.clockReads + 1 } e) := by
  change (add p a s).2 = _
  unfold add
  rw [h]

theorem apply_refused {a : AddArgs T} (h : entryOfArgs p (p.clock s.clockReads) a = none) :
    LocalOp.apply p s (.add a) = s := by
  change (add p a s).2 = s
  unfold add
  rw [h]

theorem mem_refreshed (k : LocalKey) (e : LocalForbidEntry T) : (k, e) ∈ (refreshed p s).entries.items ↔
    (k, e) ∈ s.entries.items ∧ e.expired (p.clock s.clockReads) = false := by
  unfold refreshed
  simp only
  rw [Dict.items_foldl_pop, List.mem_filter, decide_eq_true_eq]
  refine and_congr_right fun hmem => ?_
  constructor
  · intro hlive
    by_contra hdead
    exact hlive (List.mem_map.mpr
      ⟨(k, e), List.mem_filter.mpr ⟨hmem, eq_true_of_ne_false hdead⟩, rfl⟩)
  · intro hlive hdead
    obtain ⟨item, hitem, hkey⟩ := List.mem_map.mp hdead
    obtain ⟨hstored, hexpired⟩ := List.mem_filter.mp hitem
    have hsame : item.2 = e := by
      have hget := (Dict.get?_eq_some_iff s.entries item.1 item.2).mpr hstored
      rw [show item.1 = k from hkey] at hget
      exact Option.some.inj (hget.symm.trans ((Dict.get?_eq_some_iff s.entries k e).mpr hmem))
    rw [hsame, hlive] at hexpired
    exact absurd hexpired Bool.false_ne_true

theorem get?_refreshed (k : LocalKey) (e : LocalForbidEntry T) : (refreshed p s).entries.get? k = some e ↔
    s.entries.get? k = some e ∧ e.expired (p.clock s.clockReads) = false := by
  rw [Dict.get?_eq_some_iff, Dict.get?_eq_some_iff, mem_refreshed]

theorem refreshed_items : (refreshed p s).entries.items =
    s.entries.items.filter fun item => !item.2.expired (p.clock s.clockReads) := by
  unfold refreshed
  simp only
  rw [Dict.items_foldl_pop]
  refine List.filter_congr fun item hitem => ?_
  have hmem := @mem_refreshed _ _ _ _ p s item.1 item.2
  unfold refreshed at hmem
  simp only at hmem
  rw [Dict.items_foldl_pop, List.mem_filter, and_iff_right hitem, and_iff_right hitem] at hmem
  cases hexpired : item.2.expired (p.clock s.clockReads) with
  | true => simpa [hexpired] using hmem
  | false => simpa [hexpired] using hmem

theorem ttl_of_expired {e : LocalForbidEntry T} {now : T} (h : e.expired now = true) : e.ttlSeconds ≠ none := by
  intro hnone
  simp [LocalForbidEntry.expired, hnone] at h

theorem get?_apply {op : LocalOp T} {k : LocalKey} {e : LocalForbidEntry T}
    (h : (op.apply p s).entries.get? k = some e) :
    (∃ e' ∈ op.stored p s, e'.key = k ∧ e = e') ∨
      s.entries.get? k = some e ∧ ∀ e' ∈ op.stored p s, e'.key ≠ k := by
  cases op with
  | revoke r =>
    change (revoke r s).2.entries.get? k = some e at h
    rw [get?_revoke] at h
    split at h
    · cases h
    · refine .inr ⟨h, fun e' hstored => ?_⟩
      cases hstored
  | read tenant =>
    refine .inr ⟨((get?_refreshed k e).mp h).1, fun e' hstored => ?_⟩
    cases hstored
  | add a =>
    cases he : entryOfArgs p (p.clock s.clockReads) a with
    | none =>
      rw [apply_refused he] at h
      refine .inr ⟨h, fun e' he' => ?_⟩
      cases he.symm.trans he'
    | some e' =>
      rw [apply_add he] at h
      have hupserted := get?_of_get?_evict p h
      rw [get?_upsert] at hupserted
      split at hupserted
      · next hk => exact .inl ⟨e', he, hk.symm, (Option.some.inj hupserted).symm⟩
      · next hk =>
        refine .inr ⟨hupserted, fun other hother => ?_⟩
        rw [← Option.some.inj (he.symm.trans hother)]
        exact Ne.symm hk

theorem gone_apply {op : LocalOp T} {k : LocalKey} {e : LocalForbidEntry T}
    (hstored : s.entries.get? k = some e) (hgone : (op.apply p s).entries.get? k = none) :
    op.Revokes k ∨
      ((∃ tenant, op = .read tenant) ∧ e.expired (p.clock s.clockReads) = true) ∨
      ∃ e' ∈ op.stored p s, p.maxEntries < (upsert s e').entries.items.length ∧
        (if e'.key = k then e' else e).ttlSeconds ≠ none := by
  cases op with
  | revoke r =>
    change (revoke r s).2.entries.get? k = none at hgone
    rw [get?_revoke] at hgone
    split at hgone
    · next hk => exact .inl hk.symm
    · cases hstored.symm.trans hgone
  | read tenant =>
    refine .inr (.inl ⟨⟨tenant, rfl⟩, ?_⟩)
    by_contra hlive
    have hkept := (get?_refreshed k e).mpr ⟨hstored, eq_false_of_ne_true hlive⟩
    cases hkept.symm.trans hgone
  | add a =>
    cases he : entryOfArgs p (p.clock s.clockReads) a with
    | none =>
      rw [apply_refused he] at hgone
      cases hstored.symm.trans hgone
    | some e' =>
      rw [apply_add he] at hgone
      have hupserted := get?_upsert { s with clockReads := s.clockReads + 1 } e' k
      have hentry : (upsert { s with clockReads := s.clockReads + 1 } e').entries.get? k =
          some (if e'.key = k then e' else e) := by
        rw [hupserted]
        by_cases hk : e'.key = k
        · rw [if_pos hk.symm, if_pos hk]
        · rw [if_neg (Ne.symm hk), if_neg hk]
          exact hstored
      obtain ⟨httl, hover⟩ := ttl_of_evicted p hentry hgone
      exact .inr (.inr ⟨e', he, hover, httl⟩)

theorem apply_advances (op : LocalOp T) : Advances s (op.apply p s) := by
  cases op with
  | revoke r =>
    change Advances s (revoke r s).2
    unfold revoke
    cases s.entries.get? r.key with
    | none => exact ⟨le_rfl, fun _ => rfl⟩
    | some e => exact ⟨Nat.le_succ _, fun heq => absurd heq (Nat.succ_ne_self _).symm⟩
  | read tenant =>
    change Advances s (refreshed p s)
    unfold refreshed
    by_cases hdead : (s.entries.items.filter fun item => item.2.expired (p.clock s.clockReads)).map Prod.fst = []
    · simp only [hdead, if_true, List.foldl_nil]
      exact ⟨le_rfl, fun _ => rfl⟩
    · simp only [if_neg hdead]
      exact ⟨Nat.le_succ _, fun heq => absurd heq (Nat.succ_ne_self _).symm⟩
  | add a =>
    cases he : entryOfArgs p (p.clock s.clockReads) a with
    | none =>
      rw [apply_refused he]
      exact ⟨le_rfl, fun _ => rfl⟩
    | some e =>
      rw [apply_add he]
      exact ⟨Nat.le_succ _, fun heq => absurd heq (Nat.succ_ne_self _).symm⟩

theorem run_advances (ops : List (LocalOp T)) (s : LocalForbidSource T) : Advances s (run p s ops) := by
  induction ops generalizing s with
  | nil => exact ⟨le_rfl, fun _ => rfl⟩
  | cons op rest ih => exact (apply_advances op).trans (ih (op.apply p s))

end Step

section Tenants

variable (p : LocalConfig T)

def ownedBy (tenant : Option Str) (e : LocalForbidEntry T) : Bool :=
  match e.tenant with
  | none => true
  | some stored => p.fold.clean stored = p.fold.clean (tenant.getD [])

variable {p}

theorem clean_strip (fold : CaseFolding) (t : Str) : fold.clean (strip t) = fold.clean t := by
  unfold CaseFolding.clean
  rw [strip_strip]

theorem ownedBy_of_listedFor {tenant : Option Str} {e : LocalForbidEntry T}
    (h : listedFor (normTenant tenant) e = true) : ownedBy p tenant e = true := by
  unfold ownedBy
  cases hstored : e.tenant with
  | none => rfl
  | some stored =>
    simp only [listedFor, hstored, reduceCtorEq, false_or, decide_eq_true_eq] at h
    cases tenant with
    | none => cases h
    | some t =>
      by_cases hblank : strip t = []
      · simp [normTenant, orNone, hblank] at h
      · simp only [normTenant, orNone, if_neg hblank, Option.some.injEq] at h
        simp [h, clean_strip]

theorem filter_eq_iff_of_imp {α : Type} {f g : α → Bool} (himp : ∀ a, f a = true → g a = true) (xs : List α) :
    xs.filter f = xs.filter g ↔ ∀ a ∈ xs, g a = true → f a = true := by
  constructor
  · intro h a ha hg
    exact (List.mem_filter.mp (h ▸ List.mem_filter.mpr ⟨ha, hg⟩)).2
  · intro h
    refine List.filter_congr fun a ha => Bool.eq_iff_iff.mpr ⟨himp a, h a ha⟩

theorem map_filter_eq_iff_of_imp {α β : Type} {f g : α → Bool} (name : α → β)
    (himp : ∀ a, f a = true → g a = true) (xs : List α) :
    (xs.filter f).map name = (xs.filter g).map name ↔ ∀ a ∈ xs, g a = true → f a = true := by
  rw [← filter_eq_iff_of_imp himp]
  refine ⟨fun h => ?_, fun h => by rw [h]⟩
  have hsub : (xs.filter f).Sublist (xs.filter g) := List.monotone_filter_right xs himp
  refine hsub.eq_of_length ?_
  simpa using congrArg List.length h

end Tenants

section Contract

variable [Sub T] [LE T] [DecidableLE T] (p : LocalConfig T)

/-- The entry that was last stored under a key, starting from `found`. -/
def lastStored (k : LocalKey) : List (LocalOp T) → LocalForbidSource T → Option (LocalForbidEntry T) →
    Option (LocalForbidEntry T)
  | [], _, found => found
  | op :: rest, s, found =>
    lastStored k rest (op.apply p s)
      (match op.stored p s with
      | none => found
      | some e => if e.key = k then some e else found)

structure Retention (s : LocalForbidSource T) (ops : List (LocalOp T)) : Prop where
  permanent : ∀ before middle after, ops = before ++ middle ++ after → ∀ k e,
    (run p s before).entries.get? k = some e → e.ttlSeconds = none → (∀ op ∈ middle, ¬ op.Revokes k) →
      ∃ e', (run p s (before ++ middle)).entries.get? k = some e' ∧ e'.ttlSeconds = none
  leaves : ∀ before op after, ops = before ++ op :: after → ∀ k e,
    (run p s before).entries.get? k = some e → (run p s (before ++ [op])).entries.get? k = none →
      op.Revokes k ∨ e.ttlSeconds ≠ none ∧ lastStored p k before s (s.entries.get? k) = some e ∧
        ((∃ tenant, op = .read tenant) ∧ e.expired (p.clock (run p s before).clockReads) = true ∨
          ∃ e' ∈ op.stored p (run p s before), p.maxEntries < (upsert (run p s before) e').entries.items.length)

structure Versioning (s : LocalForbidSource T) (ops : List (LocalOp T)) : Prop where
  grows : ∀ before middle after, ops = before ++ middle ++ after →
    (run p s before).epoch ≤ (run p s (before ++ middle)).epoch
  same : ∀ before tenant middle after, ops = before ++ .read tenant :: middle ++ .read tenant :: after →
    (responseSet p tenant (run p s before)).1.epoch =
      (responseSet p tenant (run p s (before ++ .read tenant :: middle))).1.epoch →
    (responseSet p tenant (run p s before)).1.forbid =
      (responseSet p tenant (run p s (before ++ .read tenant :: middle))).1.forbid

def Scoping (s : LocalForbidSource T) (ops : List (LocalOp T)) : Prop :=
  ∀ before tenant after, ops = before ++ .read tenant :: after →
    (responseSet p tenant (run p s before)).1.forbid =
      (((run p s before).entries.items.map Prod.snd).filter fun e =>
        !e.expired (p.clock (run p s before).clockReads) && ownedBy p tenant e).map fun e => (e.agentId, e.path)

structure Contract (s : LocalForbidSource T) (ops : List (LocalOp T)) : Prop where
  retention : Retention p s ops
  versioning : Versioning p s ops
  scoping : Scoping p s ops

def LocalOp.Slips (s : LocalForbidSource T) : LocalOp T → Prop
  | .add a => ∃ e', entryOfArgs p (p.clock s.clockReads) a = some e' ∧ e'.ttlSeconds ≠ none ∧
      ∃ e, s.entries.get? e'.key = some e ∧ e.ttlSeconds = none
  | .revoke _ => False
  | .read tenant => ∃ item ∈ s.entries.items, item.2.expired (p.clock s.clockReads) = false ∧
      ∃ stored, item.2.tenant = some stored ∧ p.fold.clean stored = p.fold.clean (tenant.getD []) ∧
        normTenant tenant ≠ some stored

def NothingSlips (s : LocalForbidSource T) (ops : List (LocalOp T)) : Prop :=
  ∀ before op after, ops = before ++ op :: after → ¬ op.Slips p (run p s before)

variable {p} {s : LocalForbidSource T} {ops : List (LocalOp T)}

theorem stored_eq_last (k : LocalKey) (ops : List (LocalOp T)) (s : LocalForbidSource T)
    (found : Option (LocalForbidEntry T)) (hfound : ∀ e, s.entries.get? k = some e → found = some e)
    (e : LocalForbidEntry T) (he : (run p s ops).entries.get? k = some e) :
    lastStored p k ops s found = some e := by
  induction ops generalizing s found with
  | nil => exact hfound e he
  | cons op rest ih =>
    refine ih (op.apply p s) _ (fun e₁ he₁ => ?_) he
    obtain ⟨e', hstored, hkey, rfl⟩ | ⟨hold, hother⟩ := get?_apply he₁
    · rw [show op.stored p s = some e₁ from hstored]
      exact if_pos hkey
    · cases hstored : op.stored p s with
      | none => exact hfound e₁ hold
      | some e' => exact (if_neg (hother e' hstored)).trans (hfound e₁ hold)

theorem permanent_step {op : LocalOp T} (hslips : ¬ op.Slips p s) {k : LocalKey} {e : LocalForbidEntry T}
    (hget : s.entries.get? k = some e) (hpermanent : e.ttlSeconds = none) (hrevokes : ¬ op.Revokes k) :
    ∃ e', (op.apply p s).entries.get? k = some e' ∧ e'.ttlSeconds = none := by
  -- what the step stores under the key is permanent
  have hnew : ∀ e' ∈ op.stored p s, e'.key = k → e'.ttlSeconds = none := by
    intro e' hstored hkey
    by_contra httl
    cases op with
    | revoke r => cases hstored
    | read tenant => cases hstored
    | add a => exact hslips ⟨e', hstored, httl, e, hkey ▸ hget, hpermanent⟩
  cases hafter : (op.apply p s).entries.get? k with
  | some e₁ =>
    refine ⟨e₁, rfl, ?_⟩
    obtain ⟨e', hstored, hkey, rfl⟩ | ⟨hold, -⟩ := get?_apply hafter
    · exact hnew e₁ hstored hkey
    · rwa [← Option.some.inj (hget.symm.trans hold)]
  | none =>
    exfalso
    obtain hrevoked | ⟨-, hexpired⟩ | ⟨e', hstored, -, httl⟩ := gone_apply hget hafter
    · exact hrevokes hrevoked
    · exact ttl_of_expired hexpired hpermanent
    · by_cases hkey : e'.key = k
      · rw [if_pos hkey] at httl
        exact httl (hnew e' hstored hkey)
      · rw [if_neg hkey] at httl
        exact httl hpermanent

theorem permanent_run (h : NothingSlips p s ops) {before middle after : List (LocalOp T)}
    (hsplit : ops = before ++ middle ++ after) {k : LocalKey} {e : LocalForbidEntry T}
    (hget : (run p s before).entries.get? k = some e) (hpermanent : e.ttlSeconds = none)
    (hrevokes : ∀ op ∈ middle, ¬ op.Revokes k) :
    ∃ e', (run p s (before ++ middle)).entries.get? k = some e' ∧ e'.ttlSeconds = none := by
  induction middle using List.reverseRecOn generalizing after with
  | nil =>
    rw [List.append_nil]
    exact ⟨e, hget, hpermanent⟩
  | append_singleton middle op ih =>
    obtain ⟨e', hget', hpermanent'⟩ := @ih (op :: after) (by rw [hsplit]; simp)
      fun op' hop' => hrevokes op' (List.mem_append_left _ hop')
    rw [← List.append_assoc, run_concat]
    exact permanent_step (h (before ++ middle) op after (by rw [hsplit]; simp)) hget' hpermanent'
      (hrevokes op (List.mem_append_right _ (List.mem_singleton_self op)))

theorem retention_of_nothingSlips (h : NothingSlips p s ops) : Retention p s ops where
  permanent _ _ _ hsplit _ _ hget hpermanent hrevokes := permanent_run h hsplit hget hpermanent hrevokes
  leaves before op after hsplit k e hget hgone := by
    by_cases hrevokes : op.Revokes k
    · exact .inl hrevokes
    rw [run_concat] at hgone
    have httl : e.ttlSeconds ≠ none := by
      intro hpermanent
      obtain ⟨e', hkept, -⟩ := permanent_step (h before op after hsplit) hget hpermanent hrevokes
      exact absurd (hgone.symm.trans hkept) nofun
    refine .inr ⟨httl, stored_eq_last k before s _ (fun _ he => he) e hget, ?_⟩
    obtain hrevoked | hexpired | ⟨e', hstored, hover, -⟩ := gone_apply hget hgone
    · exact absurd hrevoked hrevokes
    · exact .inl hexpired
    · exact .inr ⟨e', hstored, hover⟩

theorem versioning_always (s : LocalForbidSource T) (ops : List (LocalOp T)) : Versioning p s ops where
  grows before middle after _ := by
    rw [run_append]
    exact (run_advances middle _).le
  same before tenant middle after _ hepoch := by
    have hadvances := @run_advances _ _ _ _ p (middle ++ [.read tenant]) (run p s (before ++ [.read tenant]))
    rw [← run_append, run_concat] at hadvances
    have hread : run p s (before ++ [.read tenant] ++ (middle ++ [.read tenant])) =
        refreshed p (run p s (before ++ .read tenant :: middle)) := by
      rw [show before ++ [.read tenant] ++ (middle ++ [.read tenant]) =
        (before ++ .read tenant :: middle) ++ [.read tenant] by simp, run_concat]
      rfl
    rw [hread] at hadvances
    have hitems := hadvances.same hepoch
    change (responseOf tenant (refreshed p _)).forbid = (responseOf tenant (refreshed p _)).forbid
    unfold responseOf
    simp only
    rw [hitems]
    rfl

theorem read_forbid (tenant : Option Str) : (responseSet p tenant s).1.forbid =
    ((s.entries.items.map Prod.snd).filter fun e =>
      !e.expired (p.clock s.clockReads) && listedFor (normTenant tenant) e).map fun e => (e.agentId, e.path) := by
  change (((refreshed p s).entries.items.map Prod.snd).filter _).map _ = _
  have hlive : (refreshed p s).entries.items.map Prod.snd =
      (s.entries.items.map Prod.snd).filter fun e => !e.expired (p.clock s.clockReads) := by
    rw [refreshed_items, List.filter_map]
    rfl
  rw [hlive, List.filter_filter]
  simp only [Bool.and_comm]

theorem scoped_iff (tenant : Option Str) : (responseSet p tenant s).1.forbid =
      ((s.entries.items.map Prod.snd).filter fun e =>
        !e.expired (p.clock s.clockReads) && ownedBy p tenant e).map (fun e => (e.agentId, e.path)) ↔
    ¬ LocalOp.Slips p s (.read tenant) := by
  have himp : ∀ e : LocalForbidEntry T,
      (!e.expired (p.clock s.clockReads) && listedFor (normTenant tenant) e) = true →
        (!e.expired (p.clock s.clockReads) && ownedBy p tenant e) = true := by
    intro e h
    rw [Bool.and_eq_true] at h ⊢
    exact ⟨h.1, ownedBy_of_listedFor h.2⟩
  rw [read_forbid, map_filter_eq_iff_of_imp _ himp]
  constructor
  · rintro h ⟨item, hitem, hlive, stored, htenant, hclean, hspelled⟩
    have hlisted := h item.2 (List.mem_map_of_mem hitem) (by simp [hlive, ownedBy, htenant, hclean])
    rw [Bool.and_eq_true] at hlisted
    simp [listedFor, htenant, Ne.symm hspelled] at hlisted
  · intro h e he howned
    obtain ⟨item, hitem, rfl⟩ := List.mem_map.mp he
    rw [Bool.and_eq_true, Bool.not_eq_true'] at howned
    by_contra hlisted
    refine h ⟨item, hitem, howned.1, ?_⟩
    cases htenant : item.2.tenant with
    | none => simp [howned.1, listedFor, htenant] at hlisted
    | some stored =>
      refine ⟨stored, rfl, ?_, ?_⟩
      · simpa [ownedBy, htenant] using howned.2
      · intro hspelled
        simp [howned.1, listedFor, htenant, hspelled] at hlisted

theorem nothingSlips_of_contract (h : Contract p s ops) : NothingSlips p s ops := by
  intro before op after hsplit hslips
  cases op with
  | revoke r => exact hslips
  | read tenant => exact (scoped_iff tenant).mp (h.scoping before tenant after hsplit) hslips
  | add a =>
    obtain ⟨e', hentry, httl, e, hget, hpermanent⟩ := hslips
    obtain ⟨e₁, hkept, hpermanent'⟩ := h.retention.permanent before [.add a] after (by rw [hsplit]; simp) e'.key e
      hget hpermanent (by simp [LocalOp.Revokes])
    rw [run_concat] at hkept
    obtain ⟨other, hstored, -, rfl⟩ | ⟨-, hother⟩ := get?_apply hkept
    · rw [Option.some.inj (hstored.symm.trans hentry)] at hpermanent'
      exact httl hpermanent'
    · exact hother e' hentry rfl

/-- The contract holds over a run of calls on a new source if and only if no insertion puts a
lifetime on a permanent entry and no read asks for a tenant under another spelling. -/
theorem contract_iff (p : LocalConfig T) (calls : List (LocalCall T)) :
    Contract p .fresh (calls.flatMap (LocalCall.ops p)) ↔
      NothingSlips p .fresh (calls.flatMap (LocalCall.ops p)) :=
  ⟨nothingSlips_of_contract, fun h =>
    { retention := retention_of_nothingSlips h
      versioning := versioning_always _ _
      scoping := fun before tenant after hsplit =>
        (scoped_iff tenant).mpr (h before (.read tenant) after hsplit) }⟩

end Contract

def payrollAgent : Str := txt "atlas-pay"

def payrollPath : Str := txt "/data/payroll.db"

def hourly : LocalConfig ℤ where
  fold := asciiFolding.toCaseFolding
  clock n := 3600 * n
  defaultTtlSeconds := 3600
  maxEntries := 65536

def operatorSeeds : LocalCall ℤ := .fromEnv (txt "atlas-pay=/data/payroll.db") none

def liveForbid (tenant : Option Str) : LocalCall ℤ :=
  .feedFromDecision ⟨some (txt "delete"), some payrollPath, some payrollAgent, tenant⟩

/-- A live decision puts a lifetime on the operator's entry, which then expires; and a tenant is
not told of an entry that was fed under another spelling of it. -/
theorem operator_entry_expires :
    ¬ Contract hourly .fresh ([operatorSeeds, liveForbid none].flatMap (LocalCall.ops hourly)) ∧
    (responseSet hourly none (runCalls hourly .fresh [operatorSeeds])).1.forbid = [(payrollAgent, payrollPath)] ∧
    (responseSet hourly none (runCalls hourly .fresh [operatorSeeds, liveForbid none])).1.forbid = [] ∧
    ¬ Contract { hourly with defaultTtlSeconds := 7200 } .fresh ([liveForbid (some (txt "Acme")),
      .responseSet (some (txt "acme"))].flatMap (LocalCall.ops { hourly with defaultTtlSeconds := 7200 })) := by
  refine ⟨fun h => ?_, by decide, by decide, fun h => ?_⟩
  · refine nothingSlips_of_contract h [.add ⟨payrollAgent, payrollPath, none, .permanent⟩]
      (.add ⟨payrollAgent, payrollPath, none, .useDefault⟩) [] ?_ ?_
    · have hseeds : seeds (txt "atlas-pay=/data/payroll.db") = [(payrollAgent, payrollPath)] := by
        decide
      have hfed : fedArgs hourly ⟨some (txt "delete"), some payrollPath, some payrollAgent, none⟩ =
          some ⟨payrollAgent, payrollPath, none, .useDefault⟩ := rfl
      simp [operatorSeeds, liveForbid, LocalCall.ops, hseeds, hfed]
    · exact ⟨⟨payrollAgent, payrollPath, none, 3600, some 3600⟩, rfl, nofun,
        ⟨payrollAgent, payrollPath, none, 0, none⟩, rfl, rfl⟩
  · refine nothingSlips_of_contract h [.add ⟨payrollAgent, payrollPath, some (txt "Acme"), .useDefault⟩]
      (.read (some (txt "acme"))) [] rfl ?_
    exact ⟨(⟨payrollAgent, payrollPath, some (txt "Acme")⟩,
      ⟨payrollAgent, payrollPath, some (txt "Acme"), 0, some 7200⟩), List.mem_singleton_self _, by decide,
      txt "Acme", rfl, by decide, by decide⟩

end TexGovernance.Forbid.Local
