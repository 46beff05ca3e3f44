import TexGovernance.Forbid.Source

/-!
# How long an entry is kept

Entries leave by revocation, by expiry and by the cap.
-/

namespace TexGovernance.Forbid
open PyStr CaseFold PyDict

variable {T : Type} (p : Config T)

section Insertion

variable {p} {s s' : ForbidSource T} {e : ForbidEntry T}

theorem mem_inserted (k : Key) (e' : ForbidEntry T) : (k, e') ∈ inserted p s e ↔
    (k, e') ∈ s.entries.items ∧ k ≠ e.key p.fold ∨ k = e.key p.fold ∧ e' = e := by
  rw [inserted, List.mem_append, List.mem_filter, decide_eq_true_eq, List.mem_singleton,
    Prod.mk.injEq]

theorem Inserts.mem (h : Inserts p s s' e) (k : Key) (e' : ForbidEntry T) :
    (k, e') ∈ s'.entries.items ↔
      (k, e') ∈ inserted p s e ∧ (k, e') ∉ evictees p (inserted p s e) := by
  rw [h.items, mem_dropOldest (inserted_nodup p s e)]
  rfl

theorem Inserts.get? (h : Inserts p s s' e) (k : Key) (e' : ForbidEntry T) :
    s'.entries.get? k = some e' ↔
      (k, e') ∈ inserted p s e ∧ (k, e') ∉ evictees p (inserted p s e) := by
  rw [Dict.get?_eq_some_iff, h.mem]

theorem Deletes.get? {gone : Key → ForbidEntry T → Prop} (h : Deletes s s' gone) (k : Key)
    (e : ForbidEntry T) : s'.entries.get? k = some e ↔ s.entries.get? k = some e ∧ ¬gone k e := by
  rw [Dict.get?_eq_some_iff, Dict.get?_eq_some_iff, h.mem]

theorem evictees_ttl {items : List (Item T)} {k : Key} {e' : ForbidEntry T}
    (h : (k, e') ∈ evictees p items) : e'.ttlSeconds ≠ none := by
  have httl := (List.mem_filter.mp (List.mem_of_mem_take h)).2
  intro hnone
  simp [Item.hasTtl, hnone] at httl

theorem evictees_full {items : List (Item T)} {item : Item T} (h : item ∈ evictees p items) :
    p.maxEntries < items.length := by
  by_contra hfits
  have hzero : excess p items = 0 := by
    unfold excess
    omega
  rw [evictees, hzero, List.take_zero] at h
  cases h

def permanentItems (items : List (Item T)) : List (Item T) :=
  items.filter fun item => !item.hasTtl

theorem length_split (items : List (Item T)) :
    items.length = (items.filter Item.hasTtl).length + (permanentItems items).length := by
  have hsplit := List.length_eq_length_filter_add (l := items) Item.hasTtl
  exact hsplit

theorem newest_evicted_iff (httl : e.ttlSeconds ≠ none) :
    (e.key p.fold, e) ∈ evictees p (inserted p s e) ↔
      p.maxEntries ≤ (permanentItems (inserted p s e)).length := by
  let older := (s.entries.items.filter fun item => item.1 ≠ e.key p.fold).filter Item.hasTtl
  have hlast : Item.hasTtl (e.key p.fold, e) = true := by
    simpa [Item.hasTtl, Option.isSome_iff_ne_none] using httl
  have hfilter : (inserted p s e).filter Item.hasTtl = older ++ [(e.key p.fold, e)] := by
    rw [inserted, List.filter_append, List.filter_cons_of_pos hlast, List.filter_nil]
  have hnew : (e.key p.fold, e) ∉ older := by
    intro hmem
    have hkey := (List.mem_filter.mp (List.mem_of_mem_filter hmem)).2
    simp at hkey
  have hlength := length_split (inserted p s e)
  rw [hfilter, List.length_append, List.length_singleton] at hlength
  have htake : (e.key p.fold, e) ∈ evictees p (inserted p s e) ↔
      older.length < excess p (inserted p s e) := by
    rw [evictees, hfilter]
    constructor
    · intro hmem
      by_contra hshort
      rw [List.take_append_of_le_length (not_lt.mp hshort)] at hmem
      exact hnew (List.mem_of_mem_take hmem)
    · intro hlong
      rw [List.take_of_length_le (by rw [List.length_append, List.length_singleton]; omega)]
      exact List.mem_append_right _ (List.mem_singleton_self _)
  rw [htake]
  unfold excess
  omega

theorem permanentItems_inserted {e₀ : ForbidEntry T}
    (hstored : s.entries.get? (e.key p.fold) = some e₀) (hold : e₀.ttlSeconds ≠ none)
    (httl : e.ttlSeconds ≠ none) :
    permanentItems (inserted p s e) = permanentItems s.entries.items := by
  have hnew : ¬(!Item.hasTtl (e.key p.fold, e)) = true := by
    simp [Item.hasTtl, Option.isSome_iff_ne_none.mpr httl]
  unfold permanentItems inserted
  rw [List.filter_append, List.filter_cons_of_neg (p := fun item => !Item.hasTtl item) hnew,
    List.filter_nil, List.append_nil, List.filter_filter]
  refine List.filter_congr fun item hitem => ?_
  by_cases hkey : item.1 = e.key p.fold
  · have hsame : item.2 = e₀ := by
      have hget := (Dict.get?_eq_some_iff s.entries item.1 item.2).mpr hitem
      rw [hkey, hstored] at hget
      exact (Option.some.inj hget).symm
    simp [Item.hasTtl, hsame, Option.isSome_iff_ne_none.mpr hold]
  · simp [hkey]

end Insertion

section Lifetimes

variable [Add T] [Preorder T]

/-- `e'` expires no earlier than `e`; a permanent entry never expires. -/
def LastsAsLong (e e' : ForbidEntry T) : Prop :=
  ∀ exp' ∈ e'.expiresAt, ∃ exp ∈ e.expiresAt, exp ≤ exp'

theorem LastsAsLong.refl (e : ForbidEntry T) : LastsAsLong e e := fun exp hexp => ⟨exp, hexp, le_rfl⟩

theorem lastsAsLong_of_permanent {e e' : ForbidEntry T} (h : e'.ttlSeconds = none) :
    LastsAsLong e e' := by
  intro exp' hexp'
  simp [ForbidEntry.expiresAt, h] at hexp'

theorem permanent_of_lastsAsLong {e e' : ForbidEntry T} (h : LastsAsLong e e')
    (hperm : e.ttlSeconds = none) : e'.ttlSeconds = none := by
  cases httl : e'.ttlSeconds with
  | none => rfl
  | some t =>
    obtain ⟨exp, hexp, -⟩ := h (e'.addedAt + t) (by simp [ForbidEntry.expiresAt, httl])
    simp [ForbidEntry.expiresAt, hperm] at hexp

variable [DecidableLE T]

theorem ttl_of_expired {e : ForbidEntry T} {now : T} (h : e.isExpired now = true) :
    e.ttlSeconds ≠ none := by
  intro hnone
  simp [ForbidEntry.isExpired, ForbidEntry.expiresAt, hnone] at h

def Op.Revokes (k : Key) : Op T → Prop
  | .revoke r => r.Matches p.fold k
  | _ => False

def Op.Harmless (s : ForbidSource T) : Op T → Prop
  | .add a => ∀ e' ∈ entryOfArgs p (p.clock s.clockReads) a, ∀ e ∈ s.entries.get? (e'.key p.fold),
      LastsAsLong e e' ∨
        e.ttlSeconds ≠ none ∧ p.maxEntries ≤ (permanentItems s.entries.items).length
  | _ => True

structure Retains (s : ForbidSource T) (op : Op T) : Prop where
  permanent : ∀ k, ∀ e ∈ s.entries.get? k, e.ttlSeconds = none → ¬op.Revokes p k →
    ∃ e' ∈ (op.apply p s).entries.get? k, e'.ttlSeconds = none
  leaves : ∀ k, ∀ e ∈ s.entries.get? k, (op.apply p s).entries.get? k = none → op.Revokes p k ∨
    e.ttlSeconds ≠ none ∧ (op = .read ∧ e.isExpired (p.clock s.clockReads) = true ∨
      ∃ a e', op = .add a ∧ entryOfArgs p (p.clock s.clockReads) a = some e' ∧
        p.maxEntries < (inserted p s e').length)
  life : ∀ k, ∀ e ∈ s.entries.get? k, ∀ e' ∈ (op.apply p s).entries.get? k, LastsAsLong e e'

variable {p} {s : ForbidSource T}

theorem retains_revoke (r : RevokeArgs) : Retains p s (.revoke r) where
  permanent k e he hperm hnot := ⟨e, ((revoke_deletes p r s).get? k e).mpr ⟨he, hnot⟩, hperm⟩
  leaves k e he hgone := by
    by_contra hnot
    rw [not_or] at hnot
    have hkept := ((revoke_deletes p r s).get? k e).mpr ⟨he, hnot.1⟩
    rw [show (revoke p r s).2.entries.get? k = none from hgone] at hkept
    cases hkept
  life k e he e' he' := by
    have hold := (((revoke_deletes p r s).get? k e').mp he').1
    rw [Option.some.inj (hold.symm.trans he)]
    exact LastsAsLong.refl e

theorem retains_read : Retains p s .read where
  permanent k e he hperm _ := by
    have hlives : ¬e.isExpired (p.clock s.clockReads) = true := fun h => ttl_of_expired h hperm
    exact ⟨e, ((refreshed_deletes p s).get? k e).mpr ⟨he, hlives⟩, hperm⟩
  leaves k e he hgone := by
    by_cases hexpired : e.isExpired (p.clock s.clockReads) = true
    · exact .inr ⟨ttl_of_expired hexpired, .inl ⟨rfl, hexpired⟩⟩
    · have hkept := ((refreshed_deletes p s).get? k e).mpr ⟨he, hexpired⟩
      rw [show (refreshed p s).entries.get? k = none from hgone] at hkept
      cases hkept
  life k e he e' he' := by
    have hold := (((refreshed_deletes p s).get? k e').mp he').1
    rw [Option.some.inj (hold.symm.trans he)]
    exact LastsAsLong.refl e

theorem retains_refused {a : AddArgs T} (h : entryOfArgs p (p.clock s.clockReads) a = none) :
    Retains p s (.add a) := by
  have hsame : Op.apply p s (.add a) = s := by
    change (add p a s).2 = s
    rw [add_refused p h]
  refine ⟨fun k e he hperm _ => ?_, fun k e he hgone => ?_, fun k e he e' he' => ?_⟩
  · rw [hsame]
    exact ⟨e, he, hperm⟩
  · rw [hsame, show s.entries.get? k = some e from he] at hgone
    cases hgone
  · rw [hsame] at he'
    rw [Option.some.inj (he'.symm.trans he)]
    exact LastsAsLong.refl e

theorem retains_add {a : AddArgs T} {e' : ForbidEntry T}
    (h : entryOfArgs p (p.clock s.clockReads) a = some e')
    (hharmless : Op.Harmless p s (.add a)) : Retains p s (.add a) := by
  have hinserts : Inserts p s (Op.apply p s (.add a)) e' := (add_inserts p h).2
  have hreplaces := hharmless e' h
  refine ⟨fun k e he hperm _ => ?_, fun k e he hgone => ?_, fun k e he e₁ he₁ => ?_⟩
  · by_cases hk : k = e'.key p.fold
    · subst hk
      have hnew : e'.ttlSeconds = none := by
        rcases hreplaces e he with hlasts | ⟨httl, -⟩
        · exact permanent_of_lastsAsLong hlasts hperm
        · exact absurd hperm httl
      refine ⟨e', (hinserts.get? _ _).mpr ⟨(mem_inserted _ _).mpr (.inr ⟨rfl, rfl⟩), ?_⟩, hnew⟩
      exact fun hevicted => evictees_ttl hevicted hnew
    · refine ⟨e, (hinserts.get? _ _).mpr ⟨(mem_inserted _ _).mpr (.inl ⟨?_, hk⟩), ?_⟩, hperm⟩
      · exact (Dict.get?_eq_some_iff _ _ _).mp he
      · exact fun hevicted => evictees_ttl hevicted hperm
  · -- what is gone was taken by the cap
    have hcap : ∀ e₁, (k, e₁) ∈ inserted p s e' → (k, e₁) ∈ evictees p (inserted p s e') := by
      intro e₁ hmem
      by_contra hkept
      rw [(hinserts.get? k e₁).mpr ⟨hmem, hkept⟩] at hgone
      cases hgone
    refine .inr ⟨?_, .inr ⟨a, e', rfl, h, ?_⟩⟩
    · by_cases hk : k = e'.key p.fold
      · subst hk
        have hnew := evictees_ttl (hcap e' ((mem_inserted _ _).mpr (.inr ⟨rfl, rfl⟩)))
        intro hperm
        rcases hreplaces e he with hlasts | ⟨httl, -⟩
        · exact hnew (permanent_of_lastsAsLong hlasts hperm)
        · exact httl hperm
      · have hmem := (Dict.get?_eq_some_iff _ _ _).mp he
        exact evictees_ttl (hcap e ((mem_inserted _ _).mpr (.inl ⟨hmem, hk⟩)))
    · by_cases hk : k = e'.key p.fold
      · exact evictees_full (hcap e' ((mem_inserted _ _).mpr (.inr ⟨hk, rfl⟩)))
      · have hmem := (Dict.get?_eq_some_iff _ _ _).mp he
        exact evictees_full (hcap e ((mem_inserted _ _).mpr (.inl ⟨hmem, hk⟩)))
  · obtain ⟨hmem, hkept⟩ := (hinserts.get? k e₁).mp he₁
    rcases (mem_inserted k e₁).mp hmem with ⟨hold, -⟩ | ⟨rfl, rfl⟩
    · have hget := (Dict.get?_eq_some_iff _ _ _).mpr hold
      rw [Option.some.inj (hget.symm.trans he)]
      exact LastsAsLong.refl e
    · rcases hreplaces e he with hlasts | ⟨httl, hfull⟩
      · exact hlasts
      · by_cases hnew : e₁.ttlSeconds = none
        · exact lastsAsLong_of_permanent hnew
        · refine absurd ((newest_evicted_iff hnew).mpr ?_) hkept
          rw [permanentItems_inserted he httl hnew]
          exact hfull

theorem harmless_of_retains {op : Op T} (h : Retains p s op) : op.Harmless p s := by
  cases op with
  | revoke r => trivial
  | read => trivial
  | add a =>
    intro e' he' e he
    have hinserts : Inserts p s (Op.apply p s (.add a)) e' := (add_inserts p he').2
    have hmem : (e'.key p.fold, e') ∈ inserted p s e' := (mem_inserted _ _).mpr (.inr ⟨rfl, rfl⟩)
    by_cases hlasts : LastsAsLong e e'
    · exact .inl hlasts
    · have hnew : e'.ttlSeconds ≠ none := fun hperm => hlasts (lastsAsLong_of_permanent hperm)
      have hunique : ∀ e₁, (Op.apply p s (.add a)).entries.get? (e'.key p.fold) = some e₁ → e₁ = e' := by
        intro e₁ he₁
        rcases (mem_inserted _ _).mp ((hinserts.get? _ e₁).mp he₁).1 with ⟨-, hne⟩ | ⟨-, heq⟩
        · exact absurd rfl hne
        · exact heq
      have httl : e.ttlSeconds ≠ none := by
        intro hperm
        obtain ⟨e₁, he₁, hperm₁⟩ := h.permanent _ e he hperm id
        rw [hunique e₁ he₁] at hperm₁
        exact hnew hperm₁
      refine .inr ⟨httl, ?_⟩
      -- the entry is not the stored one, so the cap must have taken it
      have hevicted : (e'.key p.fold, e') ∈ evictees p (inserted p s e') := by
        by_contra hkept
        exact hlasts (h.life _ e he e' ((hinserts.get? _ _).mpr ⟨hmem, hkept⟩))
      rw [newest_evicted_iff hnew, permanentItems_inserted he httl hnew] at hevicted
      exact hevicted

theorem retains_iff (op : Op T) : Retains p s op ↔ op.Harmless p s := by
  refine ⟨harmless_of_retains, fun h => ?_⟩
  cases op with
  | revoke r => exact retains_revoke r
  | read => exact retains_read
  | add a =>
    cases he : entryOfArgs p (p.clock s.clockReads) a with
    | none => exact retains_refused he
    | some e => exact retains_add he h

variable (p)

def Op.stored (s : ForbidSource T) : Op T → Option (ForbidEntry T)
  | .add a => entryOfArgs p (p.clock s.clockReads) a
  | _ => none

/-- The entry that was last stored under a key, starting from `found`. -/
def lastStored (k : Key) : List (Op T) → ForbidSource T → Option (ForbidEntry T) →
    Option (ForbidEntry T)
  | [], _, found => found
  | op :: rest, s, found =>
    lastStored k rest (op.apply p s)
      (match op.stored p s with
      | none => found
      | some e => if e.key p.fold = k then some e else found)

structure Retention (s : ForbidSource T) (ops : List (Op T)) : Prop where
  permanent : ∀ before middle after, ops = before ++ middle ++ after → ∀ k,
    ∀ e ∈ (run p s before).entries.get? k, e.ttlSeconds = none →
      (∀ op ∈ middle, ¬op.Revokes p k) →
        ∃ e' ∈ (run p s (before ++ middle)).entries.get? k, e'.ttlSeconds = none
  leaves : ∀ before op after, ops = before ++ op :: after → ∀ k,
    ∀ e ∈ (run p s before).entries.get? k, (run p s (before ++ [op])).entries.get? k = none →
      op.Revokes p k ∨ e.ttlSeconds ≠ none ∧ e ∈ lastStored p k before s (s.entries.get? k) ∧
        (op = .read ∧ e.isExpired (p.clock (run p s before).clockReads) = true ∨
          ∃ e', op.stored p (run p s before) = some e' ∧
            p.maxEntries < (inserted p (run p s before) e').length)
  life : ∀ before op after, ops = before ++ op :: after → ∀ k,
    ∀ e ∈ (run p s before).entries.get? k, ∀ e' ∈ (run p s (before ++ [op])).entries.get? k,
      LastsAsLong e e'

def HarmlessRun (s : ForbidSource T) (ops : List (Op T)) : Prop :=
  ∀ before op after, ops = before ++ op :: after → op.Harmless p (run p s before)

variable {p}

theorem stored_cases {op : Op T} {k : Key} {e : ForbidEntry T}
    (h : (op.apply p s).entries.get? k = some e) :
    (match op.stored p s with
      | none => s.entries.get? k = some e
      | some e' => if e'.key p.fold = k then e = e' else s.entries.get? k = some e) := by
  cases op with
  | revoke r => exact (((revoke_deletes p r s).get? k e).mp h).1
  | read => exact (((refreshed_deletes p s).get? k e).mp h).1
  | add a =>
    change (match entryOfArgs p (p.clock s.clockReads) a with
      | none => s.entries.get? k = some e
      | some e' => if e'.key p.fold = k then e = e' else s.entries.get? k = some e)
    cases he : entryOfArgs p (p.clock s.clockReads) a with
    | none =>
      change (add p a s).2.entries.get? k = some e at h
      rw [add_refused p he] at h
      exact h
    | some e' =>
      have hinserts : Inserts p s (Op.apply p s (.add a)) e' := (add_inserts p he).2
      rcases (mem_inserted k e).mp ((hinserts.get? k e).mp h).1 with ⟨hold, hne⟩ | ⟨rfl, rfl⟩
      · simp only
        rw [if_neg (Ne.symm hne), Dict.get?_eq_some_iff]
        exact hold
      · simp

theorem stored_eq_last (k : Key) (ops : List (Op T)) : ∀ (s : ForbidSource T) found,
    (∀ e ∈ s.entries.get? k, e ∈ found) →
      ∀ e ∈ (run p s ops).entries.get? k, e ∈ lastStored p k ops s found := by
  induction ops with
  | nil => exact fun s found h => h
  | cons op rest ih =>
    intro s found hfound
    refine ih (op.apply p s) _ fun e he => ?_
    have hcases := stored_cases he
    cases hstored : op.stored p s with
    | none =>
      rw [hstored] at hcases
      exact hfound e hcases
    | some e' =>
      rw [hstored] at hcases
      simp only at hcases ⊢
      split at hcases
      · next hkey =>
        rw [if_pos hkey, hcases]
        rfl
      · next hkey =>
        rw [if_neg hkey]
        exact hfound e hcases

theorem Retention.retains {ops : List (Op T)} (h : Retention p s ops) (before : List (Op T)) (op : Op T)
    (after : List (Op T)) (hsplit : ops = before ++ op :: after) : Retains p (run p s before) op where
  permanent k e he hperm hnot := by
    have hkept := h.permanent before [op] after (by rw [hsplit, List.append_assoc]; rfl) k e he hperm
      (by rw [List.forall_mem_singleton]; exact hnot)
    rwa [run_concat] at hkept
  leaves k e he hgone := by
    rw [← run_concat] at hgone
    rcases h.leaves before op after hsplit k e he hgone with hrevoked | ⟨httl, -, hexpired | hcap⟩
    · exact .inl hrevoked
    · exact .inr ⟨httl, .inl hexpired⟩
    · obtain ⟨e', hstored, hfull⟩ := hcap
      cases op with
      | add a => exact .inr ⟨httl, .inr ⟨a, e', rfl, hstored, hfull⟩⟩
      | revoke r => cases hstored
      | read => cases hstored
  life k e he e' he' := by
    rw [← run_concat] at he'
    exact h.life before op after hsplit k e he e' he'

theorem permanent_kept {ops : List (Op T)} (h : HarmlessRun p s ops) (k : Key) (before : List (Op T))
    (e : ForbidEntry T) (he : e ∈ (run p s before).entries.get? k) (hperm : e.ttlSeconds = none)
    (middle : List (Op T)) : ∀ after, ops = before ++ middle ++ after →
      (∀ op ∈ middle, ¬op.Revokes p k) →
        ∃ e' ∈ (run p s (before ++ middle)).entries.get? k, e'.ttlSeconds = none := by
  induction middle using List.reverseRecOn with
  | nil =>
    intro after _ _
    rw [List.append_nil]
    exact ⟨e, he, hperm⟩
  | append_singleton middle op ih =>
    intro after hsplit hnot
    obtain ⟨e', he', hperm'⟩ := ih (op :: after) (by rw [hsplit]; simp)
      fun op' hop' => hnot op' (List.mem_append_left _ hop')
    have hretains := (retains_iff op).mpr (h (before ++ middle) op after (by rw [hsplit]; simp))
    rw [← List.append_assoc, run_concat]
    exact hretains.permanent k e' he' hperm' (hnot op (List.mem_append_right _ (List.mem_singleton_self op)))

theorem retention_iff_harmless (ops : List (Op T)) : Retention p s ops ↔ HarmlessRun p s ops := by
  constructor
  · intro h before op after hsplit
    exact harmless_of_retains (h.retains before op after hsplit)
  · intro h
    refine ⟨fun before middle after hsplit k e he hperm hnot => ?_,
      fun before op after hsplit k e he hgone => ?_, fun before op after hsplit k e he e' he' => ?_⟩
    · exact permanent_kept h k before e he hperm middle after hsplit hnot
    · have hretains := (retains_iff op).mpr (h before op after hsplit)
      rw [run_concat] at hgone
      rcases hretains.leaves k e he hgone with hrevoked | ⟨httl, hexpired | ⟨a, e', rfl, hstored, hfull⟩⟩
      · exact .inl hrevoked
      · exact .inr ⟨httl, stored_eq_last k before s _ (fun _ h => h) e he, .inl hexpired⟩
      · exact .inr ⟨httl, stored_eq_last k before s _ (fun _ h => h) e he, .inr ⟨e', hstored, hfull⟩⟩
    · have hretains := (retains_iff op).mpr (h before op after hsplit)
      rw [run_concat] at he'
      exact hretains.life k e he e' he'

variable (p)

/-- A source keeps what it stores exactly in the runs without a shorter
insertion over a stored entry. -/
theorem retention_iff (seeds : List (ForbidEntry T)) (calls : List (Call T)) :
    Retention p (make p seeds) (calls.flatMap (Call.ops p)) ↔
      HarmlessRun p (make p seeds) (calls.flatMap (Call.ops p)) :=
  retention_iff_harmless _

end Lifetimes

def operatorAddress : Str := lit ['1', '.', '2', '.', '3', '.', '4']

def hourly : Config ℕ where
  fold := foldedTexts
  clock n := 3600 * n
  defaultTtlSeconds := 3600
  maxEntries := 8192
  resolver _ := none
  ipVersion host := if host = operatorAddress then some 4 else none

def operatorSeed : AddArgs ℕ := ⟨operatorAddress, 443, none, [], none, .permanent⟩

def liveForbid : FeedArgs :=
  ⟨lit ['h', 't', 't', 'p', '_', 'g', 'e', 't'], operatorAddress, none, none, [], []⟩

/-- The operator's permanent entry is overwritten by a live decision on the same
destination and expires with it. -/
theorem permanent_entry_expires :
    ¬Retention hourly (make hourly [])
      ([.add operatorSeed, .feedFromDecision liveForbid].flatMap (Call.ops hourly)) ∧
    (forTenant hourly none (runCalls hourly (make hourly []) [.add operatorSeed])).1 =
      [(operatorAddress, 443)] ∧
    (forTenant hourly none (runCalls hourly (make hourly [])
      [.add operatorSeed, .feedFromDecision liveForbid])).1 = [] := by
  refine ⟨fun h => ?_, by decide, by decide⟩
  have hfed : fedHost hourly liveForbid = some operatorAddress := by decide
  have hops : [Call.add operatorSeed, .feedFromDecision liveForbid].flatMap (Call.ops hourly) =
      [.add operatorSeed] ++ .add (fedArgs hourly liveForbid operatorAddress) :: [] := by
    simp only [List.flatMap_cons, List.flatMap_nil, Call.ops, hfed]
    rfl
  have hstep := (retention_iff_harmless _).mp h [.add operatorSeed] _ [] hops
    ⟨operatorAddress, 443, none, [], none, 3600, some 3600⟩ rfl
    ⟨operatorAddress, 443, none, [], none, 0, none⟩ rfl
  rcases hstep with hlasts | ⟨httl, -⟩
  · obtain ⟨exp, hexp, -⟩ := hlasts 7200 rfl
    cases hexp
  · exact httl rfl

end TexGovernance.Forbid

namespace TexGovernance.Forbid
open PyStr CaseFold PyDict

variable {T : Type} {p : Config T} {s s' : ForbidSource T}

structure Advances (s s' : ForbidSource T) : Prop where
  le : s.epoch ≤ s'.epoch
  same : s.epoch = s'.epoch → s'.entries.items = s.entries.items

theorem Advances.refl (s : ForbidSource T) : Advances s s := ⟨le_rfl, fun _ => rfl⟩

theorem Advances.trans {s'' : ForbidSource T} (h : Advances s s') (h' : Advances s' s'') :
    Advances s s'' where
  le := h.le.trans h'.le
  same heq := by
    have hfirst : s.epoch = s'.epoch := le_antisymm h.le (heq ▸ h'.le)
    rw [h'.same (hfirst.symm.trans heq), h.same hfirst]

theorem Deletes.advances {gone : Key → ForbidEntry T → Prop} (h : Deletes s s' gone) :
    Advances s s' := by
  rcases h.epoch with ⟨hepoch, hitems⟩ | ⟨hepoch, -⟩
  · exact ⟨hepoch.ge, fun _ => hitems⟩
  · exact ⟨by omega, fun heq => by omega⟩

theorem Inserts.epoch_lt {e : ForbidEntry T} (h : Inserts p s s' e) : s.epoch < s'.epoch := by
  have hepoch := h.epoch
  omega

def Bounded (p : Config T) (s : ForbidSource T) : Prop :=
  (s.entries.items.length : ℤ) ≤ max p.maxEntries (permanentItems s.entries.items).length

instance (p : Config T) (s : ForbidSource T) : Decidable (Bounded p s) :=
  inferInstanceAs (Decidable ((_ : ℤ) ≤ _))

theorem bounded_iff : Bounded p s ↔ (s.entries.items.length : ℤ) ≤ p.maxEntries ∨
    (s.entries.items.filter Item.hasTtl).length = 0 := by
  have hsplit := length_split s.entries.items
  unfold Bounded
  rw [le_max_iff]
  omega

theorem Inserts.bounded {e : ForbidEntry T} (h : Inserts p s s' e) : Bounded p s' := by
  have hlength := length_dropOldest (excess p (inserted p s e)) (inserted p s e)
  have hpermanent := permanent_dropOldest (excess p (inserted p s e)) (inserted p s e)
  have hsplit := length_split s'.entries.items
  have hbefore := length_split (inserted p s e)
  rw [← h.items] at hlength hpermanent
  have hsame : (permanentItems s'.entries.items).length = (permanentItems (inserted p s e)).length :=
    congrArg List.length hpermanent
  rw [bounded_iff]
  unfold excess at hlength
  omega

theorem bounded_of_sublist (hsub : s'.entries.items.Sublist s.entries.items) (h : Bounded p s) :
    Bounded p s' := by
  have hlength := hsub.length_le
  have httl := (hsub.filter Item.hasTtl).length_le
  rw [bounded_iff] at h ⊢
  rcases h with hfits | hpermanent
  · exact .inl (by omega)
  · exact .inr (by omega)

theorem deleteAll_sublist (keys : List Key) (s : ForbidSource T) :
    (deleteAll keys s).entries.items.Sublist s.entries.items := by
  change (keys.foldl Dict.pop s.entries).items.Sublist s.entries.items
  rw [Dict.items_foldl_pop]
  exact List.filter_sublist

theorem accepted_iff (a : AddArgs T) (s : ForbidSource T) :
    (add p a s).1 = true ↔ ∃ e, Op.stored p s (.add a) = some e := by
  change _ ↔ ∃ e, entryOfArgs p (p.clock s.clockReads) a = some e
  cases he : entryOfArgs p (p.clock s.clockReads) a with
  | none =>
    rw [add_refused p he]
    exact iff_of_false Bool.false_ne_true nofun
  | some e => exact iff_of_true (add_inserts p he).1 ⟨e, rfl⟩

variable [Add T] [LE T] [DecidableLE T]

theorem apply_advances (op : Op T) : Advances s (op.apply p s) := by
  cases op with
  | revoke r => exact (revoke_deletes p r s).advances
  | read => exact (refreshed_deletes p s).advances
  | add a =>
    change Advances s (add p a s).2
    cases he : entryOfArgs p (p.clock s.clockReads) a with
    | none =>
      rw [add_refused p he]
      exact Advances.refl s
    | some e =>
      have hlt := (add_inserts p he).2.epoch_lt
      exact ⟨hlt.le, fun heq => absurd heq hlt.ne⟩

theorem run_advances (ops : List (Op T)) : ∀ s : ForbidSource T, Advances s (run p s ops) := by
  induction ops with
  | nil => exact Advances.refl
  | cons op rest ih => exact fun s => (apply_advances op).trans (ih (op.apply p s))

theorem apply_bounded (op : Op T) (h : Bounded p s) : Bounded p (op.apply p s) := by
  cases op with
  | revoke r => exact bounded_of_sublist (deleteAll_sublist _ s) h
  | read => exact bounded_of_sublist (s := s) (deleteAll_sublist _ { s with clockReads := _ }) h
  | add a =>
    change Bounded p (add p a s).2
    cases he : entryOfArgs p (p.clock s.clockReads) a with
    | none =>
      rw [add_refused p he]
      exact h
    | some e => exact (add_inserts p he).2.bounded

theorem run_bounded (ops : List (Op T)) : ∀ s : ForbidSource T, Bounded p s → Bounded p (run p s ops) := by
  induction ops with
  | nil => exact fun s h => h
  | cons op rest ih => exact fun s h => ih (op.apply p s) (apply_bounded op h)

/-- The epoch versions the stored entries, and from an accepted insertion on the
store is within its bound. -/
theorem epoch_versions (p : Config T) (seeds : List (ForbidEntry T)) (calls : List (Call T)) :
    (∀ before middle after, calls.flatMap (Call.ops p) = before ++ middle ++ after →
      (run p (make p seeds) before).epoch ≤ (run p (make p seeds) (before ++ middle)).epoch ∧
      ((run p (make p seeds) before).epoch = (run p (make p seeds) (before ++ middle)).epoch →
        (run p (make p seeds) (before ++ middle)).entries.items =
          (run p (make p seeds) before).entries.items)) ∧
    (∀ before op after, calls.flatMap (Call.ops p) = before ++ op :: after →
      (run p (make p seeds) (before ++ [op])).entries.items ≠
          (run p (make p seeds) before).entries.items →
        (run p (make p seeds) before).epoch < (run p (make p seeds) (before ++ [op])).epoch) ∧
    ∀ before a middle after, calls.flatMap (Call.ops p) = before ++ .add a :: middle ++ after →
      (add p a (run p (make p seeds) before)).1 = true →
        (run p (make p seeds) before).epoch < (run p (make p seeds) (before ++ [.add a])).epoch ∧
        Bounded p (run p (make p seeds) (before ++ .add a :: middle)) := by
  refine ⟨fun before middle after _ => ?_, fun before op after _ hchanged => ?_,
    fun before a middle after _ haccepted => ?_⟩
  · rw [run_append]
    have hadvances := run_advances (p := p) middle (run p (make p seeds) before)
    exact ⟨hadvances.le, hadvances.same⟩
  · rw [run_concat] at hchanged ⊢
    have hadvances := apply_advances (p := p) (s := run p (make p seeds) before) op
    exact lt_of_le_of_ne hadvances.le fun heq => hchanged (hadvances.same heq)
  · obtain ⟨e, he⟩ := (accepted_iff a _).mp haccepted
    have hinserts := (add_inserts p he).2
    refine ⟨?_, ?_⟩
    · rw [run_concat]
      exact hinserts.epoch_lt
    · rw [run_append]
      exact run_bounded middle _ hinserts.bounded

/-- A source constructed over its bound stays over it while insertions are
refused. -/
theorem overfull_seeds_stay :
    (add { hourly with maxEntries := 1 } ⟨operatorAddress, 0, none, [], none, .useDefault⟩
      (make { hourly with maxEntries := 1 }
        [⟨operatorAddress, 443, none, [], none, 0, some 3600⟩,
          ⟨operatorAddress, 8080, none, [], none, 0, some 3600⟩])).1 = false ∧
    ¬Bounded { hourly with maxEntries := 1 }
      (add { hourly with maxEntries := 1 } ⟨operatorAddress, 0, none, [], none, .useDefault⟩
        (make { hourly with maxEntries := 1 }
          [⟨operatorAddress, 443, none, [], none, 0, some 3600⟩,
            ⟨operatorAddress, 8080, none, [], none, 0, some 3600⟩])).2 := by
  decide

end TexGovernance.Forbid
