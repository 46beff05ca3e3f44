import TexGovernance.Forbid.Retention

/-!
# Tenants

A tenant is normalised in the key, stored as it was given, and compared on a read after a
normalisation of its own.
-/

namespace TexGovernance.Forbid
open PyStr CaseFold PyDict

section Scopes

variable {T : Type} (fold : CaseFolding)

def InScope (tenant : Option Str) (e : ForbidEntry T) : Prop :=
  normTenant fold e.tenant = none ∨ normTenant fold e.tenant = normTenant fold tenant

def BlankText (e : ForbidEntry T) : Prop := e.tenant ≠ none ∧ normTenant fold e.tenant = none

theorem orNone_eq_none_iff (s : Str) : orNone s = none ↔ s = [] := by
  unfold orNone
  split <;> simp_all

theorem orNone_inj {s t : Str} : orNone s = orNone t ↔ s = t := by
  constructor
  · intro h
    by_cases hs : s = []
    · rw [(orNone_eq_none_iff s).mpr hs] at h
      rw [hs, (orNone_eq_none_iff t).mp h.symm]
    · have ht : t ≠ [] := fun ht => hs ((orNone_eq_none_iff s).mp (h.trans ((orNone_eq_none_iff t).mpr ht)))
      unfold orNone at h
      rw [if_neg hs, if_neg ht] at h
      exact Option.some.inj h
  · exact congrArg orNone

theorem normTenant_eq (tenant : Option Str) :
    normTenant fold tenant = orNone (fold.clean (tenant.getD [])) := by
  cases tenant with
  | none => rfl
  | some tenant => rfl

theorem normTenant_normTenant (tenant : Option Str) :
    normTenant fold (normTenant fold tenant) = normTenant fold tenant := by
  rw [normTenant_eq fold tenant]
  by_cases hblank : fold.clean (tenant.getD []) = []
  · rw [(orNone_eq_none_iff _).mpr hblank]
    rfl
  · have hsome : orNone (fold.clean (tenant.getD [])) = some (fold.clean (tenant.getD [])) := if_neg hblank
    rw [hsome, normTenant_eq, Option.getD_some, fold.clean_clean, hsome]

theorem emittedFor_iff (p : Config T) (tenant : Option Str) (e : ForbidEntry T) :
    emittedFor p (p.fold.clean (tenant.getD [])) e = true ↔
      InScope p.fold tenant e ∧ (BlankText p.fold e → normTenant p.fold tenant = none) := by
  unfold emittedFor InScope BlankText
  cases he : e.tenant with
  | none => simp [normTenant]
  | some own =>
    rw [normTenant_eq p.fold tenant, normTenant_eq p.fold (some own), Option.getD_some,
      orNone_inj, orNone_eq_none_iff, orNone_eq_none_iff]
    simp only [decide_eq_true_eq]
    constructor
    · intro hsame
      exact ⟨.inr hsame, fun hblank => hsame ▸ hblank.2⟩
    · intro ⟨hscope, hblank⟩
      rcases hscope with hown | hsame
      · rw [hown, hblank ⟨Option.some_ne_none own, hown⟩]
      · exact hsame

end Scopes

variable {T : Type} (p : Config T)

theorem mem_of_mem_emit {d : Str × ℤ} (l : List (Str × ℤ)) :
    ∀ out, d ∈ emit l out → d ∈ out ∨ d ∈ l := by
  induction l with
  | nil => exact fun out h => .inl h
  | cons first rest ih =>
    intro out h
    unfold emit at h
    rw [List.mem_cons]
    have hout : d ∈ out ++ [first] → d ∈ out ∨ d = first ∨ d ∈ rest := by
      intro hmem
      rcases List.mem_append.mp hmem with hold | hnew
      · exact .inl hold
      · exact .inr (.inl (List.mem_singleton.mp hnew))
    split at h
    · rcases ih out h with hold | hrest
      · exact .inl hold
      · exact .inr (.inr hrest)
    · split at h
      · exact hout h
      · rcases ih _ h with hold | hrest
        · exact hout hold
        · exact .inr (.inr hrest)

theorem mem_emit {d : Str × ℤ} (l : List (Str × ℤ)) :
    ∀ out, (emit l out).length < maxEmitted → d ∈ out ∨ d ∈ l → d ∈ emit l out := by
  induction l with
  | nil =>
    intro out _ h
    exact h.resolve_right List.not_mem_nil
  | cons first rest ih =>
    intro out hcap h
    rw [List.mem_cons] at h
    unfold emit at hcap ⊢
    by_cases hseen : first ∈ out
    · rw [if_pos hseen] at hcap ⊢
      refine ih out hcap ?_
      rcases h with hold | rfl | hrest
      · exact .inl hold
      · exact .inl hseen
      · exact .inr hrest
    · rw [if_neg hseen] at hcap ⊢
      by_cases hfull : maxEmitted ≤ (out ++ [first]).length
      · rw [if_pos hfull] at hcap
        omega
      · rw [if_neg hfull] at hcap ⊢
        refine ih _ hcap ?_
        rcases h with hold | rfl | hrest
        · exact .inl (List.mem_append_left _ hold)
        · exact .inl (List.mem_append_right _ (List.mem_singleton_self _))
        · exact .inr hrest

def Keyed (s : ForbidSource T) : Prop := ∀ k e, (k, e) ∈ s.entries.items → k = e.key p.fold

theorem keyed_make (seeds : List (ForbidEntry T)) : Keyed p (make p seeds) := by
  unfold make
  induction seeds using List.reverseRecOn with
  | nil => exact fun k e h => absurd h List.not_mem_nil
  | append_singleton seeds e ih =>
    rw [List.foldl_concat]
    intro k e' h
    rw [upsert_items] at h
    rcases (mem_inserted k e').mp h with ⟨hold, -⟩ | ⟨rfl, rfl⟩
    · exact ih k e' hold
    · rfl

theorem Deletes.keyed {s s' : ForbidSource T} {gone : Key → ForbidEntry T → Prop}
    (h : Deletes s s' gone) (hkeyed : Keyed p s) : Keyed p s' :=
  fun k e hmem => hkeyed k e ((h.mem k e).mp hmem).1

theorem Inserts.keyed {s s' : ForbidSource T} {e : ForbidEntry T} (h : Inserts p s s' e)
    (hkeyed : Keyed p s) : Keyed p s' := by
  intro k e' hmem
  rcases (mem_inserted k e').mp ((h.mem k e').mp hmem).1 with ⟨hold, -⟩ | ⟨rfl, rfl⟩
  · exact hkeyed k e' hold
  · rfl

theorem feed_cases (f : FeedArgs) (s : ForbidSource T) :
    (feedFromDecision p f s).2 = s ∨
      ∃ e, e.tenant = normTenant p.fold f.tenant ∧ Inserts p s (feedFromDecision p f s).2 e := by
  unfold feedFromDecision
  cases fedHost p f with
  | none => exact .inl rfl
  | some host =>
    simp only [defaultPorts, addHost]
    cases he : entryOfArgs p (p.clock s.clockReads) (fedArgs p f host) with
    | none =>
      left
      change (add p (fedArgs p f host) s).2 = s
      rw [add_refused p he]
    | some e =>
      right
      refine ⟨e, ?_, (add_inserts p he).2⟩
      unfold entryOfArgs at he
      split at he
      · cases he
      · obtain ⟨port, -, rfl⟩ := Option.map_eq_some_iff.mp he
        rfl

theorem not_blankText_of_normalised {e : ForbidEntry T} {tenant : Option Str}
    (h : e.tenant = normTenant p.fold tenant) : ¬BlankText p.fold e := by
  intro ⟨hsome, hnone⟩
  rw [h, normTenant_normTenant] at hnone
  exact hsome (h.trans hnone)

variable [Add T] [LE T] [DecidableLE T]

def Live (s : ForbidSource T) (k : Key) (e : ForbidEntry T) : Prop :=
  (k, e) ∈ s.entries.items ∧ e.isExpired (p.clock s.clockReads) = false

theorem mem_refreshed (s : ForbidSource T) (k : Key) (e : ForbidEntry T) :
    (k, e) ∈ (refreshed p s).entries.items ↔ Live p s k e := by
  rw [(refreshed_deletes p s).mem, Bool.not_eq_true]
  rfl

theorem mem_visible (s : ForbidSource T) (tenant : Option Str) (d : Str × ℤ) :
    d ∈ (((refreshed p s).entries.items.map Prod.snd).filter
        (emittedFor p (p.fold.clean (tenant.getD [])))).flatMap (destinations p) ↔
      ∃ k e, Live p s k e ∧ (InScope p.fold tenant e ∧
        (BlankText p.fold e → normTenant p.fold tenant = none)) ∧ d ∈ destinations p e := by
  rw [List.mem_flatMap]
  constructor
  · rintro ⟨e, he, hd⟩
    obtain ⟨hmem, hvisible⟩ := List.mem_filter.mp he
    obtain ⟨⟨k, e'⟩, hitem, rfl⟩ := List.mem_map.mp hmem
    exact ⟨k, e', (mem_refreshed p s k e').mp hitem, (emittedFor_iff p tenant e').mp hvisible, hd⟩
  · rintro ⟨k, e, hlive, hvisible, hd⟩
    refine ⟨e, List.mem_filter.mpr ⟨?_, (emittedFor_iff p tenant e).mpr hvisible⟩, hd⟩
    exact List.mem_map.mpr ⟨(k, e), (mem_refreshed p s k e).mpr hlive, rfl⟩

theorem mem_of_mem_forTenant {s : ForbidSource T} {tenant : Option Str} {d : Str × ℤ}
    (h : d ∈ (forTenant p tenant s).1) : ∃ k e, Live p s k e ∧ (InScope p.fold tenant e ∧
      (BlankText p.fold e → normTenant p.fold tenant = none)) ∧ d ∈ destinations p e := by
  unfold forTenant emittedSet at h
  rw [List.mem_insertionSort] at h
  exact (mem_visible p s tenant d).mp ((mem_of_mem_emit _ _ h).resolve_left List.not_mem_nil)

theorem mem_forTenant {s : ForbidSource T} {tenant : Option Str}
    (hcap : (forTenant p tenant s).1.length < maxEmitted) (d : Str × ℤ) :
    d ∈ (forTenant p tenant s).1 ↔ ∃ k e, Live p s k e ∧ (InScope p.fold tenant e ∧
      (BlankText p.fold e → normTenant p.fold tenant = none)) ∧ d ∈ destinations p e := by
  refine ⟨mem_of_mem_forTenant p, fun h => ?_⟩
  unfold forTenant emittedSet at hcap ⊢
  rw [List.length_insertionSort] at hcap
  rw [List.mem_insertionSort]
  exact mem_emit _ _ hcap (.inr ((mem_visible p s tenant d).mpr h))

theorem keyed_step {s : ForbidSource T} (hkeyed : Keyed p s) (op : Op T) : Keyed p (op.apply p s) := by
  cases op with
  | revoke r => exact (revoke_deletes p r s).keyed p hkeyed
  | read => exact (refreshed_deletes p s).keyed p hkeyed
  | add a =>
    change Keyed p (add p a s).2
    cases he : entryOfArgs p (p.clock s.clockReads) a with
    | none =>
      rw [add_refused p he]
      exact hkeyed
    | some e => exact (add_inserts p he).2.keyed p hkeyed

theorem keyed_run (seeds : List (ForbidEntry T)) (calls : List (Call T)) :
    Keyed p (runCalls p (make p seeds) calls) := by
  rw [runCalls_eq_run]
  generalize calls.flatMap (Call.ops p) = ops
  induction ops using List.reverseRecOn with
  | nil => exact keyed_make p seeds
  | append_singleton ops op ih =>
    rw [run_concat]
    exact keyed_step p ih op


structure Scoping (s : ForbidSource T) : Prop where
  stored : ∀ k e, (k, e) ∈ s.entries.items → k = e.key p.fold
  emitted : ∀ tenant d, d ∈ (forTenant p tenant s).1 →
    ∃ k e, Live p s k e ∧ InScope p.fold tenant e ∧ d ∈ destinations p e
  complete : ∀ tenant, (forTenant p tenant s).1.length < maxEmitted → ∀ k e, Live p s k e →
    InScope p.fold tenant e → (BlankText p.fold e → normTenant p.fold tenant = none) →
      ∀ d ∈ destinations p e, d ∈ (forTenant p tenant s).1
  revoked : ∀ r : RevokeArgs, r.tenant ≠ none → ∀ k e,
    (k, e) ∈ (revoke p r s).2.entries.items ↔ (k, e) ∈ s.entries.items ∧
      ¬(p.fold.clean r.host ≠ [] ∧ p.fold.clean e.host = p.fold.clean r.host ∧
        (∀ port ∈ r.port, e.port = port) ∧ normTenant p.fold e.tenant = normTenant p.fold r.tenant)
  fed : ∀ f k e, (k, e) ∈ (feedFromDecision p f s).2.entries.items → (k, e) ∉ s.entries.items →
    ¬BlankText p.fold e ∧ normTenant p.fold e.tenant = normTenant p.fold f.tenant ∧
      ∀ tenant, normTenant p.fold f.tenant ≠ none →
        normTenant p.fold tenant ≠ normTenant p.fold f.tenant → ¬InScope p.fold tenant e
  displaced : ∀ f k e, (k, e) ∈ s.entries.items →
    (k, e) ∉ (feedFromDecision p f s).2.entries.items →
      normTenant p.fold e.tenant = normTenant p.fold f.tenant ∨
        e.ttlSeconds ≠ none ∧ ∃ fed, Inserts p s (feedFromDecision p f s).2 fed ∧
          p.maxEntries < (inserted p s fed).length ∧ (k, e) ∈ evictees p (inserted p s fed)

theorem scoping_of_keyed {s : ForbidSource T} (hkeyed : Keyed p s) : Scoping p s where
  stored := hkeyed
  emitted tenant d hd := by
    obtain ⟨k, e, hlive, ⟨hscope, -⟩, hmem⟩ := mem_of_mem_forTenant p hd
    exact ⟨k, e, hlive, hscope, hmem⟩
  complete tenant hcap k e hlive hscope hblank d hd :=
    (mem_forTenant p hcap d).mpr ⟨k, e, hlive, ⟨hscope, hblank⟩, hd⟩
  revoked r htenant k e := by
    rw [(revoke_deletes p r s).mem]
    refine and_congr_right fun hmem => not_congr ?_
    rw [hkeyed k e hmem]
    exact and_congr_right fun _ => and_congr_right fun _ => and_congr_right fun _ =>
      ⟨fun h => h htenant, fun h _ => h⟩
  fed f k e hmem hnew := by
    rcases feed_cases p f s with hsame | ⟨fed, htenant, hinserts⟩
    · rw [hsame] at hmem
      exact absurd hmem hnew
    · rcases (mem_inserted k e).mp ((hinserts.mem k e).mp hmem).1 with ⟨hold, -⟩ | ⟨-, rfl⟩
      · exact absurd hold hnew
      · have hscope : normTenant p.fold e.tenant = normTenant p.fold f.tenant := by
          rw [htenant, normTenant_normTenant]
        refine ⟨not_blankText_of_normalised p htenant, hscope, fun tenant hsome hother hin => ?_⟩
        rcases hin with hglobal | hsame
        · exact hsome (hscope.symm.trans hglobal)
        · exact hother (hsame.symm.trans hscope)
  displaced f k e hmem hgone := by
    rcases feed_cases p f s with hsame | ⟨fed, htenant, hinserts⟩
    · rw [hsame] at hgone
      exact absurd hmem hgone
    · by_cases hkey : k = fed.key p.fold
      · left
        have hscope := congrArg Key.tenant ((hkeyed k e hmem).symm.trans hkey)
        change normTenant p.fold e.tenant = normTenant p.fold fed.tenant at hscope
        rw [hscope, htenant, normTenant_normTenant]
      · right
        have hevicted : (k, e) ∈ evictees p (inserted p s fed) := by
          by_contra hkept
          exact hgone ((hinserts.mem k e).mpr ⟨(mem_inserted k e).mpr (.inl ⟨hmem, hkey⟩), hkept⟩)
        exact ⟨evictees_ttl hevicted, fed, hinserts, evictees_full hevicted, hevicted⟩

/-- The scopes of every source, after any calls. -/
theorem tenant_scoping (seeds : List (ForbidEntry T)) (calls : List (Call T)) :
    Scoping p (runCalls p (make p seeds) calls) :=
  scoping_of_keyed p (keyed_run p seeds calls)

def single : Config ℕ :=
  { hourly with clock := fun _ => 0, maxEntries := 1, ipVersion := fun _ => some 4 }

def forbidFor (tenant host : Str) : Call ℕ :=
  .feedFromDecision { liveForbid with recipient := some host, tenant := some tenant }

def firstTenant : Str := lit ['a']

def secondTenant : Str := lit ['b']

def otherAddress : Str := lit ['5', '.', '6', '.', '7', '.', '8']

/-- A forbid fed for one tenant displaces the entry of another: the cap drops it. -/
theorem other_tenant_evicted :
    let before := runCalls single (make single []) [forbidFor firstTenant operatorAddress]
    let after := (forbidFor secondTenant otherAddress).apply single before
    normTenant single.fold (some firstTenant) ≠ normTenant single.fold (some secondTenant) ∧
      before.entries.keys = [keyOf single.fold operatorAddress 443 (some firstTenant)] ∧
      after.entries.keys = [keyOf single.fold otherAddress 443 (some secondTenant)] ∧
      (forTenant single (some firstTenant) before).1 = [(operatorAddress, 443)] ∧
      (forTenant single (some firstTenant) after).1 = [] := by
  refine ⟨?_, ?_, ?_, ?_, ?_⟩ <;> decide

end TexGovernance.Forbid
