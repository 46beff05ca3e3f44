import TexGovernance.Provenance.LedgerChain
import Mathlib.Data.List.Dedup

/-!
# Missing sequence numbers

What `_identity_sequence_gaps` finds in a list of pairs, and what `verify_no_gaps` finds in the
records of a run.
-/

namespace TexGovernance.Provenance
open PyStr PyDict PyJson Pipeline

def seqsOf (key : Str) (items : List (Str × ℤ)) : List ℤ :=
  items.filterMap fun e => if e.1 = key then some e.2 else none

theorem seqsOf_cons_self (key : Str) (s : ℤ) (items : List (Str × ℤ)) :
    seqsOf key ((key, s) :: items) = s :: seqsOf key items := by
  unfold seqsOf
  rw [List.filterMap_cons, if_pos rfl]

theorem seqsOf_cons_ne {key key' : Str} (h : key' ≠ key) (s : ℤ) (items : List (Str × ℤ)) :
    seqsOf key ((key', s) :: items) = seqsOf key items := by
  unfold seqsOf
  rw [List.filterMap_cons, if_neg h]

theorem seqsOf_append (key : Str) (items more : List (Str × ℤ)) :
    seqsOf key (items ++ more) = seqsOf key items ++ seqsOf key more := List.filterMap_append

theorem groupByIdentity_get? (items : List (Str × ℤ)) (key : Str) :
    (groupByIdentity items).get? key =
      if seqsOf key items = [] then none else some (seqsOf key items) := by
  -- the fold from any dictionary appends the numbers of each key
  have hfold : ∀ d : Dict Str (List ℤ),
      (items.foldl (fun d e => d.set e.1 ((d.get? e.1).getD [] ++ [e.2])) d).get? key =
        if seqsOf key items = [] then d.get? key
        else some ((d.get? key).getD [] ++ seqsOf key items) := by
    induction items with
    | nil =>
      intro d
      rfl
    | cons e items ih =>
      intro d
      obtain ⟨key', s⟩ := e
      rw [List.foldl_cons, ih, Dict.get?_set]
      by_cases hkey : key' = key
      · subst hkey
        rw [seqsOf_cons_self, if_pos rfl, if_neg (List.cons_ne_nil _ _)]
        by_cases hnil : seqsOf key' items = []
        · rw [if_pos hnil, hnil]
        · rw [if_neg hnil, Option.getD_some, List.append_assoc, List.singleton_append]
      · rw [seqsOf_cons_ne hkey, if_neg (Ne.symm hkey)]
  exact hfold Dict.empty

theorem reported_get? {f : List ℤ → List ℤ} (hf : f [] = []) (items : List (Str × ℤ)) (key : Str) :
    (nonemptyEntries f (groupByIdentity items)).get? key =
      if (f (seqsOf key items)).isEmpty then none else some (f (seqsOf key items)) := by
  unfold nonemptyEntries
  rw [Dict.get?_collect, groupByIdentity_get?]
  by_cases hnil : seqsOf key items = []
  · rw [if_pos hnil, hnil, hf]
    rfl
  · rw [if_neg hnil]
    rfl

theorem reported_empty_iff {f : List ℤ → List ℤ} (hf : f [] = []) (items : List (Str × ℤ)) :
    (nonemptyEntries f (groupByIdentity items)).items = [] ↔ ∀ key, f (seqsOf key items) = [] := by
  rw [Dict.items_eq_nil_iff]
  refine forall_congr' fun key => ?_
  rw [reported_get? hf]
  by_cases hempty : (f (seqsOf key items)).isEmpty = true
  · rw [if_pos hempty]
    exact ⟨fun _ => List.isEmpty_iff.mp hempty, fun _ => rfl⟩
  · rw [if_neg hempty]
    constructor
    · intro h
      cases h
    · intro h
      exact absurd (List.isEmpty_iff.mpr h) hempty

theorem complete_iff (items : List (Option Str × Option ℤ)) :
    (identitySequenceGaps items).complete = true ↔
      ∀ key, missingSeqs (seqsOf key (sequencedItems items)) = [] ∧
        repeatedSeqs (seqsOf key (sequencedItems items)) = [] := by
  unfold identitySequenceGaps
  simp only [Bool.and_eq_true, List.isEmpty_iff]
  rw [reported_empty_iff rfl, reported_empty_iff rfl, forall_and]

theorem mem_missingSeqs (seqs : List ℤ) (i : ℤ) :
    i ∈ missingSeqs seqs ↔ 0 ≤ i ∧ (∃ top ∈ seqs, i ≤ top) ∧ i ∉ seqs := by
  unfold missingSeqs
  cases htop : seqs.max? with
  | none =>
    have hnil : seqs = [] := List.max?_eq_none_iff.mp htop
    rw [hnil]
    simp
  | some top =>
    obtain ⟨hmem, hle⟩ := List.max?_eq_some_iff.mp htop
    simp only [List.mem_filter, List.mem_map, List.mem_range, decide_eq_true_eq]
    constructor
    · rintro ⟨⟨n, hn, rfl⟩, hnot⟩
      refine ⟨Int.natCast_nonneg n, ⟨top, hmem, ?_⟩, hnot⟩
      show (n : ℤ) ≤ top
      omega
    · rintro ⟨hpos, ⟨t, ht, hit⟩, hnot⟩
      have htop' := hle t ht
      refine ⟨⟨i.toNat, by omega, ?_⟩, hnot⟩
      exact Int.toNat_of_nonneg hpos

theorem missingSeqs_eq_nil_iff (seqs : List ℤ) :
    missingSeqs seqs = [] ↔ ∀ i top, 0 ≤ i → top ∈ seqs → i ≤ top → i ∈ seqs := by
  rw [List.eq_nil_iff_forall_not_mem]
  simp only [mem_missingSeqs, not_and, not_not, forall_exists_index, and_imp]
  exact ⟨fun h i top hi htop hle => h i hi top htop hle, fun h i hi top htop hle => h i top hi htop hle⟩

theorem repeatedSeqs_eq_nil_iff (seqs : List ℤ) : repeatedSeqs seqs = [] ↔ seqs.Nodup := by
  have hsorted : repeatedSeqs seqs = [] ↔ ∀ s ∈ seqs, ¬ 1 < seqs.count s := by
    unfold repeatedSeqs
    rw [← List.length_eq_zero_iff, List.length_insertionSort, List.length_eq_zero_iff,
      List.filter_eq_nil_iff]
    simp only [List.mem_dedup, decide_eq_true_eq]
  rw [hsorted, List.nodup_iff_count_le_one]
  constructor
  · intro h s
    by_cases hs : s ∈ seqs
    · exact Nat.le_of_not_lt (h s hs)
    · rw [List.count_eq_zero_of_not_mem hs]
      exact Nat.zero_le 1
  · intro h s _
    exact Nat.not_lt.mpr (h s)

/-- The numbers are exactly `0, …, n - 1`, each once. -/
def Contiguous (seqs : List ℤ) : Prop := ∃ n : ℕ, seqs.Perm ((List.range n).map Int.ofNat)

theorem mem_range_cast {n : ℕ} {i : ℤ} : i ∈ (List.range n).map Int.ofNat ↔ 0 ≤ i ∧ i < n := by
  simp only [List.mem_map, List.mem_range]
  constructor
  · rintro ⟨m, hm, rfl⟩
    exact ⟨Int.natCast_nonneg m, Int.ofNat_lt.mpr hm⟩
  · rintro ⟨hpos, hlt⟩
    exact ⟨i.toNat, by omega, Int.toNat_of_nonneg hpos⟩

theorem nodup_range_cast (n : ℕ) : ((List.range n).map Int.ofNat).Nodup :=
  List.nodup_range.map fun _ _ h => Int.ofNat.inj h

theorem contiguous_iff (seqs : List ℤ) :
    Contiguous seqs ↔
      (∀ s ∈ seqs, 0 ≤ s) ∧ missingSeqs seqs = [] ∧ repeatedSeqs seqs = [] := by
  rw [missingSeqs_eq_nil_iff, repeatedSeqs_eq_nil_iff]
  constructor
  · rintro ⟨n, hperm⟩
    have hmem : ∀ i, i ∈ seqs ↔ 0 ≤ i ∧ i < n := fun i => hperm.mem_iff.trans mem_range_cast
    refine ⟨fun s hs => ((hmem s).mp hs).1, ?_, hperm.nodup_iff.mpr (nodup_range_cast n)⟩
    intro i top hi htop hle
    have hlt := ((hmem top).mp htop).2
    exact (hmem i).mpr ⟨hi, by omega⟩
  · rintro ⟨hpos, hfull, hnodup⟩
    cases hmax : seqs.max? with
    | none =>
      have hnil : seqs = [] := List.max?_eq_none_iff.mp hmax
      rw [hnil]
      exact ⟨0, List.Perm.refl _⟩
    | some top =>
      obtain ⟨htop, hle⟩ := List.max?_eq_some_iff.mp hmax
      have hnonneg := hpos top htop
      refine ⟨top.toNat + 1, (List.perm_ext_iff_of_nodup hnodup (nodup_range_cast _)).mpr ?_⟩
      intro i
      rw [mem_range_cast]
      constructor
      · intro hi
        have hi' := hle i hi
        exact ⟨hpos i hi, by omega⟩
      · rintro ⟨hi, hlt⟩
        exact hfull i top hi htop (by omega)

def GapsVisible (items : List (Str × ℤ)) : Prop :=
  (∀ key, ∀ s ∈ seqsOf key items, 0 ≤ s) ∨
  ∃ key, ¬ (seqsOf key items).Nodup ∨
    ∃ i, ∃ top ∈ seqsOf key items, 0 ≤ i ∧ i < top ∧ i ∉ seqsOf key items

theorem complete_exact_iff (items : List (Option Str × Option ℤ)) :
    ((identitySequenceGaps items).complete = true ↔
      ∀ key, Contiguous (seqsOf key (sequencedItems items))) ↔ GapsVisible (sequencedItems items) := by
  have hcontiguous : (∀ key, Contiguous (seqsOf key (sequencedItems items))) ↔
      (∀ key, ∀ s ∈ seqsOf key (sequencedItems items), 0 ≤ s) ∧
        (identitySequenceGaps items).complete = true := by
    rw [complete_iff, ← forall_and]
    exact forall_congr' fun key => contiguous_iff _
  have hincomplete : (identitySequenceGaps items).complete ≠ true ↔
      ∃ key, ¬ (seqsOf key (sequencedItems items)).Nodup ∨
        ∃ i, ∃ top ∈ seqsOf key (sequencedItems items), 0 ≤ i ∧ i < top ∧
          i ∉ seqsOf key (sequencedItems items) := by
    rw [Ne, complete_iff, not_forall]
    refine exists_congr fun key => ?_
    rw [missingSeqs_eq_nil_iff, repeatedSeqs_eq_nil_iff]
    constructor
    · intro h
      by_cases hnodup : (seqsOf key (sequencedItems items)).Nodup
      · right
        have hmissing : ¬ ∀ i top, 0 ≤ i → top ∈ seqsOf key (sequencedItems items) → i ≤ top →
            i ∈ seqsOf key (sequencedItems items) := fun hfull => h ⟨hfull, hnodup⟩
        push Not at hmissing
        obtain ⟨i, top, hi, htop, hle, hnot⟩ := hmissing
        refine ⟨i, top, htop, hi, lt_of_le_of_ne hle ?_, hnot⟩
        rintro rfl
        exact hnot htop
      · exact .inl hnodup
    · rintro (hrepeated | ⟨i, top, htop, hi, hlt, hnot⟩) ⟨hfull, hnodup⟩
      · exact hrepeated hnodup
      · exact hnot (hfull i top hi htop hlt.le)
  unfold GapsVisible
  rw [hcontiguous, ← hincomplete]
  constructor
  · intro h
    by_cases hcomplete : (identitySequenceGaps items).complete = true
    · exact .inl (h.mp hcomplete).1
    · exact .inr hcomplete
  · rintro (hpos | hcomplete)
    · exact ⟨fun h => ⟨hpos, h⟩, fun h => h.2⟩
    · exact ⟨fun h => absurd h hcomplete, fun h => h.2⟩

section Run

variable {sign : Str → Except PyErr Str} (strOf : PyObj → Except PyErr Str)
variable (intOf : PyObj → Except PyErr ℤ)

def identityKey : Str := txt "identity_key"

def identitySeq : Str := txt "identity_seq"

def identityPair (fact : SealedFact) : Option (Str × ℤ) :=
  match fact.detail.get? identityKey, fact.detail.get? identitySeq with
  | some (.str key), some (.int seq) => some (key, seq)
  | _, _ => none

def Readable (fact : SealedFact) : Prop :=
  (∃ pair, identityPair fact = some pair) ∨
    (fact.detail.get? identityKey = none ∧ fact.detail.get? identitySeq = none)

def optionPair : Option (Str × ℤ) → Option Str × Option ℤ
  | none => (none, none)
  | some (key, seq) => (some key, some seq)

theorem identityOf_readable {fact : SealedFact} (h : Readable fact) :
    identityOf strOf intOf fact = .ok (optionPair (identityPair fact)) := by
  rcases h with ⟨⟨key, seq⟩, hpair⟩ | ⟨hkey, hseq⟩
  · have hfields : fact.detail.get? identityKey = some (.str key) ∧
        fact.detail.get? identitySeq = some (.int seq) := by
      unfold identityPair at hpair
      split at hpair
      · rename_i hkey hseq
        obtain ⟨rfl, rfl⟩ := Prod.mk.inj (Option.some.inj hpair)
        exact ⟨hkey, hseq⟩
      · cases hpair
    rw [hpair]
    unfold identityOf
    rw [← identityKey, ← identitySeq, hfields.1, hfields.2]
    rfl
  · unfold identityOf identityPair
    rw [← identityKey, ← identitySeq, hkey, hseq]
    rfl

theorem sequencedItems_optionPair (pairs : List (Option (Str × ℤ))) :
    sequencedItems (pairs.map optionPair) = pairs.filterMap id := by
  induction pairs with
  | nil => rfl
  | cons pair pairs ih =>
    cases pair with
    | none => exact ih
    | some pair => exact congrArg (pair :: ·) ih

/-- The pairs of a list of records. -/
def pairsOf (records : List SealedFactRecord) : List (Str × ℤ) :=
  records.filterMap fun rec => identityPair rec.fact

theorem pairsOf_concat (records : List SealedFactRecord) (rec : SealedFactRecord) :
    pairsOf (records ++ [rec]) = pairsOf records ++ (identityPair rec.fact).toList := by
  unfold pairsOf
  rw [List.filterMap_append, List.filterMap_cons]
  cases identityPair rec.fact with
  | none => rfl
  | some pair => rfl

theorem verifyNoGaps_readable {records : List SealedFactRecord}
    (h : ∀ rec ∈ records, Readable rec.fact) :
    ∃ items, sequencedItems items = pairsOf records ∧
      verifyNoGaps strOf intOf records = .ok (identitySequenceGaps items) := by
  refine ⟨(records.map fun rec => identityPair rec.fact).map optionPair, ?_, ?_⟩
  · rw [sequencedItems_optionPair, List.filterMap_map]
    rfl
  · have hitems : records.mapM (fun rec => identityOf strOf intOf rec.fact) =
        .ok ((records.map fun rec => identityPair rec.fact).map optionPair) := by
      induction records with
      | nil => rfl
      | cons rec rest ih =>
        rw [List.mapM_cons, identityOf_readable strOf intOf (h rec (List.mem_cons_self ..)),
          ih fun r hr => h r (List.mem_cons_of_mem _ hr)]
        rfl
    unfold verifyNoGaps
    rw [hitems]
    rfl

def DefaultMode : AppendCall → Prop
  | .append fact => fact.detail.get? identityKey = none ∧ fact.detail.get? identitySeq = none
  | .appendSequenced _ _ claimed => claimed = none

def indexed (l : SealedFactLedger) (key : Str) : ℕ := ((l.byIdentity.get? key).getD []).length

structure Numbered (l : SealedFactLedger) : Prop where
  readable : ∀ rec ∈ l.entries, Readable rec.fact
  seqs_eq : ∀ key, seqsOf key (pairsOf l.entries) = (List.range (indexed l key)).map Int.ofNat

theorem identityPair_sequencedFact (fact : SealedFact) (key : Str) (seq : ℤ) :
    identityPair (sequencedFact fact key seq) = some (key, seq) := by
  have hne : identityKey ≠ identitySeq := by decide
  unfold identityPair sequencedFact
  change (match ((fact.detail.set identityKey (.str key)).set identitySeq (.int seq)).get? identityKey,
    ((fact.detail.set identityKey (.str key)).set identitySeq (.int seq)).get? identitySeq with
    | some (.str key), some (.int seq) => some (key, seq)
    | _, _ => none) = _
  rw [Dict.get?_set, if_neg hne, Dict.get?_set, if_pos rfl, Dict.get?_set, if_pos rfl]

theorem numbered_append {l l' : SealedFactLedger} {fact : SealedFact} {rec : SealedFactRecord}
    (h : Numbered l) (hfact : fact.detail.get? identityKey = none ∧ fact.detail.get? identitySeq = none)
    (happend : append sign l fact = .ok (rec, l')) : Numbered l' := by
  obtain ⟨rfl, rfl, -, -⟩ := appendLocked_spec happend
  have hpair : identityPair rec.fact = none := by
    unfold identityPair
    rw [hfact.1]
  constructor
  · intro r hr
    rcases List.mem_append.mp hr with hr | hr
    · exact h.readable r hr
    · rw [List.mem_singleton.mp hr]
      exact .inr hfact
  · intro key
    show seqsOf key (pairsOf (l.entries ++ [rec])) = _
    rw [pairsOf_concat, hpair, Option.toList_none, List.append_nil, h.seqs_eq key]
    rfl

theorem numbered_appendSequenced {l l' : SealedFactLedger} {fact : SealedFact} {key : Str}
    {rec : SealedFactRecord} (h : Numbered l)
    (happend : appendSequenced sign l fact key none = .ok (rec, l')) : Numbered l' := by
  obtain ⟨hlocked, rfl⟩ := appendSequenced_spec happend
  obtain ⟨-, hfact, -, -⟩ := appendLocked_spec hlocked
  have hpair : identityPair rec.fact = some (key, (indexed l key : ℤ)) := by
    rw [hfact]
    exact identityPair_sequencedFact fact key _
  constructor
  · intro r hr
    rcases List.mem_append.mp hr with hr | hr
    · exact h.readable r hr
    · rw [List.mem_singleton.mp hr]
      exact .inl ⟨_, hpair⟩
  · intro key'
    show seqsOf key' (pairsOf (l.entries ++ [rec])) = _
    rw [pairsOf_concat, hpair, Option.toList_some, seqsOf_append, h.seqs_eq key']
    by_cases hkey : key = key'
    · subst hkey
      have hindexed : indexed ⟨l.entries ++ [rec], l.byIdentity.set key
          ((l.byIdentity.get? key).getD [] ++ [rec.sequence])⟩ key = indexed l key + 1 := by
        unfold indexed
        rw [Dict.get?_set, if_pos rfl, Option.getD_some, List.length_append]
        rfl
      rw [hindexed, seqsOf_cons_self, List.range_succ, List.map_append]
      rfl
    · have hindexed : indexed ⟨l.entries ++ [rec], l.byIdentity.set key
          ((l.byIdentity.get? key).getD [] ++ [rec.sequence])⟩ key' = indexed l key' := by
        unfold indexed
        rw [Dict.get?_set, if_neg (Ne.symm hkey)]
      rw [hindexed, seqsOf_cons_ne hkey]
      exact List.append_nil _

theorem numbered_run (l : SealedFactLedger) (calls : List AppendCall) (h : Numbered l)
    (hcalls : ∀ c ∈ calls, DefaultMode c) : Numbered (runCalls sign l calls) := by
  induction calls generalizing l with
  | nil => exact h
  | cons c calls ih =>
    have hc := hcalls c (List.mem_cons_self ..)
    refine ih (stepCall sign l c) ?_ fun c' hc' => hcalls c' (List.mem_cons_of_mem _ hc')
    unfold stepCall
    cases hcall : applyCall sign l c with
    | error e => exact h
    | ok result =>
      obtain ⟨rec, l'⟩ := result
      cases c with
      | append fact => exact numbered_append h hc hcall
      | appendSequenced fact key claimed =>
        have hclaimed : claimed = none := hc
        rw [hclaimed] at hcall
        exact numbered_appendSequenced h hcall

theorem numbered_fresh : Numbered SealedFactLedger.fresh :=
  ⟨fun _ h => (nomatch h), fun _ => rfl⟩

def numberOf (key : Str) (rec : SealedFactRecord) : Option ℤ :=
  (identityPair rec.fact).bind fun e => if e.1 = key then some e.2 else none

theorem seqsOf_pairsOf (key : Str) (records : List SealedFactRecord) :
    seqsOf key (pairsOf records) = records.filterMap (numberOf key) := by
  unfold seqsOf pairsOf
  rw [List.filterMap_filterMap]
  rfl

theorem numberOf_eq_some_iff (key : Str) (rec : SealedFactRecord) (s : ℤ) :
    numberOf key rec = some s ↔ identityPair rec.fact = some (key, s) := by
  unfold numberOf
  cases identityPair rec.fact with
  | none => exact ⟨fun h => (nomatch h), fun h => (nomatch h)⟩
  | some e =>
    obtain ⟨key', s'⟩ := e
    show (if key' = key then some s' else none) = some s ↔ _
    by_cases hkey : key' = key
    · rw [if_pos hkey, hkey]
      simp
    · rw [if_neg hkey]
      simp [hkey]

theorem filterMap_deleted {α β : Type} [DecidableEq β] (g : α → Option β) (keep : α → Bool)
    (xs : List α) (hnodup : (xs.filterMap g).Nodup) :
    (xs.filter fun x => !keep x).filterMap g =
      (xs.filterMap g).filter fun b => b ∉ (xs.filter keep).filterMap g := by
  induction xs with
  | nil => rfl
  | cons x xs ih =>
    have hsub : ∀ b, b ∈ (xs.filter keep).filterMap g → b ∈ xs.filterMap g := by
      intro b hb
      exact (List.filter_sublist.filterMap g).subset hb
    cases hg : g x with
    | none =>
      rw [List.filterMap_cons_none hg] at hnodup ⊢
      cases hkeep : keep x with
      | true => simp [hkeep, hg, ih hnodup]
      | false => simp [hkeep, hg, ih hnodup]
    | some b =>
      rw [List.filterMap_cons_some hg, List.nodup_cons] at hnodup
      rw [List.filterMap_cons_some hg]
      have hfresh : b ∉ (xs.filter keep).filterMap g := fun hb => hnodup.1 (hsub b hb)
      cases hkeep : keep x with
      | true =>
        have hkept : ((x :: xs).filter keep).filterMap g = b :: (xs.filter keep).filterMap g := by
          rw [List.filter_cons_of_pos hkeep, List.filterMap_cons_some hg]
        rw [hkept, List.filter_cons_of_neg (by simp [hkeep]), List.filter_cons_of_neg (by simp),
          ih hnodup.2]
        refine List.filter_congr fun c hc => ?_
        have hne : c ≠ b := fun h => hnodup.1 (h ▸ hc)
        simp [hne]
      | false =>
        have hkept : ((x :: xs).filter keep).filterMap g = (xs.filter keep).filterMap g := by
          rw [List.filter_cons_of_neg (by simp [hkeep])]
        rw [hkept, List.filter_cons_of_pos (by simp [hkeep]), List.filterMap_cons_some hg,
          List.filter_cons_of_pos (by simpa using hfresh), ih hnodup.2]

def KeepsHighest (records : List SealedFactRecord) (keep : SealedFactRecord → Bool) : Prop :=
  ∀ rec ∈ records, ∀ key seq, identityPair rec.fact = some (key, seq) →
    (∀ rec' ∈ records, ∀ seq', identityPair rec'.fact = some (key, seq') → seq' ≤ seq) →
    keep rec = true

theorem missing_of_kept {l : SealedFactLedger} (h : Numbered l) {keep : SealedFactRecord → Bool}
    (hkeep : KeepsHighest l.entries keep) (key : Str) :
    missingSeqs (seqsOf key (pairsOf (l.entries.filter keep))) =
      seqsOf key (pairsOf (l.entries.filter fun rec => !keep rec)) := by
  have hseqs := h.seqs_eq key
  rw [seqsOf_pairsOf] at hseqs
  have hmem : ∀ i : ℤ, (∃ rec ∈ l.entries, numberOf key rec = some i) ↔ 0 ≤ i ∧ i < indexed l key := by
    intro i
    rw [← mem_range_cast, ← hseqs, List.mem_filterMap]
  rw [seqsOf_pairsOf, seqsOf_pairsOf, filterMap_deleted _ _ _ (by rw [hseqs]; exact nodup_range_cast _),
    hseqs]
  cases hn : indexed l key with
  | zero =>
    rw [hn] at hseqs
    have hkept : (l.entries.filter keep).filterMap (numberOf key) = [] := by
      rw [← List.sublist_nil]
      have hsub := (List.filter_sublist (l := l.entries) (p := keep)).filterMap (numberOf key)
      rw [hseqs] at hsub
      exact hsub
    rw [hkept]
    rfl
  | succ n =>
    have hlast : (n : ℤ) ∈ (l.entries.filter keep).filterMap (numberOf key) := by
      obtain ⟨rec, hrec, hnumber⟩ := (hmem n).mpr ⟨Int.natCast_nonneg n, by omega⟩
      have hkept : keep rec = true := by
        apply hkeep rec hrec key n ((numberOf_eq_some_iff _ _ _).mp hnumber)
        intro rec' hrec' seq' hpair
        have hlt := ((hmem seq').mp ⟨rec', hrec', (numberOf_eq_some_iff _ _ _).mpr hpair⟩).2
        omega
      exact List.mem_filterMap.mpr ⟨rec, List.mem_filter.mpr ⟨hrec, hkept⟩, hnumber⟩
    have hmax : ((l.entries.filter keep).filterMap (numberOf key)).max? = some (n : ℤ) := by
      refine List.max?_eq_some_iff.mpr ⟨hlast, ?_⟩
      intro i hi
      obtain ⟨rec, hrec, hnumber⟩ := List.mem_filterMap.mp hi
      have hlt := ((hmem i).mp ⟨rec, List.mem_of_mem_filter hrec, hnumber⟩).2
      omega
    unfold missingSeqs
    rw [hmax]
    rfl

theorem repeated_of_kept {l : SealedFactLedger} (h : Numbered l) (keep : SealedFactRecord → Bool)
    (key : Str) : repeatedSeqs (seqsOf key (pairsOf (l.entries.filter keep))) = [] := by
  have hseqs := h.seqs_eq key
  rw [seqsOf_pairsOf] at hseqs ⊢
  rw [repeatedSeqs_eq_nil_iff]
  have hnodup : (l.entries.filterMap (numberOf key)).Nodup := by
    rw [hseqs]
    exact nodup_range_cast _
  exact hnodup.sublist (List.filter_sublist.filterMap (numberOf key))

theorem verifyNoGaps_of_kept {l : SealedFactLedger} (h : Numbered l) {keep : SealedFactRecord → Bool}
    (hkeep : KeepsHighest l.entries keep) :
    ∃ report, verifyNoGaps strOf intOf (l.entries.filter keep) = .ok report ∧
      report.duplicates.items = [] ∧
      (report.complete = true ↔ report.gaps.items = []) ∧
      ∀ key, report.gaps.get? key =
        let deleted := seqsOf key (pairsOf (l.entries.filter fun rec => !keep rec))
        if deleted.isEmpty then none else some deleted := by
  obtain ⟨items, hitems, hreport⟩ := verifyNoGaps_readable strOf intOf
    fun rec hrec => h.readable rec (List.mem_of_mem_filter hrec)
  have hduplicates : (identitySequenceGaps items).duplicates.items = [] := by
    refine (reported_empty_iff rfl _).mpr fun key => ?_
    rw [hitems]
    exact repeated_of_kept h keep key
  refine ⟨_, hreport, hduplicates, ?_, ?_⟩
  · show ((identitySequenceGaps items).gaps.items.isEmpty &&
      (identitySequenceGaps items).duplicates.items.isEmpty) = true ↔ _
    rw [hduplicates, List.isEmpty_nil, Bool.and_true, List.isEmpty_iff]
  · intro key
    show (nonemptyEntries missingSeqs (groupByIdentity (sequencedItems items))).get? key = _
    rw [reported_get? rfl, hitems, missing_of_kept h hkeep key]

end Run

/-- The check on pairs is exact where no negative number hides, and on the
records of a default-mode run it finds nothing, or exactly what was deleted. -/
theorem negative_space_exact_iff (items : List (Option Str × Option ℤ))
    (sign : Str → Except PyErr Str) (strOf : PyObj → Except PyErr Str)
    (intOf : PyObj → Except PyErr ℤ) (calls : List AppendCall) :
    (((identitySequenceGaps items).complete = true ↔
        ∀ key, Contiguous (seqsOf key (sequencedItems items))) ↔
      GapsVisible (sequencedItems items)) ∧
    ((∀ c ∈ calls, DefaultMode c) →
      (∃ report, verifyNoGaps strOf intOf (runCalls sign SealedFactLedger.fresh calls).entries =
        .ok report ∧ report.complete = true) ∧
      ∀ keep : SealedFactRecord → Bool,
        KeepsHighest (runCalls sign SealedFactLedger.fresh calls).entries keep →
        ∃ report, verifyNoGaps strOf intOf
            ((runCalls sign SealedFactLedger.fresh calls).entries.filter keep) = .ok report ∧
          report.duplicates.items = [] ∧
          (report.complete = true ↔ report.gaps.items = []) ∧
          ∀ key, report.gaps.get? key =
            let deleted := seqsOf key (pairsOf
              ((runCalls sign SealedFactLedger.fresh calls).entries.filter fun rec => !keep rec))
            if deleted.isEmpty then none else some deleted) := by
  refine ⟨complete_exact_iff items, ?_⟩
  intro hcalls
  have hnumbered : Numbered (runCalls sign SealedFactLedger.fresh calls) :=
    numbered_run SealedFactLedger.fresh calls numbered_fresh hcalls
  refine ⟨?_, fun keep hkeep => verifyNoGaps_of_kept strOf intOf hnumbered hkeep⟩
  have hall : KeepsHighest (runCalls sign SealedFactLedger.fresh calls).entries fun _ => true :=
    fun _ _ _ _ _ _ => rfl
  obtain ⟨report, hreport, -, hcomplete, hgaps⟩ :=
    verifyNoGaps_of_kept strOf intOf hnumbered hall
  rw [List.filter_true] at hreport
  refine ⟨report, hreport, hcomplete.mpr ((Dict.items_eq_nil_iff _).mpr fun key => ?_)⟩
  rw [hgaps key]
  simp [pairsOf, seqsOf]

/-- A single receipt numbered -1 is reported complete. -/
theorem negative_number_complete :
    (identitySequenceGaps [(some (txt "k"), some (-1))]).complete = true ∧
      ¬ ∀ key, Contiguous (seqsOf key (sequencedItems [(some (txt "k"), some (-1))])) := by
  refine ⟨by decide, ?_⟩
  intro h
  have hpos := ((contiguous_iff _).mp (h (txt "k"))).1 (-1) (by decide)
  omega

end TexGovernance.Provenance
