import TexGovernance.Interchange.GixProofs
import TexGovernance.Interchange.Witness

/-!
# A witness does not equivocate

What one `add_checkpoint` call can do is said once (`addCheckpoint_cases`).
-/

namespace TexGovernance.Interchange
open PyStr PyBytes PyCodec Sha256 TexGovernance.Ecosystem

theorem checkLatest_refusal (entry : Option (ℕ × Digest)) (s : Submission) (r : WitnessResponse)
    (h : checkLatest entry s = .ok (some r)) : r.outcome ≠ .cosigned := by
  intro hr
  unfold checkLatest refuse at h
  simp only at h
  split_ifs at h <;> (try split at h) <;> (try split_ifs at h) <;>
    simp only [Except.ok.injEq, Option.some.injEq, reduceCtorEq] at h <;>
    (rw [← h] at hr; cases hr)

theorem checkLatest_some (n : ℕ) (root : Digest) (s : Submission)
    (h : checkLatest (some (n, root)) s = .ok none) :
    s.oldSize = n ∧
      ((n = s.checkpoint.treeSize ∧ root = s.checkpoint.rootHash) ∨
        (n = 0 ∧ n ≠ s.checkpoint.treeSize) ∨
        (n ≠ 0 ∧ n ≠ s.checkpoint.treeSize ∧
          verifyConsistency n (hex root.bytes) s.checkpoint.treeSize
            (hex s.checkpoint.rootHash.bytes) s.proof = true)) := by
  unfold checkLatest refuse at h
  simp only [Option.map_some] at h
  by_cases hold : s.oldSize = n
  · rw [if_neg (not_not.mpr hold), hold] at h
    refine ⟨hold, ?_⟩
    by_cases hsame : n = s.checkpoint.treeSize
    · rw [if_pos hsame] at h
      split_ifs at h with hproof hroot
      · cases h
      · cases h
      · exact Or.inl ⟨hsame, not_not.mp hroot⟩
    · rw [if_neg hsame] at h
      by_cases hzero : n = 0
      · exact Or.inr (Or.inl ⟨hzero, hsame⟩)
      · rw [if_neg hzero] at h
        split_ifs at h with hver
        · cases h
        · simp only [Bool.not_eq_true', Bool.not_eq_false] at hver
          exact Or.inr (Or.inr ⟨hzero, hsame, hver⟩)
  · rw [if_pos hold] at h
    cases h

section Run

variable (ed25519Verify : Bytes → Bytes → Bytes → Bool) (w : Witness)

theorem receive_refusal (body : Str) (r : WitnessResponse)
    (h : receive ed25519Verify w body = .ok (.error r)) : r.outcome ≠ .cosigned := by
  intro hr
  unfold receive refuse at h
  cases hbody : parseAddCheckpointBody body with
  | error e =>
    rw [hbody] at h
    cases h
  | ok res =>
    rw [hbody] at h
    cases res with
    | error e =>
      rw [← Except.error.inj (Except.ok.inj h)] at hr
      cases hr
    | ok parsed =>
      simp only at h
      split at h
      · rw [← Except.error.inj (Except.ok.inj h)] at hr
        cases hr
      · split at h
        · rw [← Except.error.inj (Except.ok.inj h)] at hr
          cases hr
        · split at h
          · rw [← Except.error.inj (Except.ok.inj h)] at hr
            cases hr
          · split at h
            · cases h
            · rw [← Except.error.inj (Except.ok.inj h)] at hr
              cases hr
            · split at h
              · cases h
              · rw [← Except.error.inj (Except.ok.inj h)] at hr
                cases hr

def bodyNote (body : Str) : Option (Str × Checkpoint) :=
  match parseAddCheckpointBody body with
  | .ok (.ok parsed) =>
    match splitSignedNote parsed.signedNote with
    | .ok (noteText, _) => (Checkpoint.parse noteText).toOption.map fun c => (noteText, c)
    | .error _ => none
  | _ => none

theorem receive_note (body : Str) (s : Submission)
    (h : receive ed25519Verify w body = .ok (.ok s)) :
    bodyNote body = some (s.noteText, s.checkpoint) := by
  unfold receive at h
  unfold bodyNote
  cases hbody : parseAddCheckpointBody body with
  | error e =>
    rw [hbody] at h
    cases h
  | ok res =>
    rw [hbody] at h
    cases res with
    | error e => cases h
    | ok parsed =>
      simp only at h ⊢
      cases hsplit : splitSignedNote parsed.signedNote with
      | error e =>
        rw [hsplit] at h
        cases h
      | ok note =>
        rw [hsplit] at h
        simp only at h ⊢
        cases hparse : Checkpoint.parse note.1 with
        | error e =>
          rw [hparse] at h
          cases h
        | ok checkpoint =>
          rw [hparse] at h
          simp only at h
          split at h
          · cases h
          · split at h
            · cases h
            · cases h
            · split at h
              · rw [← Except.ok.inj (Except.ok.inj h)]
                rfl
              · cases h

theorem addCheckpoint_cases (latest : Latest) (clock : ℤ) (body : Str) :
    ((addCheckpoint ed25519Verify w latest clock body).1 = latest ∧
      ∀ r, (addCheckpoint ed25519Verify w latest clock body).2 = .ok r → r.outcome ≠ .cosigned) ∨
    (∃ s, receive ed25519Verify w body = .ok (.ok s) ∧
      checkLatest (latest s.checkpoint.origin) s = .ok none ∧
      (addCheckpoint ed25519Verify w latest clock body).1 = record latest s.checkpoint ∧
      ∀ r, (addCheckpoint ed25519Verify w latest clock body).2 = .ok r →
        r.outcome = .cosigned) := by
  unfold addCheckpoint
  cases hrec : receive ed25519Verify w body with
  | error e => exact Or.inl ⟨rfl, fun r hr => by cases hr⟩
  | ok res =>
    cases res with
    | error refusal =>
      refine Or.inl ⟨rfl, fun r hr => ?_⟩
      rw [← Except.ok.inj hr]
      exact receive_refusal ed25519Verify w body refusal hrec
    | ok s =>
      simp only
      cases hadm : checkLatest (latest s.checkpoint.origin) s with
      | error e => exact Or.inl ⟨rfl, fun r hr => by cases hr⟩
      | ok res =>
        cases res with
        | some refusal =>
          refine Or.inl ⟨rfl, fun r hr => ?_⟩
          rw [← Except.ok.inj hr]
          exact checkLatest_refusal _ s refusal hadm
        | none =>
          refine Or.inr ⟨s, rfl, hadm, rfl, fun r hr => ?_⟩
          simp only at hr
          cases hcos : cosign w clock s.noteText with
          | error e =>
            rw [hcos] at hr
            cases hr
          | ok line =>
            rw [hcos] at hr
            rw [← Except.ok.inj hr]

structure Call where
  clock : ℤ
  body : Str

def latestAfter (latest : Latest) : List Call → Latest
  | [] => latest
  | c :: calls => latestAfter (addCheckpoint ed25519Verify w latest c.clock c.body).1 calls

def noLatest : Latest := fun _ => none

def responseAfter (before : List Call) (c : Call) : Except PyErr WitnessResponse :=
  (addCheckpoint ed25519Verify w (latestAfter ed25519Verify w noLatest before) c.clock c.body).2

def Cosigns (before : List Call) (c : Call) (checkpoint : Checkpoint) : Prop :=
  ∃ r noteText, responseAfter ed25519Verify w before c = .ok r ∧ r.outcome = .cosigned ∧
    bodyNote c.body = some (noteText, checkpoint)

def callInputs (latest : Latest) (body : Str) : List Bytes :=
  match receive ed25519Verify w body with
  | .ok (.ok s) =>
    match latest s.checkpoint.origin with
    | some (n, root) =>
      if s.oldSize = n ∧ n ≠ s.checkpoint.treeSize ∧ n ≠ 0 then
        verifyConsistencyInputs n (hex root.bytes) s.checkpoint.treeSize s.proof
      else []
    | none => []
  | _ => []

def runInputs (latest : Latest) : List Call → List Bytes
  | [] => []
  | c :: calls => callInputs ed25519Verify w latest c.body ++
      runInputs (addCheckpoint ed25519Verify w latest c.clock c.body).1 calls

theorem latestAfter_append (latest : Latest) (before after : List Call) :
    latestAfter ed25519Verify w latest (before ++ after) =
      latestAfter ed25519Verify w (latestAfter ed25519Verify w latest before) after := by
  induction before generalizing latest with
  | nil => rfl
  | cons c before ih => exact ih _

theorem runInputs_append (latest : Latest) (before after : List Call) :
    runInputs ed25519Verify w latest (before ++ after) = runInputs ed25519Verify w latest before ++
      runInputs ed25519Verify w (latestAfter ed25519Verify w latest before) after := by
  induction before generalizing latest with
  | nil => rfl
  | cons c before ih =>
    simp only [List.cons_append, runInputs, latestAfter, List.append_assoc, ih]

/-- From entry `a` to entry `b` the log can only have grown: the leaves behind
`b` start with leaves behind `a`, as far as the inputs in `S` do not collide. -/
structure Extends (S : Set Bytes) (a b : ℕ × Digest) : Prop where
  size_le : a.1 ≤ b.1
  same_root : a.1 = b.1 → a.2 = b.2
  take_root : Set.InjOn sha256 S → 0 < a.1 → ∀ leaves : List Digest, leaves.length = b.1 →
    MerkleTree.mth node leaves = b.2 →
    (∀ p ∈ MerkleTree.pairs node leaves, nodeInput p ∈ S) →
    MerkleTree.mth node (leaves.take a.1) = a.2 ∧
      ∀ p ∈ MerkleTree.pairs node (leaves.take a.1), nodeInput p ∈ S

omit ed25519Verify w in
theorem Extends.refl (S : Set Bytes) (a : ℕ × Digest) : Extends S a a := by
  refine ⟨le_rfl, fun _ => rfl, fun _ _ leaves hlen hroot hpairs => ?_⟩
  rw [← hlen, List.take_length]
  exact ⟨hroot, hpairs⟩

omit ed25519Verify w in
theorem Extends.trans (S : Set Bytes) (a b c : ℕ × Digest) (hab : Extends S a b)
    (hbc : Extends S b c) : Extends S a c := by
  have h1 := hab.size_le
  have h2 := hbc.size_le
  refine ⟨by omega, fun h => (hab.same_root (by omega)).trans (hbc.same_root (by omega)), ?_⟩
  intro hS hpos leaves hlen hroot hpairs
  obtain ⟨hmid, hmidpairs⟩ := hbc.take_root hS (by omega) leaves hlen hroot hpairs
  have htake := hab.take_root hS hpos (leaves.take b.1) (by rw [List.length_take]; omega) hmid hmidpairs
  rw [List.take_take, Nat.min_eq_left h1] at htake
  exact htake

omit ed25519Verify w in
theorem checkLatest_extends (S : Set Bytes) (n : ℕ) (root : Digest) (s : Submission)
    (h : checkLatest (some (n, root)) s = .ok none)
    (hinputs : n ≠ s.checkpoint.treeSize → n ≠ 0 →
      ∀ x ∈ verifyConsistencyInputs n (hex root.bytes) s.checkpoint.treeSize s.proof, x ∈ S) :
    Extends S (n, root) (s.checkpoint.treeSize, s.checkpoint.rootHash) := by
  have hle := s.old_le
  obtain ⟨hold, hcases⟩ := checkLatest_some n root s h
  rcases hcases with ⟨hsize, hroot⟩ | ⟨hzero, hne⟩ | ⟨hpos, hne, hver⟩
  · rw [hsize, hroot]
    exact Extends.refl S _
  · refine ⟨by simp only; omega, fun heq => absurd heq hne, fun _ h0 => ?_⟩
    simp only at h0
    omega
  · refine ⟨by simp only; omega, fun heq => absurd heq hne, ?_⟩
    intro hS h0 leaves hlen hmth hpairs
    simp only at hlen hmth ⊢
    rw [← hlen] at hver hinputs
    obtain ⟨-, hfirst, hsub⟩ := verifyConsistency_sound n (hex root.bytes) _ s.proof leaves S hS
      (by omega) (by rw [hmth]; exact decodeHash_digestHex _) hpairs
      (hinputs (by rw [hlen]; exact hne) hpos) hver
    have hdec := decodeHash_digestHex root
    unfold digestHex at hdec
    rw [hdec] at hfirst
    exact ⟨(Option.some.inj hfirst).symm, hsub⟩

theorem addCheckpoint_extends (S : Set Bytes) (latest : Latest) (c : Call)
    (hinputs : ∀ x ∈ callInputs ed25519Verify w latest c.body, x ∈ S) (origin : Str)
    (e : ℕ × Digest) (he : latest origin = some e) :
    ∃ e', (addCheckpoint ed25519Verify w latest c.clock c.body).1 origin = some e' ∧
      Extends S e e' := by
  rcases addCheckpoint_cases ed25519Verify w latest c.clock c.body with ⟨hsame, -⟩ | ⟨s, hrec, hadm, hnew, -⟩
  · exact ⟨e, by rw [hsame]; exact he, Extends.refl S e⟩
  · rw [hnew]
    unfold record
    by_cases ho : origin = s.checkpoint.origin
    · rw [ho] at he
      rw [he] at hadm
      rw [if_pos ho]
      refine ⟨_, rfl, checkLatest_extends S e.1 e.2 s hadm ?_⟩
      intro hne hpos x hx
      refine hinputs x ?_
      have hold := (checkLatest_some e.1 e.2 s hadm).1
      unfold callInputs
      rw [hrec]
      simp only [he]
      rw [if_pos ⟨hold, hne, hpos⟩]
      exact hx
    · rw [if_neg ho]
      exact ⟨e, he, Extends.refl S e⟩

theorem latestAfter_extends (S : Set Bytes) (latest : Latest)
    (calls : List Call) (hinputs : ∀ x ∈ runInputs ed25519Verify w latest calls, x ∈ S)
    (origin : Str) (e : ℕ × Digest) (he : latest origin = some e) :
    ∃ e', latestAfter ed25519Verify w latest calls origin = some e' ∧ Extends S e e' := by
  induction calls generalizing latest e with
  | nil => exact ⟨e, he, Extends.refl S e⟩
  | cons c calls ih =>
    simp only [runInputs, List.mem_append] at hinputs
    obtain ⟨e1, he1, hext1⟩ := addCheckpoint_extends ed25519Verify w S latest c
      (fun x hx => hinputs x (Or.inl hx)) origin e he
    obtain ⟨e2, he2, hext2⟩ := ih _ (fun x hx => hinputs x (Or.inr hx)) e1 he1
    exact ⟨e2, he2, Extends.trans S e e1 e2 hext1 hext2⟩

theorem cosigns_admitted (before : List Call) (c : Call) (checkpoint : Checkpoint)
    (h : Cosigns ed25519Verify w before c checkpoint) :
    ∃ s, receive ed25519Verify w c.body = .ok (.ok s) ∧ s.checkpoint = checkpoint ∧
      checkLatest (latestAfter ed25519Verify w noLatest before checkpoint.origin) s = .ok none ∧
      latestAfter ed25519Verify w noLatest (before ++ [c]) checkpoint.origin =
        some (checkpoint.treeSize, checkpoint.rootHash) := by
  obtain ⟨r, noteText, hresp, hout, hnote⟩ := h
  unfold responseAfter at hresp
  rcases addCheckpoint_cases ed25519Verify w (latestAfter ed25519Verify w noLatest before) c.clock
    c.body with ⟨-, hrefuse⟩ | ⟨s, hrec, hadm, hnew, -⟩
  · exact absurd hout (hrefuse r hresp)
  · have hs := receive_note ed25519Verify w c.body s hrec
    rw [hnote] at hs
    have hcp : s.checkpoint = checkpoint := (Prod.mk.inj (Option.some.inj hs)).2.symm
    rw [hcp] at hadm hnew
    refine ⟨s, hrec, hcp, hadm, ?_⟩
    rw [latestAfter_append]
    simp only [latestAfter, hnew, record, if_true]

theorem cosigned_extends (S : Set Bytes) (before : List Call) (c1 : Call)
    (between : List Call) (c2 : Call) (cp1 cp2 : Checkpoint)
    (hinputs : ∀ x ∈ runInputs ed25519Verify w noLatest (before ++ c1 :: between ++ [c2]), x ∈ S)
    (h1 : Cosigns ed25519Verify w before c1 cp1)
    (h2 : Cosigns ed25519Verify w (before ++ c1 :: between) c2 cp2)
    (horigin : cp1.origin = cp2.origin) :
    Extends S (cp1.treeSize, cp1.rootHash) (cp2.treeSize, cp2.rootHash) := by
  obtain ⟨-, -, -, -, hrec1⟩ := cosigns_admitted ed25519Verify w before c1 cp1 h1
  obtain ⟨s2, -, hcp2, -, hrec2⟩ := cosigns_admitted ed25519Verify w _ c2 cp2 h2
  have hsplit : before ++ c1 :: between ++ [c2] = (before ++ [c1]) ++ (between ++ [c2]) := by simp
  rw [hsplit, runInputs_append] at hinputs
  rw [hsplit, latestAfter_append] at hrec2
  rw [horigin] at hrec1
  obtain ⟨e, he, hext⟩ := latestAfter_extends ed25519Verify w S _ (between ++ [c2])
    (fun x hx => hinputs x (List.mem_append_right _ hx)) cp2.origin _ hrec1
  rw [hrec2] at he
  rw [Option.some.inj he]
  exact hext

omit ed25519Verify w in
theorem map_fromhex_eq (S : Set Bytes) (hS : Set.InjOn sha256 S) (D E : List Str)
    (leaves : List Digest) (hD : Leaves D leaves) (hE : Leaves E leaves)
    (hDS : ∀ x ∈ leafInputs D, x ∈ S) (hES : ∀ x ∈ leafInputs E, x ∈ S) :
    D.map fromhex = E.map fromhex := by
  induction leaves generalizing D E with
  | nil =>
    cases hD
    cases hE
    rfl
  | cons d leaves ih =>
    cases hD with
    | cons hs hD =>
      rename_i s D
      cases hE with
      | cons ht hE =>
        rename_i t E
        have hhead := leafDigest_inj S hS s t d hs ht
          (fun b hb => hDS _ (mem_leafInputs _ s b List.mem_cons_self hb))
          (fun b hb => hES _ (mem_leafInputs _ t b List.mem_cons_self hb))
        have htail := ih D E hD hE
          (fun x hx => hDS x (by
            obtain ⟨u, hu, hux⟩ := List.mem_filterMap.mp hx
            exact List.mem_filterMap.mpr ⟨u, List.mem_cons_of_mem _ hu, hux⟩))
          (fun x hx => hES x (by
            obtain ⟨u, hu, hux⟩ := List.mem_filterMap.mp hx
            exact List.mem_filterMap.mpr ⟨u, List.mem_cons_of_mem _ hu, hux⟩))
        rw [List.map_cons, List.map_cons, hhead, htail]

/-- The inputs hashed for two leaf lists and by the witness in a run. -/
def nonEquivocationInputs (L1 L2 : List Str) (calls : List Call) : List Bytes :=
  leafInputs L1 ++ treeInputs L1 ++ leafInputs L2 ++ treeInputs L2 ++
    runInputs ed25519Verify w noLatest calls

theorem extends_leaf_lists (L1 L2 : List Str) (calls : List Call) (e1 e2 : ℕ × Digest)
    (hS : Set.InjOn sha256 {x | x ∈ nonEquivocationInputs ed25519Verify w L1 L2 calls})
    (hext : Extends {x | x ∈ nonEquivocationInputs ed25519Verify w L1 L2 calls} e1 e2)
    (hr1 : merkleRoot L1 = .ok (hex e1.2.bytes)) (hn1 : L1.length = e1.1)
    (hr2 : merkleRoot L2 = .ok (hex e2.2.bytes)) (hn2 : L2.length = e2.1) :
    L1.map fromhex <+: L2.map fromhex := by
  have hle := hext.size_le
  by_cases h0 : L1 = []
  · rw [h0]
    exact List.nil_prefix
  · have hpos : 0 < L1.length := List.length_pos_iff.mpr h0
    obtain ⟨l1, hl1, hroot1⟩ := merkleRoot_inv L1 _ hr1 h0
    obtain ⟨l2, hl2, hroot2⟩ := merkleRoot_inv L2 _ hr2 (List.length_pos_iff.mp (by omega))
    have hm1 : e1.2 = MerkleTree.mth node l1 := Digest.ext_bytes _ _ (hex_inj _ _ hroot1)
    have hm2 : e2.2 = MerkleTree.mth node l2 := Digest.ext_bytes _ _ (hex_inj _ _ hroot2)
    have hlen1 := hl1.length_eq
    have hlen2 := hl2.length_eq
    have hS1 : ∀ p ∈ MerkleTree.pairs node l1,
        nodeInput p ∈ {x | x ∈ nonEquivocationInputs ed25519Verify w L1 L2 calls} := by
      intro p hp
      have : nodeInput p ∈ treeInputs L1 := by
        rw [treeInputs_eq L1 l1 hl1]
        exact List.mem_map_of_mem hp
      simp only [nonEquivocationInputs, List.mem_append, Set.mem_ofPred_eq]
      tauto
    have hS2 : ∀ p ∈ MerkleTree.pairs node l2,
        nodeInput p ∈ {x | x ∈ nonEquivocationInputs ed25519Verify w L1 L2 calls} := by
      intro p hp
      have : nodeInput p ∈ treeInputs L2 := by
        rw [treeInputs_eq L2 l2 hl2]
        exact List.mem_map_of_mem hp
      simp only [nonEquivocationInputs, List.mem_append, Set.mem_ofPred_eq]
      tauto
    obtain ⟨htake, htakeS⟩ := hext.take_root hS (by omega) l2 (by omega) hm2.symm hS2
    have hsame : l1 = l2.take e1.1 := by
      refine MerkleTree.mth_inj node l1 (l2.take e1.1) (by rw [List.length_take]; omega)
        (List.length_pos_iff.mp (by omega)) ?_ (by rw [htake, hm1])
      refine node_injOn _ _ hS ?_
      intro p hp
      rcases hp with hp | hp
      · exact hS1 p hp
      · exact htakeS p hp
    have hl2take := List.forall₂_take e1.1 hl2
    rw [← hsame] at hl2take
    have hmap := map_fromhex_eq _ hS L1 (L2.take e1.1) l1 hl1 hl2take
      (fun x hx => by
        simp only [nonEquivocationInputs, List.mem_append, Set.mem_ofPred_eq]
        tauto)
      (fun x hx => by
        have : x ∈ leafInputs L2 := by
          obtain ⟨u, hu, hux⟩ := List.mem_filterMap.mp hx
          exact List.mem_filterMap.mpr ⟨u, List.mem_of_mem_take hu, hux⟩
        simp only [nonEquivocationInputs, List.mem_append, Set.mem_ofPred_eq]
        tauto)
    rw [hmap, List.map_take]
    exact List.take_prefix _ _

/-- Whatever is submitted in whatever order, the checkpoints a witness cosigns
for one origin are of one growing log, and a refusal changes nothing. -/
theorem witness_non_equivocation :
    (∀ (before : List Call) (c1 : Call) (between : List Call) (c2 : Call) (cp1 cp2 : Checkpoint),
      Cosigns ed25519Verify w before c1 cp1 →
      Cosigns ed25519Verify w (before ++ c1 :: between) c2 cp2 → cp1.origin = cp2.origin →
      cp1.treeSize ≤ cp2.treeSize ∧
      ∀ L1 L2 : List Str, merkleRoot L1 = .ok (hex cp1.rootHash.bytes) →
        L1.length = cp1.treeSize → merkleRoot L2 = .ok (hex cp2.rootHash.bytes) →
        L2.length = cp2.treeSize →
        Set.InjOn sha256 {x | x ∈ nonEquivocationInputs ed25519Verify w L1 L2
          (before ++ c1 :: between ++ [c2])} →
        L1.map fromhex <+: L2.map fromhex) ∧
    (∀ (before : List Call) (c : Call) (r : WitnessResponse),
      responseAfter ed25519Verify w before c = .ok r → r.outcome ≠ .cosigned →
      ∀ origin, latestAfter ed25519Verify w noLatest (before ++ [c]) origin =
        latestAfter ed25519Verify w noLatest before origin) := by
  constructor
  · intro before c1 between c2 cp1 cp2 h1 h2 horigin
    constructor
    · have hext := cosigned_extends ed25519Verify w {x | x ∈ runInputs ed25519Verify w noLatest
        (before ++ c1 :: between ++ [c2])} before c1 between c2 cp1 cp2 (fun x hx => hx) h1 h2 horigin
      exact hext.size_le
    · intro L1 L2 hr1 hn1 hr2 hn2 hS
      have hext := cosigned_extends ed25519Verify w {x | x ∈ nonEquivocationInputs ed25519Verify w
        L1 L2 (before ++ c1 :: between ++ [c2])} before c1 between c2 cp1 cp2
        (fun x hx => List.mem_append_right _ hx) h1 h2 horigin
      exact extends_leaf_lists ed25519Verify w L1 L2 _ _ _ hS hext hr1 hn1 hr2 hn2
  · intro before c r hr hout origin
    unfold responseAfter at hr
    rcases addCheckpoint_cases ed25519Verify w (latestAfter ed25519Verify w noLatest before) c.clock
      c.body with ⟨hsame, -⟩ | ⟨s, -, -, -, hcos⟩
    · rw [latestAfter_append]
      simp only [latestAfter, hsame]
    · exact absurd (hcos r hr) hout

end Run

/-! ### A sample run

One log with two records and one witness. Keys and signatures are Ed25519
values, and verification accepts the signatures that occur. -/

def sampleLeaves : List Str := [List.replicate 64 (cp 'a'), List.replicate 64 (cp '1')]

def sampleCapital : List Str := [List.replicate 64 (cp 'A')]

def sampleLeaf (b : Byte) : Digest := sha256 (leafInput (List.replicate 32 b))

def sampleCheckpoint (size : ℕ) (root : Digest) : Checkpoint :=
  ⟨lit ['l', 'o', 'g'], size, root, [], by decide, by decide⟩

def firstCheckpoint : Checkpoint := sampleCheckpoint 1 (sampleLeaf 0xaa)

def secondCheckpoint : Checkpoint := sampleCheckpoint 2 (node (sampleLeaf 0xaa) (sampleLeaf 0x11))

def firstNote : Str := lit
    ['l', 'o', 'g', '\n', '1', '\n', '4', 'L', 'u', 'C', 'e', 'R', 'u', 'u', 'P', 'F', 'C',
    '9', 'n', 'C', 'D', '6', 'T', 'M', '3', 'L', 'g', 'G', 'S', 'l', 'b', 'l', 'w', 'S', 'v',
    'G', 'm', 'w', 'f', 'm', 'c', 'S', 'r', 'J', 't', 'E', 'K', 'e', 'Y', '=', '\n']

def secondNote : Str := lit
    ['l', 'o', 'g', '\n', '2', '\n', 'f', 'o', 'u', 'Q', 'Q', 'J', 'P', '9', '4', 'l', 'C',
    'L', 'c', 'h', 'E', 'a', 'S', 'N', '3', 'p', '4', 'i', 'a', 'G', 'i', '9', '0', '/', 'h',
    'p', 'r', 'q', 'n', '+', 'R', 'R', 'u', '/', 'm', 'b', 'u', 'l', 'E', '=', '\n']

def asciiBytes (s : Str) : Bytes := s.map fun c => byte c.val

def logKey : Bytes := toBytesBig 32
    0x8a88e3dd7409f195fd52db2d3cba5d72ca6709bf1d94121bf3748801b40f6f5c

def witnessKey : Bytes := toBytesBig 32
    0x8139770ea87d175f56a35466c34c7ecccb8d8a91b4ee37a25df60f5b8fc9b394

def sampleMessage (digit : Byte) (note : Str) : Bytes :=
  cosigHeader ++ timeText ++ [digit, 0x0a] ++ asciiBytes note

def sampleSignatures : List (Bytes × Bytes × Bytes) :=
  [(logKey, asciiBytes firstNote, toBytesBig 64
    0xacfb434f6505b64202be89210f73df3bbf79055a7bae06b4d8f99db37f1045347136e75f5c19f851a868f56df6bb8f978c6ce5a63230d091255b2ca18c0de40b),
   (logKey, asciiBytes secondNote, toBytesBig 64
    0x0fa81de3a38acdad34f7d77e4198a33f9ad6e53e8c9ad8f21a5123b64f5310150a4b103c1c6de27c9cb7e38cdceef04f8159f6f622a66cb6320f364e16f1000b),
   (witnessKey, sampleMessage 0x31 firstNote, toBytesBig 64
    0x99977e7e66c15f8a00e8ee0440694393b8cd3af9f4f717fb87ec312ade6983bc0624b70cc3f0743a549a6e1b1129e0d096f2eb483bd4dd81121fdba65dd30c0c),
   (witnessKey, sampleMessage 0x32 firstNote, toBytesBig 64
    0x60641e9a1759ccd4a6a0960599e8e6ac95bd95969d81a7c7f7ebd0cb60c36eee3fac952f4bfdf24afd4becf27383fc3693bb315b6baf80979e73087fc9d4aa04),
   (witnessKey, sampleMessage 0x32 secondNote, toBytesBig 64
    0xd9ac29d137364b217454c8785a4ea2357afe301fb69c4b83c1185458bfec6b8bc0610545af6d911f4a225a66cf88fc746834dfc164ef8ce1d323a2c6ef631702)]

def sampleVerify (key message signature : Bytes) : Bool :=
  sampleSignatures.contains (key, message, signature)

def sampleSign (key message : Bytes) : Bytes :=
  match sampleSignatures.find? fun e => e.1 = key && e.2.1 = message with
  | some e => e.2.2
  | none => []

def sampleSigner : NoteSigner := ⟨lit ['l', 'o', 'g'], logKey, sampleSign logKey⟩

def sampleWitness : Witness :=
  ⟨lit ['w'], [(lit ['l', 'o', 'g'], ⟨lit ['l', 'o', 'g'], logKey, by decide⟩)], .inProcess,
    witnessKey, sampleSign witnessKey, by decide, by decide, by decide⟩

def sampleCall (clock : ℤ) (oldSize : ℤ) (proof : List Str) (note : Str) : Call :=
  ⟨clock, match sampleSigner.signNote note with
    | .ok signed => (buildAddCheckpointBody oldSize proof signed).toOption.getD []
    | .error _ => []⟩

def firstCall : Call := sampleCall 1 0 [] firstNote

def secondCall : Call := sampleCall 2 1 [hex (sampleLeaf 0x11).bytes] secondNote

theorem sample_cosigns (before : List Call) (c : Call) (note : Str) (checkpoint : Checkpoint)
    (hout : (responseAfter sampleVerify sampleWitness before c).toOption.map WitnessResponse.outcome =
      some .cosigned) (hnote : bodyNote c.body = some (note, checkpoint)) :
    Cosigns sampleVerify sampleWitness before c checkpoint := by
  cases hr : responseAfter sampleVerify sampleWitness before c with
  | error e =>
    rw [hr] at hout
    cases hout
  | ok r =>
    rw [hr] at hout
    exact ⟨r, note, hr, Option.some.inj hout, hnote⟩

def sampleInputs : List Bytes := [leafInput (List.replicate 32 0xaa),
  leafInput (List.replicate 32 0x11), nodeInput (sampleLeaf 0xaa, sampleLeaf 0x11)]

set_option maxRecDepth 2000 in
theorem sample_computed :
    ((responseAfter sampleVerify sampleWitness [] firstCall).toOption.map WitnessResponse.outcome =
        some .cosigned ∧ bodyNote firstCall.body = some (firstNote, firstCheckpoint)) ∧
    ((responseAfter sampleVerify sampleWitness [firstCall] secondCall).toOption.map
        WitnessResponse.outcome = some .cosigned ∧
      bodyNote secondCall.body = some (secondNote, secondCheckpoint)) ∧
    (merkleRoot sampleCapital = .ok (hex firstCheckpoint.rootHash.bytes) ∧
      merkleRoot sampleLeaves = .ok (hex secondCheckpoint.rootHash.bytes)) ∧
    (∀ x ∈ nonEquivocationInputs sampleVerify sampleWitness sampleCapital sampleLeaves
      [firstCall, secondCall], x ∈ sampleInputs) ∧ (sampleInputs.map sha256).Nodup := by
  decide

theorem firstCall_cosigns : Cosigns sampleVerify sampleWitness [] firstCall firstCheckpoint :=
  sample_cosigns [] firstCall firstNote firstCheckpoint sample_computed.1.1 sample_computed.1.2

theorem secondCall_cosigns :
    Cosigns sampleVerify sampleWitness [firstCall] secondCall secondCheckpoint :=
  sample_cosigns [firstCall] secondCall secondNote secondCheckpoint sample_computed.2.1.1
    sample_computed.2.1.2

theorem sampleCapital_root : merkleRoot sampleCapital = .ok (hex firstCheckpoint.rootHash.bytes) :=
  sample_computed.2.2.1.1

theorem sampleLeaves_root : merkleRoot sampleLeaves = .ok (hex secondCheckpoint.rootHash.bytes) :=
  sample_computed.2.2.1.2

theorem sampleInputs_injOn : Set.InjOn sha256 {x | x ∈ nonEquivocationInputs sampleVerify
    sampleWitness sampleCapital sampleLeaves [firstCall, secondCall]} :=
  (injOn_of_nodup _ sample_computed.2.2.2.2).mono sample_computed.2.2.2.1

theorem witness_non_equivocation_sample :
    sampleCapital.map fromhex <+: sampleLeaves.map fromhex :=
  ((witness_non_equivocation sampleVerify sampleWitness).1 [] firstCall [] secondCall
    firstCheckpoint secondCheckpoint firstCall_cosigns secondCall_cosigns rfl).2 sampleCapital
    sampleLeaves sampleCapital_root rfl sampleLeaves_root rfl sampleInputs_injOn

/-- The record hashes behind two cosigned roots may be spelled differently, so
the leaf lists need not be prefixes as lists of strings. -/
theorem witness_leaf_text_differs :
    ∃ (verify : Bytes → Bytes → Bytes → Bool) (w : Witness) (c1 c2 : Call) (cp1 cp2 : Checkpoint)
      (L1 L2 : List Str),
      Cosigns verify w [] c1 cp1 ∧ Cosigns verify w [c1] c2 cp2 ∧ cp1.origin = cp2.origin ∧
      merkleRoot L1 = .ok (hex cp1.rootHash.bytes) ∧ L1.length = cp1.treeSize ∧
      merkleRoot L2 = .ok (hex cp2.rootHash.bytes) ∧ L2.length = cp2.treeSize ∧
      Set.InjOn sha256 {x | x ∈ nonEquivocationInputs verify w L1 L2 [c1, c2]} ∧ ¬ L1 <+: L2 :=
  ⟨sampleVerify, sampleWitness, firstCall, secondCall, firstCheckpoint, secondCheckpoint,
    sampleCapital, sampleLeaves, firstCall_cosigns, secondCall_cosigns, rfl, sampleCapital_root, rfl,
    sampleLeaves_root, rfl, sampleInputs_injOn, by decide⟩

end TexGovernance.Interchange
