import TexGovernance.Interchange.GixWalk
import Mathlib.Data.Nat.Bitwise

/-!
# Proofs are complete and sound

What `inclusion_path` and `consistency_path` generate is accepted, and what
the verifiers accept is true of the tree behind the root.
-/

namespace TexGovernance.Interchange
open PyStr PyBytes Sha256 TexGovernance.Ecosystem

def digestHex (d : Digest) : Str := hex d.bytes

theorem decodeHash_digestHex (d : Digest) : decodeHash (digestHex d) = some d := by
  simp only [decodeHash, digestHex, fromhex_hex, d.length_eq, dite_true]

theorem decodeHashList_digestHex (ds : List Digest) :
    decodeHashList (ds.map digestHex) = some ds := by
  induction ds with
  | nil => rfl
  | cons d ds ih =>
    unfold decodeHashList at ih ⊢
    rw [List.map_cons, List.mapM_cons, decodeHash_digestHex, ih]
    rfl

theorem decodeHash_fromhex (s : Str) (d : Digest) (h : decodeHash s = some d) :
    fromhex s = .ok d.bytes := by
  unfold decodeHash at h
  cases hs : fromhex s with
  | error e =>
    rw [hs] at h
    cases h
  | ok raw =>
    rw [hs] at h
    by_cases hlen : raw.length = 32
    · simp only [hlen, dite_true, Option.some.injEq] at h
      rw [← h]
    · simp [hlen] at h

theorem stripOnes_fuel (f g fn sn : ℕ) (hf : fn ≤ f) (hg : fn ≤ g) :
    stripOnes f fn sn = stripOnes g fn sn := by
  induction f generalizing g fn sn with
  | zero =>
    have hfn : fn = 0 := by omega
    subst hfn
    cases g with
    | zero => rfl
    | succ g => simp [stripOnes]
  | succ f ih =>
    cases g with
    | zero =>
      have hfn : fn = 0 := by omega
      subst hfn
      simp [stripOnes]
    | succ g =>
      simp only [stripOnes]
      by_cases h : fn % 2 = 1
      · rw [if_pos h, if_pos h]
        exact ih g (fn / 2) (sn / 2) (by omega) (by omega)
      · rw [if_neg h, if_neg h]

theorem land_pred_even (j : ℕ) (hj : 0 < j) :
    2 * j &&& (2 * j - 1) = 0 ↔ j &&& (j - 1) = 0 := by
  have e1 : 2 * j = Nat.bit false j := by simp [Nat.bit]
  have e2 : 2 * j - 1 = Nat.bit true (j - 1) := by
    simp only [Nat.bit, cond_true]
    omega
  rw [e2, e1, Nat.land_bit]
  simp [Nat.bit]

theorem land_pred_odd (q : ℕ) : (2 * q + 1) &&& (2 * q + 1 - 1) = 0 ↔ q = 0 := by
  have e1 : 2 * q + 1 = Nat.bit true q := by simp [Nat.bit]
  have e2 : 2 * q + 1 - 1 = Nat.bit false q := by simp [Nat.bit]
  rw [e2, e1, Nat.land_bit]
  simp [Nat.bit]

structure OddLevel (m : ℕ) (l : List Digest) (m' : ℕ) (l' : List Digest) : Prop where
  odd : m' % 2 = 1
  le : m' ≤ l'.length
  lt : m < l.length → m' < l'.length
  strip : stripOnes (m - 1) (m - 1) (l.length - 1) = (m' - 1, l'.length - 1)
  root : MerkleTree.mth node l' = MerkleTree.mth node l
  rootTake : MerkleTree.mth node (l'.take m') = MerkleTree.mth node (l.take m)
  proof : MerkleTree.subproof node m l true = MerkleTree.subproof node m' l' true
  pairs : ∀ p ∈ MerkleTree.pairs node l', p ∈ MerkleTree.pairs node l
  pairsTake : ∀ p ∈ MerkleTree.pairs node (l.take m),
    p ∈ MerkleTree.pairs node l ∨ p ∈ MerkleTree.pairs node (l'.take m')
  pow : m &&& (m - 1) = 0 ↔ m' = 1

theorem oddLevel_exists (m : ℕ) (l : List Digest) (hm : 0 < m) (hml : m ≤ l.length) :
    ∃ m' l', OddLevel m l m' l' := by
  have key : ∀ m (l : List Digest), 0 < m → m ≤ l.length → ∃ m' l', OddLevel m l m' l' := by
    intro m
    refine Nat.strongRecOn m (fun m ih => ?_)
    intro l hm hml
    by_cases hodd : m % 2 = 1
    · refine ⟨m, l, hodd, hml, fun h => h, ?_, rfl, rfl, rfl, fun p hp => hp,
        fun p hp => Or.inr hp, ?_⟩
      · cases hm1 : m - 1 with
        | zero => rfl
        | succ k => rw [stripOnes, if_neg (by omega)]
      · obtain ⟨q, rfl⟩ : ∃ q, m = 2 * q + 1 := ⟨m / 2, by omega⟩
        rw [land_pred_odd]
        omega
    · obtain ⟨j, rfl⟩ : ∃ j, m = 2 * j := ⟨m / 2, by omega⟩
      have hlen := MerkleTree.pairUp_length node l
      obtain ⟨m', l', h⟩ := ih j (by omega) (MerkleTree.pairUp node l) (by omega) (by omega)
      have htake : (MerkleTree.pairUp node l).take j = MerkleTree.pairUp node (l.take (2 * j)) :=
        MerkleTree.pairUp_take node l j
      refine ⟨m', l', h.odd, h.le, fun hlt => h.lt (by omega), ?_, ?_, ?_, ?_, ?_, ?_, ?_⟩
      · have hstep : stripOnes (2 * j - 1) (2 * j - 1) (l.length - 1) =
            stripOnes (2 * j - 2) (j - 1) ((MerkleTree.pairUp node l).length - 1) := by
          have e1 : 2 * j - 1 = (2 * j - 2) + 1 := by omega
          have e2 : (2 * j - 2 + 1) / 2 = j - 1 := by omega
          have e3 : (l.length - 1) / 2 = (MerkleTree.pairUp node l).length - 1 := by omega
          rw [e1, stripOnes, if_pos (by omega), e2, e3]
        rw [hstep, stripOnes_fuel _ (j - 1) _ _ (by omega) le_rfl]
        exact h.strip
      · rw [h.root, MerkleTree.mth_pairUp]
      · rw [h.rootTake, htake, MerkleTree.mth_pairUp]
      · have hdiv : 2 * j / 2 = j := by omega
        rw [MerkleTree.subproof_even node (2 * j) l true hm hml (by omega), hdiv]
        exact h.proof
      · intro p hp
        exact (MerkleTree.mem_pairs_iff node l p).mpr (Or.inr (h.pairs p hp))
      · intro p hp
        rw [MerkleTree.mem_pairs_iff, ← htake] at hp
        rcases hp with hp | hp
        · exact Or.inl ((MerkleTree.mem_pairs_iff node l p).mpr
            (Or.inl (levelPairs_take l j hml p hp)))
        · rcases h.pairsTake p hp with hp | hp
          · exact Or.inl ((MerkleTree.mem_pairs_iff node l p).mpr (Or.inr hp))
          · exact Or.inr hp
      · rw [land_pred_even j (by omega)]
        exact h.pow
  exact key m l hm hml

theorem take_snoc (m : ℕ) (l : List Digest) (x : Digest) (hm : 0 < m)
    (hx : l[m - 1]? = some x) : l.take (m - 1) ++ [x] = l.take m := by
  obtain ⟨k, rfl⟩ : ∃ k, m = k + 1 := ⟨m - 1, by omega⟩
  rw [Nat.add_sub_cancel] at hx ⊢
  rw [List.take_add_one, hx]
  rfl

def consistencyNodes (firstSize : ℕ) (firstRoot : Digest) (path : List Digest) : List Digest :=
  if firstSize &&& (firstSize - 1) = 0 then firstRoot :: path else path

def consistencyPairs (firstSize secondSize : ℕ) (firstRoot : Digest) (path : List Digest) :
    List (Digest × Digest) :=
  let c := stripOnes (firstSize - 1) (firstSize - 1) (secondSize - 1)
  match consistencyNodes firstSize firstRoot path with
  | [] => []
  | head :: rest => firstRootPairs c.1 c.2 head rest ++ inclusionPairs c.1 c.2 head rest

theorem verifyConsistencyPath_sound (m : ℕ) (first : Digest) (path l : List Digest) (hm : 0 < m)
    (hml : m ≤ l.length)
    (hinj : Set.InjOn (fun p : Digest × Digest => node p.1 p.2)
      {p | p ∈ MerkleTree.pairs node l ∨ p ∈ consistencyPairs m l.length first path})
    (h : verifyConsistencyPath m l.length first (MerkleTree.mth node l) path = true) :
    first = MerkleTree.mth node (l.take m) ∧
      ∀ p ∈ MerkleTree.pairs node (l.take m),
        p ∈ MerkleTree.pairs node l ∨ p ∈ consistencyPairs m l.length first path := by
  obtain ⟨m', l', lev⟩ := oddLevel_exists m l hm hml
  have hodd := lev.odd
  have hle := lev.le
  have hnodes : (if m &&& (m - 1) = 0 then first :: path else path) =
    consistencyNodes m first path := rfl
  unfold verifyConsistencyPath at h
  simp only [lev.strip, hnodes] at h
  unfold consistencyPairs at hinj ⊢
  simp only [lev.strip] at hinj ⊢
  cases hp : consistencyNodes m first path with
  | nil =>
    rw [hp] at h
    cases h
  | cons head rest =>
    rw [hp] at h hinj
    simp only at h hinj ⊢
    cases hw : consistencyWalk (m' - 1) (l'.length - 1) head head rest with
    | none =>
      rw [hw] at h
      cases h
    | some res =>
      obtain ⟨sn, fr, sr⟩ := res
      rw [hw] at h
      simp only [Bool.and_eq_true, beq_iff_eq] at h
      obtain ⟨⟨hfr, hsr⟩, hsn⟩ := h
      subst hfr
      subst hsr
      subst hsn
      have hsecond := consistencyWalk_second (m' - 1) (l'.length - 1) head head rest
      rw [hw, Option.map_some, ← lev.root] at hsecond
      have hinj' : Set.InjOn (fun p : Digest × Digest => node p.1 p.2)
          {p | p ∈ MerkleTree.pairs node l' ∨
            p ∈ inclusionPairs (m' - 1) (l'.length - 1) head rest} := by
        refine hinj.mono ?_
        intro p hp
        rcases hp with hp | hp
        · exact Or.inl (lev.pairs p hp)
        · exact Or.inr (List.mem_append_right _ hp)
      obtain ⟨hget, hrest⟩ := inclusionWalk_sound (l'.length - 1) (m' - 1) head rest l'
        (by omega) (by omega) hinj' hsecond.symm
      have hwalk := consistencyWalk_path (l'.length - 1) (m' - 1) head head l' (by omega)
        (by omega) hget
      have hsnoc := take_snoc m' l' head (by omega) hget
      rw [← hrest, hw, hsnoc, lev.rootTake] at hwalk
      simp only [Option.some.injEq, Prod.mk.injEq, true_and] at hwalk
      refine ⟨hwalk.1, ?_⟩
      intro p hp
      rcases lev.pairsTake p hp with hp | hp
      · exact Or.inl hp
      · rw [← hsnoc] at hp
        rcases firstRootPairs_path (l'.length - 1) (m' - 1) head l' (by omega) (by omega) p hp
          with hp | hp
        · exact Or.inl (lev.pairs p hp)
        · rw [← hrest] at hp
          exact Or.inr (List.mem_append_left _ hp)

theorem path_ne_nil (i : ℕ) (l : List Digest) (h2 : 2 ≤ l.length) :
    MerkleTree.path node i l ≠ [] := by
  rw [MerkleTree.path_split node i l h2]
  by_cases h : i < MerkleTree.splitPoint l.length
  · rw [if_pos h]
    exact List.append_ne_nil_of_right_ne_nil _ (List.cons_ne_nil _ _)
  · rw [if_neg h]
    exact List.append_ne_nil_of_right_ne_nil _ (List.cons_ne_nil _ _)

theorem verifyConsistencyPath_complete (m : ℕ) (l : List Digest) (hm : 0 < m)
    (hml : m < l.length) :
    MerkleTree.subproof node m l true ≠ [] ∧
      verifyConsistencyPath m l.length (MerkleTree.mth node (l.take m)) (MerkleTree.mth node l)
        (MerkleTree.subproof node m l true) = true := by
  obtain ⟨m', l', lev⟩ := oddLevel_exists m l hm hml.le
  have hodd := lev.odd
  have hlt := lev.lt hml
  obtain ⟨x, hx⟩ : ∃ x, l'[m' - 1]? = some x := ⟨_, List.getElem?_eq_getElem (by omega)⟩
  have hwalk := consistencyWalk_path (l'.length - 1) (m' - 1) x x l' (by omega) (by omega) hx
  rw [take_snoc m' l' x (by omega) hx, lev.rootTake, lev.root] at hwalk
  unfold verifyConsistencyPath
  rw [lev.proof]
  simp only [lev.strip]
  by_cases h1 : m' = 1
  · -- a power of two: the first root is the node the walk starts from
    subst h1
    have hfirst : MerkleTree.mth node (l.take m) = x := by
      rw [← lev.rootTake, ← take_snoc 1 l' x Nat.one_pos hx]
      rfl
    have hne : l' ≠ [] := fun h0 => by rw [h0] at hlt; simp at hlt
    rw [MerkleTree.subproof_one node l' hne, if_pos (lev.pow.mpr rfl), hfirst]
    rw [hfirst] at hwalk
    refine ⟨path_ne_nil 0 l' (by omega), ?_⟩
    simp only [Nat.sub_self] at hwalk ⊢
    simp [hwalk]
  · have hget : l'.getD (m' - 1) default = x := by
      rw [List.getD_eq_getElem?_getD, hx]
      rfl
    rw [MerkleTree.subproof_whole node m' l' hodd (by omega) hlt,
      MerkleTree.subproof_odd node m' l' hodd hlt.le (by omega), hget,
      if_neg (fun h => h1 (lev.pow.mp h))]
    refine ⟨List.cons_ne_nil _ _, ?_⟩
    simp [hwalk]

theorem merkleRoot_slice (D : List Str) (leaves : List Digest) (hD : Leaves D leaves)
    (hlen : 0 < D.length) : merkleRoot D = .ok (digestHex (MerkleTree.mth node leaves)) :=
  merkleRoot_eq D leaves hD (List.length_pos_iff.mp hlen)

theorem leaves_split {D : List Str} {leaves : List Digest} (hD : Leaves D leaves) {k : ℕ} (hk : k ≤ D.length) :
    Leaves (D.take k) (leaves.take k) ∧ Leaves (D.drop k) (leaves.drop k) ∧ (D.take k).length = k ∧
      (D.drop k).length = D.length - k := by
  refine ⟨List.forall₂_take k hD, List.forall₂_drop k hD, ?_, List.length_drop⟩
  rw [List.length_take, min_eq_left hk]

theorem inclusionPath_eq (fuel i : ℕ) (D : List Str) (leaves : List Digest)
    (hD : Leaves D leaves) (hi : i < D.length) (hfuel : D.length ≤ fuel) :
    inclusionPathFuel fuel i D = .ok ((MerkleTree.path node i leaves).map digestHex) := by
  induction fuel generalizing i D leaves with
  | zero => omega
  | succ fuel ih =>
    have hlen := hD.length_eq
    have h0 : D.length ≠ 0 := by omega
    have hrange : (0 : ℤ) ≤ i ∧ (i : ℤ) < D.length := by omega
    simp only [inclusionPathFuel, largestPowerOfTwoBelow, if_neg h0, hrange, and_self,
      not_true_eq_false, if_false]
    by_cases h1 : D.length = 1
    · obtain ⟨x, rfl⟩ := List.length_eq_one_iff.mp (hlen.symm.trans h1)
      rw [if_pos h1]
      rfl
    · have hk := MerkleTree.splitPoint_lt D.length (by omega)
      have hk0 := MerkleTree.splitPoint_pos D.length (by omega)
      obtain ⟨htake, hdrop, htl, hdl⟩ := leaves_split hD hk.le
      rw [if_neg h1, MerkleTree.path_split node i leaves (by omega), ← hlen]
      by_cases hik : i < MerkleTree.splitPoint D.length
      · rw [if_pos hik, if_pos (by omega), ih i _ _ htake (by omega) (by omega),
          merkleRoot_slice _ _ hdrop (by omega), List.map_append]
        rfl
      · have hcast : (i : ℤ) - (MerkleTree.splitPoint D.length : ℤ) =
            ((i - MerkleTree.splitPoint D.length : ℕ) : ℤ) := by omega
        rw [if_neg hik, if_neg (by omega), hcast, ih _ _ _ hdrop (by omega) (by omega),
          merkleRoot_slice _ _ htake (by omega), List.map_append]
        rfl

theorem subproof_eq (fuel m : ℕ) (D : List Str) (leaves : List Digest) (b : Bool)
    (hD : Leaves D leaves) (hm : 0 < m) (hmD : m ≤ D.length) (hfuel : D.length ≤ fuel) :
    subproofFuel fuel m D b = .ok ((MerkleTree.subproof node m leaves b).map digestHex) := by
  induction fuel generalizing m D leaves b with
  | zero => omega
  | succ fuel ih =>
    have hlen := hD.length_eq
    simp only [subproofFuel, largestPowerOfTwoBelow]
    by_cases heq : m = D.length
    · have hne : leaves ≠ [] := List.length_pos_iff.mp (by omega)
      rw [if_pos heq, heq, hlen, MerkleTree.subproof_self node leaves b hne]
      cases b with
      | true => rfl
      | false =>
        rw [merkleRoot_slice D leaves hD (by omega)]
        rfl
    · have hk := MerkleTree.splitPoint_lt D.length (by omega)
      have hk0 := MerkleTree.splitPoint_pos D.length (by omega)
      obtain ⟨htake, hdrop, htl, hdl⟩ := leaves_split hD hk.le
      rw [if_neg heq, MerkleTree.subproof_split node m leaves b hm (by omega), ← hlen]
      by_cases hmk : m ≤ MerkleTree.splitPoint D.length
      · rw [if_pos hmk, if_pos hmk, ih m _ _ b htake hm (by omega) (by omega),
          merkleRoot_slice _ _ hdrop (by omega), List.map_append]
        rfl
      · rw [if_neg hmk, if_neg hmk, ih _ _ _ false hdrop (by omega) (by omega) (by omega),
          merkleRoot_slice _ _ htake (by omega), List.map_append]
        rfl

/-- What `verify_inclusion` hashes. -/
def verifyInclusionInputs (recordHashHex : Str) (leafIndex treeSize : ℤ) (proofHex : List Str) :
    List Bytes :=
  leafInputs [recordHashHex] ++
    match leafDigest recordHashHex, decodeHashList proofHex with
    | .ok r, some path =>
      (inclusionPairs leafIndex.toNat (treeSize.toNat - 1) r path).map nodeInput
    | _, _ => []

theorem verifyInclusion_inv (s : Str) (i n : ℤ) (proof : List Str) (root : Str)
    (h : verifyInclusion s i n proof root = true) :
    0 ≤ i ∧ i < n ∧ ∃ r expected path, leafDigest s = .ok r ∧ decodeHash root = some expected ∧
      decodeHashList proof = some path ∧
      inclusionWalk i.toNat (n.toNat - 1) r path = some (0, expected) := by
  unfold verifyInclusion at h
  by_cases hrange : i < 0 ∨ n < 1 ∨ n ≤ i
  · rw [if_pos hrange] at h
    cases h
  · rw [if_neg hrange] at h
    cases hr : leafDigest s with
    | error e =>
      rw [hr] at h
      cases h
    | ok r =>
      cases he : decodeHash root with
      | none =>
        rw [hr, he] at h
        cases h
      | some expected =>
        cases hp : decodeHashList proof with
        | none =>
          rw [hr, he, hp] at h
          cases h
        | some path =>
          rw [hr, he, hp] at h
          simp only at h
          cases hw : inclusionWalk i.toNat (n.toNat - 1) r path with
          | none =>
            rw [hw] at h
            cases h
          | some res =>
            rw [hw] at h
            simp only [Bool.and_eq_true, beq_iff_eq] at h
            refine ⟨by omega, by omega, r, expected, path, rfl, rfl, rfl, ?_⟩
            rw [hw, ← h.1, ← h.2]

theorem inclusion_complete_and_sound (D : List Str) (hne : D ≠ [])
    (hD : ∀ s ∈ D, IsRecordHash s) :
    (∀ (i : ℕ) (s : Str), D[i]? = some s → ∃ proof root, inclusionPath i D = .ok proof ∧
      merkleRoot D = .ok root ∧ verifyInclusion s i D.length proof root = true) ∧
    (∀ (i : ℤ) (h : Str) (proof : List Str) (root : Str), merkleRoot D = .ok root →
      Set.InjOn sha256 {x | x ∈ leafInputs D ++ treeInputs D ++
        verifyInclusionInputs h i D.length proof} →
      verifyInclusion h i D.length proof root = true →
      i < D.length ∧ ∃ j : ℕ, i = j ∧ ∃ s b, D[j]? = some s ∧ b.length = 32 ∧
        fromhex s = .ok b ∧ fromhex h = .ok b) := by
  obtain ⟨leaves, hleaves⟩ := leaves_of_recordHashes D hD
  have hlen := hleaves.length_eq
  have hpos : 0 < D.length := List.length_pos_iff.mpr hne
  have hroot := merkleRoot_slice D leaves hleaves hpos
  constructor
  · intro i s hs
    have hi : i < D.length := (List.getElem?_eq_some_iff.mp hs).1
    obtain ⟨x, hx⟩ : ∃ x, leaves[i]? = some x := ⟨_, List.getElem?_eq_getElem (by omega)⟩
    have hsx : leafDigest s = .ok x := by
      have := hleaves.get hi (by omega)
      rw [(List.getElem?_eq_some_iff.mp hs).2.symm, (List.getElem?_eq_some_iff.mp hx).2.symm]
      exact this
    refine ⟨_, _, inclusionPath_eq D.length i D leaves hleaves hi le_rfl, hroot, ?_⟩
    have hwalk := consistencyWalk_second i (leaves.length - 1) x x (MerkleTree.path node i leaves)
    rw [consistencyWalk_path (leaves.length - 1) i x x leaves (by omega) (by omega) hx] at hwalk
    have hrange : ¬ ((i : ℤ) < 0 ∨ (D.length : ℤ) < 1 ∨ (D.length : ℤ) ≤ i) := by omega
    unfold verifyInclusion
    rw [if_neg hrange, hsx, decodeHash_digestHex, decodeHashList_digestHex]
    simp only [Int.toNat_natCast, hlen, ← hwalk, Option.map_some]
    simp
  · intro i h proof root hr hinj hver
    rw [hroot] at hr
    obtain ⟨h0, hi, r, expected, path, hleaf, hexp, hpath, hwalk⟩ := verifyInclusion_inv _ _ _ _ _ hver
    rw [← Except.ok.inj hr, decodeHash_digestHex] at hexp
    rw [← Option.some.inj hexp, Int.toNat_natCast, hlen] at hwalk
    have htree : ∀ p : Digest × Digest, p ∈ MerkleTree.pairs node leaves → nodeInput p ∈ treeInputs D := by
      intro p hp
      rw [treeInputs_eq D leaves hleaves]
      exact List.mem_map_of_mem hp
    have hrun : ∀ p : Digest × Digest, p ∈ inclusionPairs i.toNat (leaves.length - 1) r path →
        nodeInput p ∈ verifyInclusionInputs h i D.length proof := by
      intro p hp
      unfold verifyInclusionInputs
      rw [hleaf, hpath, Int.toNat_natCast, hlen]
      exact List.mem_append_right _ (List.mem_map_of_mem hp)
    have hnode := node_injOn _ {p | p ∈ MerkleTree.pairs node leaves ∨
        p ∈ inclusionPairs i.toNat (leaves.length - 1) r path} hinj (by
      intro p hp
      rcases hp with hp | hp
      · exact List.mem_append_left _ (List.mem_append_right _ (htree p hp))
      · exact List.mem_append_right _ (hrun p hp))
    obtain ⟨hget, -⟩ := inclusionWalk_sound (leaves.length - 1) i.toNat r path leaves (by omega)
      (by omega) hnode hwalk
    have hj : i.toNat < D.length := by omega
    have hs : leafDigest D[i.toNat] = .ok r := by
      have := hleaves.get hj (by omega)
      rw [← (List.getElem?_eq_some_iff.mp hget).2]
      exact this
    have hmem : D[i.toNat] ∈ D := List.getElem_mem hj
    obtain ⟨b, hblen, hb, -⟩ := leafDigest_recordHash _ (hD _ hmem)
    have hsame := leafDigest_inj _ hinj D[i.toNat] h r hs hleaf
      (fun c hc => List.mem_append_left _ (List.mem_append_left _ (mem_leafInputs D _ c hmem hc)))
      (fun c hc => List.mem_append_right _ (List.mem_append_left _
        (mem_leafInputs [h] h c (List.mem_singleton.mpr rfl) hc)))
    exact ⟨hi, i.toNat, by omega, D[i.toNat], b, List.getElem?_eq_getElem hj, hblen, hb,
      by rw [← hsame, hb]⟩

def sampleHashes : List Str := [List.replicate 64 (cp '0'), List.replicate 64 (cp '1')]

def sampleRoot : Digest :=
  node (sha256 (leafInput (List.replicate 32 0))) (sha256 (leafInput (List.replicate 32 0x11)))

def sampleHashInputs : List Bytes := [leafInput (List.replicate 32 0), leafInput (List.replicate 32 0x11),
  nodeInput (sha256 (leafInput (List.replicate 32 0)), sha256 (leafInput (List.replicate 32 0x11)))]

set_option maxRecDepth 2000 in
theorem sample_inclusion :
    (merkleRoot sampleHashes = .ok (digestHex sampleRoot) ∧ (sampleHashInputs.map sha256).Nodup) ∧
    (∀ x ∈ leafInputs sampleHashes ++ treeInputs sampleHashes ++ verifyInclusionInputs
        (List.replicate 64 (cp '1')) 1 sampleHashes.length
        [digestHex (sha256 (leafInput (List.replicate 32 0)))], x ∈ sampleHashInputs) ∧
    verifyInclusion (List.replicate 64 (cp '1')) 1 sampleHashes.length
      [digestHex (sha256 (leafInput (List.replicate 32 0)))] (digestHex sampleRoot) = true := by
  decide

theorem sample_injOn (inputs : List Bytes) (h : ∀ x ∈ inputs, x ∈ sampleHashInputs) :
    Set.InjOn sha256 {x | x ∈ inputs} :=
  (injOn_of_nodup _ sample_inclusion.1.2).mono h

theorem inclusion_complete_and_sound_sample :
    ∃ j : ℕ, (1 : ℤ) = j ∧ ∃ s b, sampleHashes[j]? = some s ∧ b.length = 32 ∧
      fromhex s = .ok b ∧ fromhex (List.replicate 64 (cp '1')) = .ok b :=
  ((inclusion_complete_and_sound sampleHashes (by decide) (by decide)).2 1
    (List.replicate 64 (cp '1')) [digestHex (sha256 (leafInput (List.replicate 32 0)))]
    (digestHex sampleRoot) sample_inclusion.1.1 (sample_injOn _ sample_inclusion.2.1)
    sample_inclusion.2.2).2

def verifyConsistencyInputs (firstSize : ℤ) (firstRootHex : Str) (secondSize : ℤ)
    (proofHex : List Str) : List Bytes :=
  if firstSize = 0 then [[]]
  else if firstSize < 0 ∨ secondSize ≤ firstSize then []
  else match decodeHash firstRootHex, decodeHashList proofHex with
    | some firstRoot, some path =>
      (consistencyPairs firstSize.toNat secondSize.toNat firstRoot path).map nodeInput
    | _, _ => []

theorem verifyConsistency_inv (m n : ℤ) (r root : Str) (proof : List Str)
    (h : verifyConsistency m r n root proof = true) :
    0 ≤ m ∧ m ≤ n ∧ ∃ first second, decodeHash r = some first ∧ decodeHash root = some second ∧
      (m = 0 ∨ (0 < m ∧ m = n ∧ first = second) ∨
        (0 < m ∧ m < n ∧ ∃ path, decodeHashList proof = some path ∧
          verifyConsistencyPath m.toNat n.toNat first second path = true)) := by
  unfold verifyConsistency at h
  by_cases hrange : m < 0 ∨ n < m
  · rw [if_pos hrange] at h
    cases h
  · rw [if_neg hrange] at h
    cases hr : decodeHash r with
    | none =>
      rw [hr] at h
      cases h
    | some first =>
      cases hs : decodeHash root with
      | none =>
        rw [hr, hs] at h
        cases h
      | some second =>
        rw [hr, hs] at h
        simp only at h
        refine ⟨by omega, by omega, first, second, rfl, rfl, ?_⟩
        by_cases h0 : m = 0
        · exact Or.inl h0
        · rw [if_neg h0] at h
          by_cases heq : m = n
          · rw [if_pos heq] at h
            simp only [Bool.and_eq_true, beq_iff_eq] at h
            exact Or.inr (Or.inl ⟨by omega, heq, h.2⟩)
          · rw [if_neg heq] at h
            cases hp : decodeHashList proof with
            | none =>
              rw [hp] at h
              cases h
            | some path =>
              rw [hp] at h
              simp only at h
              by_cases hempty : path.isEmpty = true
              · rw [if_pos hempty] at h
                cases h
              · rw [if_neg hempty] at h
                exact Or.inr (Or.inr ⟨by omega, by omega, path, rfl, h⟩)

theorem verifyConsistency_sound (m : ℕ) (r root : Str) (proof : List Str) (leaves : List Digest)
    (S : Set Bytes) (hS : Set.InjOn sha256 S) (hm : 0 < m)
    (hroot : decodeHash root = some (MerkleTree.mth node leaves))
    (htree : ∀ p ∈ MerkleTree.pairs node leaves, nodeInput p ∈ S)
    (hrun : ∀ x ∈ verifyConsistencyInputs m r leaves.length proof, x ∈ S)
    (h : verifyConsistency m r leaves.length root proof = true) :
    m ≤ leaves.length ∧ decodeHash r = some (MerkleTree.mth node (leaves.take m)) ∧
      ∀ p ∈ MerkleTree.pairs node (leaves.take m), nodeInput p ∈ S := by
  obtain ⟨-, hmn, first, second, hfirst, hsecond, hcases⟩ := verifyConsistency_inv _ _ _ _ _ h
  rw [hroot] at hsecond
  have hsec := Option.some.inj hsecond
  rcases hcases with h0 | ⟨-, heq, hsame⟩ | ⟨-, hlt, path, hpath, hver⟩
  · omega
  · have hmeq : m = leaves.length := by omega
    rw [hmeq, List.take_length, hfirst, hsame, ← hsec]
    exact ⟨le_rfl, rfl, htree⟩
  · have hpairs : ∀ p ∈ consistencyPairs m leaves.length first path, nodeInput p ∈ S := by
      intro p hp
      refine hrun _ ?_
      unfold verifyConsistencyInputs
      rw [if_neg (by omega), if_neg (by omega), hfirst, hpath]
      simp only [Int.toNat_natCast]
      exact List.mem_map_of_mem hp
    have hnode := node_injOn S {p | p ∈ MerkleTree.pairs node leaves ∨
        p ∈ consistencyPairs m leaves.length first path} hS (by
      intro p hp
      rcases hp with hp | hp
      · exact htree p hp
      · exact hpairs p hp)
    rw [← hsec] at hver
    simp only [Int.toNat_natCast] at hver
    obtain ⟨hroot', hsub⟩ := verifyConsistencyPath_sound m first path leaves hm (by omega) hnode hver
    rw [hfirst, hroot']
    refine ⟨by omega, rfl, ?_⟩
    intro p hp
    rcases hsub p hp with hp | hp
    · exact htree p hp
    · exact hpairs p hp

theorem consistency_complete_and_sound (D : List Str) (hD : ∀ s ∈ D, IsRecordHash s) :
    (∀ m : ℕ, 0 < m → m ≤ D.length → ∃ first second proof,
      merkleRoot (D.take m) = .ok first ∧ merkleRoot D = .ok second ∧
      consistencyPath m D = .ok proof ∧
      verifyConsistency m first D.length second proof = true) ∧
    (∀ (m : ℕ) (r second : Str) (proof : List Str), 0 < m → m ≤ D.length →
      merkleRoot D = .ok second →
      Set.InjOn sha256 {x | x ∈ treeInputs D ++ verifyConsistencyInputs m r D.length proof} →
      verifyConsistency m r D.length second proof = true →
      ∃ first b, merkleRoot (D.take m) = .ok first ∧ b.length = 32 ∧ fromhex first = .ok b ∧
        fromhex r = .ok b) := by
  obtain ⟨leaves, hleaves⟩ := leaves_of_recordHashes D hD
  have hlen := hleaves.length_eq
  have htake : ∀ m : ℕ, 0 < m → m ≤ D.length →
      merkleRoot (D.take m) = .ok (digestHex (MerkleTree.mth node (leaves.take m))) := by
    intro m hm hmD
    exact merkleRoot_slice _ _ (List.forall₂_take m hleaves) (by rw [List.length_take]; omega)
  constructor
  · intro m hm hmD
    have hroot := merkleRoot_slice D leaves hleaves (by omega)
    by_cases heq : m = D.length
    · refine ⟨_, _, [], htake m hm hmD, hroot, ?_, ?_⟩
      · simp [consistencyPath, heq, show 0 < D.length by omega]
      · rw [heq, hlen, List.take_length]
        simp [verifyConsistency, decodeHash_digestHex, show leaves.length ≠ 0 by omega]
    · have hproof := subproof_eq D.length m D leaves true hleaves hm hmD le_rfl
      obtain ⟨hne, hver⟩ := verifyConsistencyPath_complete m leaves hm (by omega)
      have hgen : consistencyPath m D =
          .ok ((MerkleTree.subproof node m leaves true).map digestHex) := by
        unfold consistencyPath
        rw [if_neg (by omega), if_neg (by omega)]
        exact hproof
      refine ⟨_, _, _, htake m hm hmD, hroot, hgen, ?_⟩
      unfold verifyConsistency
      rw [if_neg (by omega), decodeHash_digestHex, decodeHash_digestHex]
      simp only
      rw [if_neg (by omega), if_neg (by omega), decodeHashList_digestHex]
      simp only [List.isEmpty_iff, hne, if_false, Int.toNat_natCast, hlen]
      exact hver
  · intro m r second proof hm hmD hsecond hinj hver
    have hroot := merkleRoot_slice D leaves hleaves (by omega)
    rw [hroot] at hsecond
    rw [← Except.ok.inj hsecond, hlen] at hver
    obtain ⟨-, hr, -⟩ := verifyConsistency_sound m r _ proof leaves _ hinj hm
      (decodeHash_digestHex _)
      (fun p hp => List.mem_append_left _
        (by rw [treeInputs_eq D leaves hleaves]; exact List.mem_map_of_mem hp))
      (fun x hx => List.mem_append_right _ (by rw [hlen]; exact hx)) hver
    refine ⟨_, (MerkleTree.mth node (leaves.take m)).bytes, htake m hm hmD, Digest.length_eq _,
      ?_, decodeHash_fromhex r _ hr⟩
    exact decodeHash_fromhex _ _ (decodeHash_digestHex _)

def capitalRoot : Str := lit
    ['7', 'F', '9', 'C', '9', 'E', '3', '1', 'A', 'C', '8', '2', '5', '6', 'C', 'A',
     '2', 'F', '2', '5', '8', '5', '8', '3', 'D', 'F', '2', '6', '2', 'D', 'B', 'C',
     '7', 'D', '6', 'F', '6', '8', 'F', '2', 'A', '0', '3', '0', '4', '3', 'D', '5',
     'C', '9', '9', 'A', '4', 'A', 'E', '5', 'A', '7', '3', '9', '6', 'C', 'E', '9']

set_option maxRecDepth 2000 in
theorem sample_consistency :
    (∀ x ∈ leafInputs sampleHashes ++ treeInputs sampleHashes ++ verifyConsistencyInputs 1 capitalRoot
        sampleHashes.length [digestHex (sha256 (leafInput (List.replicate 32 0x11)))],
      x ∈ sampleHashInputs) ∧
    verifyConsistency 1 capitalRoot sampleHashes.length (digestHex sampleRoot)
      [digestHex (sha256 (leafInput (List.replicate 32 0x11)))] = true ∧
    merkleRoot (sampleHashes.take 1) ≠ .ok capitalRoot := by
  decide

theorem consistency_complete_and_sound_sample :
    ∃ first b, merkleRoot (sampleHashes.take 1) = .ok first ∧ b.length = 32 ∧
      fromhex first = .ok b ∧ fromhex capitalRoot = .ok b :=
  (consistency_complete_and_sound sampleHashes (by decide)).2 1 capitalRoot (digestHex sampleRoot)
    [digestHex (sha256 (leafInput (List.replicate 32 0x11)))] (by decide) (by decide)
    sample_inclusion.1.1
    (sample_injOn _ fun x hx => sample_consistency.1 x (List.append_assoc .. ▸ List.mem_append_right _ hx))
    sample_consistency.2.1

/-- The verifier decodes roots and so cannot tell the case of their digits:
the root it accepts need not be the string `merkle_root` returns. -/
theorem consistency_root_text_differs :
    ∃ (D : List Str) (m : ℕ) (r second : Str) (proof : List Str),
      (∀ s ∈ D, IsRecordHash s) ∧ 0 < m ∧ m ≤ D.length ∧ merkleRoot D = .ok second ∧
      Set.InjOn sha256 {x | x ∈ leafInputs D ++ treeInputs D ++
        verifyConsistencyInputs m r D.length proof} ∧
      verifyConsistency m r D.length second proof = true ∧ merkleRoot (D.take m) ≠ .ok r :=
  ⟨sampleHashes, 1, capitalRoot, digestHex sampleRoot,
    [digestHex (sha256 (leafInput (List.replicate 32 0x11)))], by decide, by decide, by decide,
    sample_inclusion.1.1, sample_injOn _ sample_consistency.1, sample_consistency.2.1,
    sample_consistency.2.2⟩

end TexGovernance.Interchange
