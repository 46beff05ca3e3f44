import TexGovernance.Lib.DigestTree
import TexGovernance.Lib.PyRepr
import TexGovernance.Lib.Pipeline

/-!
# The Merkle context tree of the cosign

`c2pa/cosign_context_tree.py`: the root over labelled leaves, where an odd level repeats its last
node, inclusion proofs, and their verifier, which knows neither the number of leaves nor the
depth of the tree.
-/

namespace TexGovernance.C2pa
open PyStr PyBytes PyCodec PyRepr Sha256
open DigestTree (node IsDigest)
open DuplicateTree (climb climbed inclusionPath ascend ascended)

structure MerkleLeaf where
  label : Str
  valueJson : Str
  deriving DecidableEq

def MerkleLeaf.preimage (leaf : MerkleLeaf) : Except PyErr Bytes := do
  let label ← utf8Encode leaf.label
  let value ← utf8Encode leaf.valueJson
  return label ++ 0 :: value

def MerkleLeaf.digest (leaf : MerkleLeaf) : Except PyErr Bytes := do
  let bytes ← leaf.preimage
  return (sha256 bytes).bytes

def merkleRoot (leaves : List MerkleLeaf) : Except PyErr Bytes :=
  if leaves = [] then .error .valueError
  else do
    let level ← leaves.mapM MerkleLeaf.digest
    match climb Prod.mk (Function.uncurry node) level.length level with
    | root :: _ => return root
    | [] => throw .other

/-- The sibling of an odd last node is the node itself. -/
def merkleProof (leaves : List MerkleLeaf) (leafIndex : ℤ) : Except PyErr (List Bytes) :=
  if ¬ (0 ≤ leafIndex ∧ leafIndex < leaves.length) then .error .other
  else do
    let level ← leaves.mapM MerkleLeaf.digest
    return inclusionPath node level.length level leafIndex.toNat

def verifyMerkleProof (leaf : MerkleLeaf) (leafIndex : ℤ) (proof : List Bytes) (expectedRoot : Bytes) :
    Except PyErr Bool := do
  let current ← leaf.digest
  return ascend node current leafIndex proof = expectedRoot

def Encodable (leaf : MerkleLeaf) : Prop := Plain leaf.label ∧ Plain leaf.valueJson

theorem preimage_of_encodable {leaf : MerkleLeaf} (h : Encodable leaf) :
    leaf.preimage = .ok (utf8 leaf.label ++ 0 :: utf8 leaf.valueJson) := by
  unfold MerkleLeaf.preimage
  rw [utf8Encode_eq h.1, utf8Encode_eq h.2]
  rfl

theorem digest_ok {leaf : MerkleLeaf} {d : Bytes} (h : leaf.digest = .ok d) :
    ∃ bytes, leaf.preimage = .ok bytes ∧ d = (sha256 bytes).bytes := by
  obtain ⟨bytes, hbytes, hd⟩ := Pipeline.bind_ok h
  exact ⟨bytes, hbytes, (Except.ok.inj hd).symm⟩

theorem exists_level {leaves : List MerkleLeaf} (h : ∀ leaf ∈ leaves, Encodable leaf) :
    ∃ level, leaves.mapM MerkleLeaf.digest = .ok level := by
  induction leaves with
  | nil => exact ⟨[], rfl⟩
  | cons leaf leaves ih =>
    obtain ⟨level, hlevel⟩ := ih fun other hmem => h other (List.mem_cons_of_mem _ hmem)
    have hdigest : leaf.digest = .ok (sha256 (utf8 leaf.label ++ 0 :: utf8 leaf.valueJson)).bytes := by
      unfold MerkleLeaf.digest
      rw [preimage_of_encodable (h leaf List.mem_cons_self)]
      rfl
    refine ⟨(sha256 (utf8 leaf.label ++ 0 :: utf8 leaf.valueJson)).bytes :: level, ?_⟩
    rw [List.mapM_cons, hdigest, hlevel]
    rfl

section Levels

variable {leaves : List MerkleLeaf} {level : List Bytes}

theorem digest_getElem? (h : leaves.mapM MerkleLeaf.digest = .ok level) (i : ℕ) (d : Bytes) :
    level[i]? = some d ↔ ∃ leaf, leaves[i]? = some leaf ∧ leaf.digest = .ok d := by
  have hpairs := (mapM_ok_iff _ _ _).mp h
  constructor
  · intro hd
    obtain ⟨hlt, rfl⟩ := List.getElem?_eq_some_iff.mp hd
    have hleaf : i < leaves.length := hpairs.length_eq ▸ hlt
    exact ⟨leaves[i], List.getElem?_eq_getElem hleaf, hpairs.get hleaf hlt⟩
  · intro hleaf
    obtain ⟨leaf, hget, hdigest⟩ := hleaf
    obtain ⟨hlt, rfl⟩ := List.getElem?_eq_some_iff.mp hget
    have hlevel : i < level.length := hpairs.length_eq ▸ hlt
    have hd : leaves[i].digest = .ok level[i] := hpairs.get hlt hlevel
    rw [List.getElem?_eq_getElem hlevel]
    exact congrArg some (Except.ok.inj (hd.symm.trans hdigest))

theorem length_level (h : leaves.mapM MerkleLeaf.digest = .ok level) : level.length = leaves.length :=
  ((mapM_ok_iff _ _ _).mp h).length_eq.symm

theorem merkleRoot_ok_iff (h : leaves.mapM MerkleLeaf.digest = .ok level) {root : Bytes} :
    merkleRoot leaves = .ok root ↔
      leaves ≠ [] ∧ climb Prod.mk (Function.uncurry node) level.length level = [root] := by
  unfold merkleRoot
  by_cases hempty : leaves = []
  · rw [if_pos hempty]
    constructor
    · intro herror
      cases herror
    · intro hboth
      exact absurd hempty hboth.1
  · have hlevel : level ≠ [] := by
      rw [← List.length_pos_iff, length_level h]
      exact List.length_pos_iff.mpr hempty
    obtain ⟨top, htop⟩ := DuplicateTree.climb_single Prod.mk (Function.uncurry node) level.length level hlevel
      (Nat.le_succ _)
    rw [if_neg hempty, h]
    simp only [bind, Except.bind, htop]
    constructor
    · intro hroot
      exact ⟨hempty, congrArg (· :: []) (Except.ok.inj hroot)⟩
    · intro hboth
      exact congrArg Except.ok (List.cons.inj hboth.2).1

theorem verify_ok {leaf : MerkleLeaf} {index : ℤ} {proof : List Bytes} {root : Bytes}
    (h : verifyMerkleProof leaf index proof root = .ok true) :
    ∃ d, leaf.digest = .ok d ∧ ascend node d index proof = root := by
  obtain ⟨d, hd, hroot⟩ := Pipeline.bind_ok h
  exact ⟨d, hd, of_decide_eq_true (Except.ok.inj hroot)⟩

theorem proof_accepted (h : leaves.mapM MerkleLeaf.digest = .ok level) {root : Bytes}
    (hroot : merkleRoot leaves = .ok root) {i : ℕ} {leaf : MerkleLeaf} (hleaf : leaves[i]? = some leaf) :
    ∃ proof, merkleProof leaves i = .ok proof ∧ verifyMerkleProof leaf i proof root = .ok true := by
  have hlt : i < leaves.length := (List.getElem?_eq_some_iff.mp hleaf).1
  have hlevel : i < level.length := by rwa [length_level h]
  obtain ⟨leaf', hleaf', hdigest⟩ := (digest_getElem? h i level[i]).mp (List.getElem?_eq_getElem hlevel)
  obtain rfl := Option.some.inj (hleaf'.symm.trans hleaf)
  obtain ⟨top, hclimb, hwalk⟩ := @DuplicateTree.walk_inclusionPath _ node _ level.length _ _ _
    (List.getElem?_eq_getElem hlevel) (Nat.le_succ _)
  have htop : top = root :=
    (List.cons.inj (hclimb.symm.trans ((merkleRoot_ok_iff h).mp hroot).2)).1
  refine ⟨inclusionPath node level.length level i, ?_, ?_⟩
  · unfold merkleProof
    rw [if_neg (not_not.mpr ⟨Int.natCast_nonneg i, Int.ofNat_lt.mpr hlt⟩), h]
    rfl
  · unfold verifyMerkleProof
    rw [hdigest]
    exact congrArg Except.ok (decide_eq_true ((DuplicateTree.ascend_of_walk hwalk).trans htop))

def hashedPairs (level : List Bytes) (current : Bytes) (index : ℤ) (proof : List Bytes) : List (Bytes × Bytes) :=
  climbed Prod.mk (Function.uncurry node) level.length level ++ ascended node current index proof

/-- Everything that is hashed for the root over some leaves, and to check a proof. -/
def Hashed (leaves : List MerkleLeaf) (leaf : MerkleLeaf) (index : ℤ) (proof : List Bytes) (bytes : Bytes) : Prop :=
  (∃ l ∈ leaf :: leaves, l.preimage = .ok bytes) ∨
    ∃ level current, leaves.mapM MerkleLeaf.digest = .ok level ∧ leaf.digest = .ok current ∧
      ∃ p ∈ hashedPairs level current index proof, bytes = p.1 ++ p.2

/-- No preimage of a leaf is hashed for an inner node as well. -/
def LeavesApart (leaves : List MerkleLeaf) (leaf : MerkleLeaf) (index : ℤ) (proof : List Bytes) : Prop :=
  ∀ level current, leaves.mapM MerkleLeaf.digest = .ok level → leaf.digest = .ok current →
    ∀ p ∈ hashedPairs level current index proof, ∀ l ∈ leaf :: leaves, l.preimage ≠ .ok (p.1 ++ p.2)

theorem accepted_leaf (h : leaves.mapM MerkleLeaf.digest = .ok level) {root : Bytes}
    (hroot : merkleRoot leaves = .ok root) {leaf : MerkleLeaf} {index : ℤ} {proof : List Bytes}
    (hsha : Set.InjOn sha256 {bytes | Hashed leaves leaf index proof bytes})
    (hapart : LeavesApart leaves leaf index proof) (hverify : verifyMerkleProof leaf index proof root = .ok true) :
    ∃ (j : ℕ) (l : MerkleLeaf), leaves[j]? = some l ∧ l.digest = leaf.digest ∧
      (0 ≤ index → index < leaves.length → (j : ℤ) = index) := by
  obtain ⟨current, hcurrent, hascend⟩ := verify_ok hverify
  obtain ⟨bytes, hbytes, rfl⟩ := digest_ok hcurrent
  have hlevel : ∀ d ∈ level, ∃ l ∈ leaves, l.digest = .ok d := by
    intro d hd
    obtain ⟨i, hi⟩ := List.mem_iff_getElem?.mp hd
    obtain ⟨l, hl, hdigest⟩ := (digest_getElem? h i d).mp hi
    exact ⟨l, List.mem_of_getElem? hl, hdigest⟩
  have hbinds := @DigestTree.binds_of_injOn {p | p ∈ hashedPairs level _ index proof}
    (hsha.mono fun x hx => by
      obtain ⟨p, hp, rfl⟩ := hx
      exact .inr ⟨level, _, h, hcurrent, p, hp, rfl⟩)
  -- a leaf with the hash of a pair would have its preimage
  have hinner : ∀ p ∈ hashedPairs level (sha256 bytes).bytes index proof,
      ∀ d ∈ (sha256 bytes).bytes :: level, node p.1 p.2 ≠ d := by
    intro p hp d hd hsame
    obtain ⟨l, hl, hdigest⟩ : ∃ l ∈ leaf :: leaves, l.digest = .ok d := by
      obtain rfl | hd := List.mem_cons.mp hd
      · exact ⟨leaf, List.mem_cons_self, hcurrent⟩
      · obtain ⟨l, hl, hdigest⟩ := hlevel d hd
        exact ⟨l, List.mem_cons_of_mem _ hl, hdigest⟩
    obtain ⟨preimage, hpreimage, rfl⟩ := digest_ok hdigest
    have hequal := hsha (.inr ⟨level, _, h, hcurrent, p, hp, rfl⟩) (.inl ⟨l, hl, hpreimage⟩)
      (Digest.ext_bytes _ _ hsame)
    exact hapart level _ h hcurrent p hp l hl (by rw [hpreimage, hequal])
  have hgood : ∀ d ∈ level, IsDigest d := by
    intro d hd
    obtain ⟨l, -, hdigest⟩ := hlevel d hd
    obtain ⟨preimage, -, rfl⟩ := digest_ok hdigest
    exact (sha256 preimage).length_eq
  obtain ⟨hmem, hindex⟩ := DuplicateTree.leaf_of_ascend hbinds hgood ((merkleRoot_ok_iff h).mp hroot).2
    (fun p hp => List.mem_append_left _ hp) (sha256 bytes).length_eq hascend
    (fun p hp => List.mem_append_right _ hp) hinner
  by_cases hrange : 0 ≤ index ∧ index < leaves.length
  · have hplace := hindex hrange.1 (by rw [length_level h]; exact hrange.2)
    obtain ⟨l, hl, hdigest⟩ := (digest_getElem? h _ _).mp hplace
    exact ⟨index.toNat, l, hl, hdigest.trans hcurrent.symm, fun _ _ => Int.toNat_of_nonneg hrange.1⟩
  · obtain ⟨j, hj⟩ := List.mem_iff_getElem?.mp hmem
    obtain ⟨l, hl, hdigest⟩ := (digest_getElem? h j _).mp hj
    exact ⟨j, l, hl, hdigest.trans hcurrent.symm, fun hlow hhigh => absurd ⟨hlow, hhigh⟩ hrange⟩

end Levels

/-- The proof of every leaf is accepted at its index; an accepted proof presents one of the
leaves, and the one of its index where the tree has that index. -/
theorem context_tree_proofs {leaves : List MerkleLeaf} (hne : leaves ≠ [])
    (hencodable : ∀ leaf ∈ leaves, Encodable leaf) :
    ∃ root, merkleRoot leaves = .ok root ∧
      (∀ (i : ℕ) (leaf : MerkleLeaf), leaves[i]? = some leaf →
        ∃ proof, merkleProof leaves i = .ok proof ∧ verifyMerkleProof leaf i proof root = .ok true) ∧
      ∀ (leaf : MerkleLeaf) (index : ℤ) (proof : List Bytes),
        Set.InjOn sha256 {bytes | Hashed leaves leaf index proof bytes} → LeavesApart leaves leaf index proof →
        verifyMerkleProof leaf index proof root = .ok true →
        ∃ (j : ℕ) (l : MerkleLeaf), leaves[j]? = some l ∧ l.digest = leaf.digest ∧
          (0 ≤ index → index < leaves.length → (j : ℤ) = index) := by
  obtain ⟨level, hlevel⟩ := exists_level hencodable
  have hsome : level ≠ [] := by
    rw [← List.length_pos_iff, length_level hlevel]
    exact List.length_pos_iff.mpr hne
  obtain ⟨root, hclimb⟩ := DuplicateTree.climb_single Prod.mk (Function.uncurry node) level.length level hsome
    (Nat.le_succ _)
  have hroot : merkleRoot leaves = .ok root := (merkleRoot_ok_iff hlevel).mpr ⟨hne, hclimb⟩
  exact ⟨root, hroot, fun i leaf hleaf => proof_accepted hlevel hroot hleaf,
    fun leaf index proof hsha hapart hverify => accepted_leaf hlevel hroot hsha hapart hverify⟩

def sampleLeaves : List MerkleLeaf := [⟨txt "a", txt "1"⟩, ⟨txt "b", txt "2"⟩, ⟨txt "c", txt "3"⟩]

def lastLeaf : MerkleLeaf := ⟨txt "c", txt "3"⟩

def sampleDigest (letter digit : Byte) : Bytes := (sha256 [letter, 0, digit]).bytes

def sampleLevel : List Bytes := [sampleDigest 97 49, sampleDigest 98 50, sampleDigest 99 51]

/-- The proof of the last leaf: itself, and the node over the two others. -/
def lastProof : List Bytes := [sampleDigest 99 51, node (sampleDigest 97 49) (sampleDigest 98 50)]

def sampleInputs : List Bytes :=
  [[97, 0, 49], [98, 0, 50], [99, 0, 51], sampleDigest 97 49 ++ sampleDigest 98 50,
    sampleDigest 99 51 ++ sampleDigest 99 51,
    node (sampleDigest 97 49) (sampleDigest 98 50) ++ node (sampleDigest 99 51) (sampleDigest 99 51)]

theorem sampleLevel_eq : sampleLeaves.mapM MerkleLeaf.digest = .ok sampleLevel := rfl

theorem encodable_sampleLeaves : ∀ leaf ∈ sampleLeaves, Encodable leaf := by
  intro leaf hleaf
  simp only [sampleLeaves, List.mem_cons, List.not_mem_nil, or_false] at hleaf
  obtain rfl | rfl | rfl := hleaf
  all_goals exact ⟨plain_txt _, plain_txt _⟩

section Three

variable {δ : Type} (node : δ → δ → δ) (a b c : δ)

theorem climb_three : climb Prod.mk (Function.uncurry node) 3 [a, b, c] = [node (node a b) (node c c)] := rfl

theorem climbed_three : climbed Prod.mk (Function.uncurry node) 3 [a, b, c] =
    [(a, b), (c, c), (node a b, node c c)] := rfl

theorem ascend_three {index : ℤ} (h : index = 2 ∨ index = 3) :
    ascend node c index [c, node a b] = node (node a b) (node c c) ∧
      ascended node c index [c, node a b] = [(c, c), (node a b, node c c)] := by
  obtain rfl | rfl := h
  · exact ⟨rfl, rfl⟩
  · exact ⟨rfl, rfl⟩

end Three

theorem hashedPairs_sample {index : ℤ} (h : index = 2 ∨ index = 3) :
    hashedPairs sampleLevel (sampleDigest 99 51) index lastProof =
      [(sampleDigest 97 49, sampleDigest 98 50), (sampleDigest 99 51, sampleDigest 99 51),
        (node (sampleDigest 97 49) (sampleDigest 98 50), node (sampleDigest 99 51) (sampleDigest 99 51))] ++
      [(sampleDigest 99 51, sampleDigest 99 51),
        (node (sampleDigest 97 49) (sampleDigest 98 50), node (sampleDigest 99 51) (sampleDigest 99 51))] :=
  congrArg₂ _ (climbed_three node _ _ _) (ascend_three node _ _ _ h).2

theorem lastLeaf_digest : lastLeaf.digest = .ok (sampleDigest 99 51) := rfl

theorem leaves_short {l : MerkleLeaf} (h : l ∈ lastLeaf :: sampleLeaves) :
    ∃ bytes ∈ sampleInputs, l.preimage = .ok bytes ∧ bytes.length = 3 := by
  simp only [sampleLeaves, List.mem_cons, List.not_mem_nil, or_false] at h
  obtain rfl | rfl | rfl | rfl := h
  all_goals exact ⟨_, by decide, rfl, rfl⟩

theorem hashed_sample {index : ℤ} (h : index = 2 ∨ index = 3) {bytes : Bytes}
    (hhashed : Hashed sampleLeaves lastLeaf index lastProof bytes) : bytes ∈ sampleInputs := by
  obtain ⟨l, hl, hpreimage⟩ | ⟨level, current, hlevel, hcurrent, p, hp, rfl⟩ := hhashed
  · obtain ⟨preimage, hmem, hsame, -⟩ := leaves_short hl
    cases hsame.symm.trans hpreimage
    exact hmem
  · cases sampleLevel_eq.symm.trans hlevel
    cases lastLeaf_digest.symm.trans hcurrent
    rw [hashedPairs_sample h] at hp
    simp only [List.mem_append, List.mem_cons, List.not_mem_nil, or_false] at hp
    simp only [sampleInputs, List.mem_cons, List.not_mem_nil, or_false]
    obtain (rfl | rfl | rfl) | rfl | rfl := hp <;> simp

set_option maxRecDepth 2000 in
theorem injOn_sample {index : ℤ} (h : index = 2 ∨ index = 3) :
    Set.InjOn sha256 {bytes | Hashed sampleLeaves lastLeaf index lastProof bytes} :=
  (injOn_of_nodup sampleInputs (by decide)).mono fun _ hhashed => hashed_sample h hhashed

theorem leavesApart_sample {index : ℤ} (h : index = 2 ∨ index = 3) :
    LeavesApart sampleLeaves lastLeaf index lastProof := by
  intro level current hlevel hcurrent p hp l hl hpreimage
  obtain ⟨bytes, -, hbytes, hlength⟩ := leaves_short hl
  cases hbytes.symm.trans hpreimage
  cases sampleLevel_eq.symm.trans hlevel
  cases lastLeaf_digest.symm.trans hcurrent
  rw [hashedPairs_sample h] at hp
  have hdigest : IsDigest p.1 := by
    simp only [List.mem_append, List.mem_cons, List.not_mem_nil, or_false] at hp
    obtain (rfl | rfl | rfl) | rfl | rfl := hp <;> exact (sha256 _).length_eq
  rw [List.length_append, hdigest] at hlength
  omega

def sampleRoot : Bytes :=
  node (node (sampleDigest 97 49) (sampleDigest 98 50)) (node (sampleDigest 99 51) (sampleDigest 99 51))

theorem sampleRoot_eq : merkleRoot sampleLeaves = .ok sampleRoot :=
  (merkleRoot_ok_iff sampleLevel_eq).mpr ⟨List.cons_ne_nil _ _, climb_three node _ _ _⟩

theorem lastProof_accepted {index : ℤ} (h : index = 2 ∨ index = 3) :
    verifyMerkleProof lastLeaf index lastProof sampleRoot = .ok true := by
  unfold verifyMerkleProof
  rw [lastLeaf_digest]
  exact congrArg Except.ok (decide_eq_true (ascend_three node _ _ _ h).1)

theorem context_tree_proofs_sample : merkleRoot sampleLeaves = .ok sampleRoot ∧
    ∃ (j : ℕ) (l : MerkleLeaf), sampleLeaves[j]? = some l ∧ l.digest = lastLeaf.digest ∧ (j : ℤ) = 2 := by
  obtain ⟨root, hroot, -, hbinds⟩ := context_tree_proofs (List.cons_ne_nil _ _) encodable_sampleLeaves
  cases sampleRoot_eq.symm.trans hroot
  obtain ⟨j, l, hl, hdigest, hindex⟩ := hbinds lastLeaf 2 lastProof (injOn_sample (.inl rfl))
    (leavesApart_sample (.inl rfl)) (lastProof_accepted (.inl rfl))
  exact ⟨sampleRoot_eq, j, l, hl, hdigest, hindex (by decide) (by decide)⟩

/-- The last leaf is repeated, and accepted at the index of the repetition, which no leaf has. -/
theorem repeated_leaf_accepted : merkleRoot sampleLeaves = .ok sampleRoot ∧
    Set.InjOn sha256 {bytes | Hashed sampleLeaves lastLeaf 3 lastProof bytes} ∧
    (∀ l ∈ lastLeaf :: sampleLeaves, ∀ a b, IsDigest a → IsDigest b → l.preimage ≠ .ok (a ++ b)) ∧
    verifyMerkleProof lastLeaf 3 lastProof sampleRoot = .ok true ∧ ¬ 3 < sampleLeaves.length := by
  refine ⟨sampleRoot_eq, injOn_sample (.inr rfl), fun l hl a b ha hb hpreimage => ?_,
    lastProof_accepted (.inr rfl), by decide⟩
  obtain ⟨bytes, -, hbytes, hlength⟩ := leaves_short hl
  cases hbytes.symm.trans hpreimage
  rw [List.length_append, ha, hb] at hlength
  cases hlength

end TexGovernance.C2pa
