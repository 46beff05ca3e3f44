import TexGovernance.Lib.Sha2
import TexGovernance.Lib.MerkleTree

/-!
# RFC 9162 tree hash over record hashes (ecosystem/_window.py)

`leaf_hash`, `_mth` and `merkle_root`. Record hashes and roots are hexadecimal strings; inside,
nodes are 32-byte digests.
-/

namespace TexGovernance.Ecosystem
open PyStr PyBytes Sha256

def leafPrefix : Bytes := [0]

def innerPrefix : Bytes := [1]

def emptyRoot : Str := hex (sha256 []).bytes

/-- `leaf_hash`; the length is checked before the string is decoded, so white
space inside the 64 characters still decodes, to fewer bytes. -/
def leafHash (recordHashHex : Str) : Except PyErr Str :=
  if recordHashHex.length ≠ 64 then .error .valueError
  else match fromhex recordHashHex with
    | .error _ => .error .valueError
    | .ok recordBytes => .ok (hex (sha256 (leafPrefix ++ recordBytes)).bytes)

/-- `bytes.fromhex(leaf_hash(h))`, as both callers use it. -/
def leafDigest (recordHashHex : Str) : Except PyErr Digest :=
  match leafHash recordHashHex with
  | .error e => .error e
  | .ok text => match fromhex text with
    | .error e => .error e
    | .ok raw => if h : raw.length = 32 then .ok ⟨raw, h⟩ else .error .valueError

def node (left right : Digest) : Digest := sha256 (innerPrefix ++ left.bytes ++ right.bytes)

def mth (leaves : List Digest) : ℕ → ℕ → ℕ → Digest
  | 0, lo, _ => leaves.getD lo default
  | fuel + 1, lo, hi =>
    let n := hi - lo
    if n = 1 then leaves.getD lo default
    else
      let k := MerkleTree.splitPoint n
      node (mth leaves fuel lo (lo + k)) (mth leaves fuel (lo + k) hi)

def merkleRoot (recordHashesHex : List Str) : Except PyErr Str :=
  if recordHashesHex.length = 0 then .ok emptyRoot
  else match recordHashesHex.mapM leafDigest with
    | .error e => .error e
    | .ok leaves => .ok (hex (mth leaves leaves.length 0 leaves.length).bytes)

def leafInput (recordBytes : Bytes) : Bytes := leafPrefix ++ recordBytes

def nodeInput (p : Digest × Digest) : Bytes := innerPrefix ++ p.1.bytes ++ p.2.bytes

theorem nodeInput_inj (p q : Digest × Digest) (h : nodeInput p = nodeInput q) : p = q := by
  simp only [nodeInput, innerPrefix, List.cons_append, List.nil_append, List.cons.injEq,
    true_and] at h
  have hlen : p.1.bytes.length = q.1.bytes.length := by rw [p.1.length_eq, q.1.length_eq]
  obtain ⟨h1, h2⟩ := List.append_inj h hlen
  exact Prod.ext (Digest.ext_bytes _ _ h1) (Digest.ext_bytes _ _ h2)

theorem leafInput_inj (b c : Bytes) (h : leafInput b = leafInput c) : b = c :=
  List.append_cancel_left h

theorem leafDigest_ok_iff (s : Str) (d : Digest) :
    leafDigest s = .ok d ↔
      s.length = 64 ∧ ∃ b, fromhex s = .ok b ∧ d = sha256 (leafInput b) := by
  unfold leafDigest leafHash
  by_cases hlen : s.length = 64
  · cases hdec : fromhex s with
    | error e => simp [hlen]
    | ok b =>
      simp only [hlen, ne_eq, not_true_eq_false, if_false, fromhex_hex, Digest.length_eq, dite_true,
        true_and, Except.ok.injEq, exists_eq_left']
      exact eq_comm
  · simp [hlen]

def IsRecordHash (s : Str) : Prop := s.length = 64 ∧ isHexText s = true

instance (s : Str) : Decidable (IsRecordHash s) := inferInstanceAs (Decidable (_ ∧ _))

theorem leafDigest_recordHash (s : Str) (h : IsRecordHash s) :
    ∃ b, b.length = 32 ∧ fromhex s = .ok b ∧ leafDigest s = .ok (sha256 (leafInput b)) := by
  obtain ⟨b, hb, hlen⟩ := fromhex_hexText 32 s h.1 h.2
  exact ⟨b, hlen, hb, (leafDigest_ok_iff s _).mpr ⟨h.1, b, hb, rfl⟩⟩

theorem mth_eq (leaves : List Digest) (fuel lo hi : ℕ) (hlt : lo < hi) (hhi : hi ≤ leaves.length)
    (hfuel : hi - lo ≤ fuel) :
    mth leaves fuel lo hi = MerkleTree.mth node ((leaves.drop lo).take (hi - lo)) := by
  induction fuel generalizing lo hi with
  | zero => omega
  | succ fuel ih =>
    have hlen : ((leaves.drop lo).take (hi - lo)).length = hi - lo := by
      rw [List.length_take, List.length_drop]
      omega
    simp only [mth]
    by_cases h1 : hi - lo = 1
    · have hget : (leaves.drop lo).take 1 = [leaves.getD lo default] := by
        have hlo : lo < leaves.length := by omega
        rw [List.drop_eq_getElem_cons hlo, List.take_succ_cons, List.take_zero]
        simp [List.getD_eq_getElem?_getD, hlo]
      rw [if_pos h1, h1, hget, MerkleTree.mth_singleton]
    · have hk := MerkleTree.splitPoint_lt (hi - lo) (by omega)
      have hk0 := MerkleTree.splitPoint_pos (hi - lo) (by omega)
      rw [if_neg h1, MerkleTree.mth_split _ _ (by omega), hlen,
        ih lo _ (by omega) (by omega) (by omega), ih _ hi (by omega) hhi (by omega)]
      have hleft : lo + MerkleTree.splitPoint (hi - lo) - lo = MerkleTree.splitPoint (hi - lo) := by
        omega
      rw [hleft, List.take_take, Nat.min_eq_left hk.le, List.drop_take, List.drop_drop,
        Nat.sub_sub]

abbrev Leaves (D : List Str) (leaves : List Digest) : Prop :=
  List.Forall₂ (fun s d => leafDigest s = .ok d) D leaves

theorem merkleRoot_eq (D : List Str) (leaves : List Digest) (hD : Leaves D leaves)
    (hne : D ≠ []) : merkleRoot D = .ok (hex (MerkleTree.mth node leaves).bytes) := by
  have hlen := hD.length_eq
  have hpos : D.length ≠ 0 := fun h => hne (List.length_eq_zero_iff.mp h)
  have hroot := mth_eq leaves leaves.length 0 leaves.length (by omega) le_rfl le_rfl
  simp only [Nat.sub_zero, List.drop_zero, List.take_length] at hroot
  rw [merkleRoot, if_neg hpos, (mapM_ok_iff leafDigest D leaves).mpr hD]
  simp only [hroot]

theorem merkleRoot_inv (D : List Str) (root : Str) (h : merkleRoot D = .ok root) (hne : D ≠ []) :
    ∃ leaves, Leaves D leaves ∧ root = hex (MerkleTree.mth node leaves).bytes := by
  have hpos : D.length ≠ 0 := fun h0 => hne (List.length_eq_zero_iff.mp h0)
  cases hm : D.mapM leafDigest with
  | error e =>
    rw [merkleRoot, if_neg hpos, hm] at h
    cases h
  | ok leaves =>
    have hD := (mapM_ok_iff leafDigest D leaves).mp hm
    rw [merkleRoot_eq D leaves hD hne] at h
    exact ⟨leaves, hD, (Except.ok.inj h).symm⟩

theorem leaves_of_recordHashes (D : List Str) (h : ∀ s ∈ D, IsRecordHash s) :
    ∃ leaves, Leaves D leaves := by
  induction D with
  | nil => exact ⟨[], .nil⟩
  | cons s D ih =>
    obtain ⟨leaves, hleaves⟩ := ih fun t ht => h t (List.mem_cons_of_mem _ ht)
    obtain ⟨b, -, -, hd⟩ := leafDigest_recordHash s (h s List.mem_cons_self)
    exact ⟨_ :: leaves, .cons hd hleaves⟩

/-- What `leaf_hash` hashes for each record hash that decodes. -/
def leafInputs (D : List Str) : List Bytes :=
  D.filterMap fun s => (fromhex s).toOption.map leafInput

/-- What `_mth` hashes above the leaves. -/
def treeInputs (D : List Str) : List Bytes :=
  match D.mapM leafDigest with
  | .error _ => []
  | .ok leaves => (MerkleTree.pairs node leaves).map nodeInput

theorem mem_leafInputs (D : List Str) (s : Str) (b : Bytes) (hs : s ∈ D)
    (hb : fromhex s = .ok b) : leafInput b ∈ leafInputs D :=
  List.mem_filterMap.mpr ⟨s, hs, by rw [hb]; rfl⟩

theorem treeInputs_eq (D : List Str) (leaves : List Digest) (hD : Leaves D leaves) :
    treeInputs D = (MerkleTree.pairs node leaves).map nodeInput := by
  rw [treeInputs, (mapM_ok_iff leafDigest D leaves).mpr hD]

theorem node_injOn (S : Set Bytes) (P : Set (Digest × Digest)) (hS : Set.InjOn sha256 S)
    (hP : ∀ p ∈ P, nodeInput p ∈ S) : Set.InjOn (fun p : Digest × Digest => node p.1 p.2) P := by
  intro p hp q hq h
  exact nodeInput_inj p q (hS (hP p hp) (hP q hq) h)

theorem leafDigest_inj (S : Set Bytes) (hS : Set.InjOn sha256 S) (s t : Str) (d : Digest)
    (hs : leafDigest s = .ok d) (ht : leafDigest t = .ok d)
    (hsS : ∀ b, fromhex s = .ok b → leafInput b ∈ S)
    (htS : ∀ b, fromhex t = .ok b → leafInput b ∈ S) : fromhex s = fromhex t := by
  obtain ⟨-, b, hb, hbd⟩ := (leafDigest_ok_iff s d).mp hs
  obtain ⟨-, c, hc, hcd⟩ := (leafDigest_ok_iff t d).mp ht
  have hbc : b = c := leafInput_inj b c (hS (hsS b hb) (htS c hc) (hbd.symm.trans hcd))
  rw [hb, hc, hbc]

end TexGovernance.Ecosystem
