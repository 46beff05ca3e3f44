import TexGovernance.Lib.DuplicateTree
import TexGovernance.Lib.Sha2

/-!
# Paths that know no width, and trees of digests

A verifier that reads only the digits of an index climbs as the one with a width that is never
odd. Over SHA-256 a node binds its two parts when one of them is a digest.
-/

namespace DuplicateTree

variable {δ : Type} (node : δ → δ → δ)

def ascendPair (current sibling : δ) (index : ℤ) : δ × δ :=
  if index % 2 = 0 then (current, sibling) else (sibling, current)

def ascend (current : δ) (index : ℤ) : List δ → δ
  | [] => current
  | sibling :: rest =>
    let p := ascendPair current sibling index
    ascend (node p.1 p.2) (index / 2) rest

def ascended (current : δ) (index : ℤ) : List δ → List (δ × δ)
  | [] => []
  | sibling :: rest =>
    let p := ascendPair current sibling index
    p :: ascended (node p.1 p.2) (index / 2) rest

section Walks

variable {node} [DecidableEq δ]

theorem stepPair_zero (current sibling : δ) (index : ℤ) :
    stepPair current sibling index 0 = some (ascendPair current sibling index) := by
  unfold stepPair ascendPair
  by_cases heven : index % 2 = 0
  · rw [if_pos heven, if_neg (fun h => absurd h.2 (by decide)), if_pos heven]
  · rw [if_neg heven, if_neg heven]

theorem stepPair_eq {current sibling : δ} {index width : ℤ} {p : δ × δ}
    (h : stepPair current sibling index width = some p) : p = ascendPair current sibling index := by
  unfold stepPair at h
  unfold ascendPair
  split at h
  · next heven =>
    rw [if_pos heven]
    split at h
    · split at h
      · cases h
      · next hsame =>
        rw [← Option.some.inj h, not_not.mp hsame]
    · exact (Option.some.inj h).symm
  · next hodd =>
    rw [if_neg hodd]
    exact (Option.some.inj h).symm

theorem walk_zero (current : δ) (index : ℤ) (path : List δ) :
    walk node current index 0 path = some (ascend node current index path) ∧
      walked node current index 0 path = ascended node current index path := by
  induction path generalizing current index with
  | nil => exact ⟨rfl, rfl⟩
  | cons sibling rest ih =>
    obtain ⟨hwalk, hwalked⟩ := @walk_of_step _ node _ _ _ _ _ _ rest (stepPair_zero current sibling index)
    obtain ⟨hrest, hrestWalked⟩ := ih (node (ascendPair current sibling index).1 (ascendPair current sibling index).2)
      (index / 2)
    exact ⟨hwalk.trans hrest, hwalked.trans (congrArg _ hrestWalked)⟩

theorem ascend_of_walk {current root : δ} {index width : ℤ} {path : List δ}
    (h : walk node current index width path = some root) : ascend node current index path = root := by
  induction path generalizing current index width with
  | nil => exact Option.some.inj h
  | cons sibling rest ih =>
    obtain ⟨p, hstep, hrest, -⟩ := walk_cons h
    rw [stepPair_eq hstep] at hrest
    exact ih hrest

theorem leaf_of_ascend {good : δ → Prop} {used : Set (δ × δ)} {layer : List δ} {root : δ}
    (hbinds : Binds node good used) (hgood : ∀ l ∈ layer, good l)
    (hclimb : climb Prod.mk (Function.uncurry node) layer.length layer = [root])
    (hused : ∀ p ∈ climbed Prod.mk (Function.uncurry node) layer.length layer, p ∈ used)
    {current : δ} {index : ℤ} {path : List δ} (hcurrent : good current)
    (hroot : ascend node current index path = root) (hpath : ∀ p ∈ ascended node current index path, p ∈ used)
    (hapart : ∀ p ∈ used, ∀ l ∈ current :: layer, node p.1 p.2 ≠ l) :
    current ∈ layer ∧ (0 ≤ index → index < layer.length → layer[index.toNat]? = some current) := by
  obtain ⟨hwalk, hwalked⟩ := @walk_zero _ node _ current index path
  rw [hroot] at hwalk
  rw [← hwalked] at hpath
  constructor
  · obtain ⟨depth, htree, hpairs⟩ := exists_tree hgood hclimb hused
    obtain hshort | hequal | hlong := lt_trichotomy path.length depth
    · -- an inner node would be the leaf that is presented
      have hmem := mem_layer_of_walk hbinds htree hshort.le hcurrent hwalk hpath
      rw [show depth - path.length = depth - path.length - 1 + 1 by omega, Function.iterate_succ_apply',
        mem_nextLayer] at hmem
      obtain ⟨q, hq, hsame⟩ := hmem
      exact absurd hsame (hapart q (hused q (hpairs _ (by omega) q hq)) current List.mem_cons_self)
    · have hmem := mem_layer_of_walk hbinds htree hequal.le hcurrent hwalk hpath
      rwa [show depth - path.length = 0 by omega] at hmem
    · obtain ⟨p, hp, hmem⟩ := leaf_of_long_walk hbinds htree hlong hwalk hpath
      exact absurd rfl (hapart p (hpath p hp) _ (List.mem_cons_of_mem _ hmem))
  · intro hlow hhigh
    obtain ⟨pos, rfl⟩ := Int.eq_ofNat_of_zero_le hlow
    exact leaf_of_walk hbinds hgood hclimb hused (Int.ofNat_lt.mp hhigh) hcurrent hwalk hpath hapart

end Walks

end DuplicateTree

namespace DigestTree
open PyBytes Sha256

def node (left right : Bytes) : Bytes := (sha256 (left ++ right)).bytes

def IsDigest (bytes : Bytes) : Prop := bytes.length = 32

theorem isDigest_node (left right : Bytes) : IsDigest (node left right) := (sha256 _).length_eq

theorem binds_of_injOn {used : Set (Bytes × Bytes)} (h : Set.InjOn sha256 {x | ∃ p ∈ used, x = p.1 ++ p.2}) :
    DuplicateTree.Binds node IsDigest used where
  keeps := isDigest_node
  left := by
    intro p hp q hq hgood hgood' heq
    have hbytes := h ⟨p, hp, rfl⟩ ⟨q, hq, rfl⟩ (Digest.ext_bytes _ _ heq)
    exact (List.append_inj hbytes (hgood.trans hgood'.symm)).1
  right := by
    intro p hp q hq hgood hgood' heq
    have hbytes := h ⟨p, hp, rfl⟩ ⟨q, hq, rfl⟩ (Digest.ext_bytes _ _ heq)
    exact (List.append_inj' hbytes (hgood.trans hgood'.symm)).2

end DigestTree
