import Mathlib.Data.List.Basic
import Mathlib.Data.List.Nodup
import Mathlib.Data.Set.Function
import Mathlib.Logic.Function.Iterate

/-!
# Merkle trees that duplicate an odd last node

A level is hashed pair by pair into the next, an odd last node with itself.
-/

namespace DuplicateTree

variable {ι δ : Type} (join : δ → δ → ι) (hash : ι → δ)

def pairs : List δ → List ι
  | [] => []
  | [a] => [join a a]
  | a :: b :: rest => join a b :: pairs rest

def levelUp (level : List δ) : List δ := (pairs join level).map hash

def level (leaves : List ι) (k : ℕ) : List δ := (levelUp join hash)^[k] (leaves.map hash)

def climb : ℕ → List δ → List δ
  | 0, nodes => nodes
  | fuel + 1, nodes => if 1 < nodes.length then climb fuel (levelUp join hash nodes) else nodes

def climbed : ℕ → List δ → List ι
  | 0, _ => []
  | fuel + 1, nodes =>
    if 1 < nodes.length then pairs join nodes ++ climbed fuel (levelUp join hash nodes) else []

theorem length_pairs (nodes : List δ) : (pairs join nodes).length = (nodes.length + 1) / 2 := by
  induction nodes using pairs.induct with
  | case1 => simp [pairs]
  | case2 a => simp [pairs]
  | case3 a b rest ih =>
    rw [pairs, List.length_cons, ih, List.length_cons, List.length_cons]
    omega

theorem length_levelUp (nodes : List δ) : (levelUp join hash nodes).length = (nodes.length + 1) / 2 := by
  rw [levelUp, List.length_map, length_pairs]

theorem climb_single (fuel : ℕ) (nodes : List δ) (hne : nodes ≠ []) (hfuel : nodes.length ≤ fuel + 1) :
    ∃ root, climb join hash fuel nodes = [root] := by
  induction fuel generalizing nodes with
  | zero =>
    obtain ⟨a, rfl⟩ := List.length_eq_one_iff.mp
      (show nodes.length = 1 by have := List.length_pos_iff.mpr hne; omega)
    exact ⟨a, rfl⟩
  | succ fuel ih =>
    rw [climb]
    by_cases hlong : 1 < nodes.length
    · have hlength := length_levelUp join hash nodes
      rw [if_pos hlong]
      refine ih _ ?_ (by omega)
      rw [← List.length_pos_iff]
      omega
    · rw [if_neg hlong]
      exact List.length_eq_one_iff.mp (by have := List.length_pos_iff.mpr hne; omega)

theorem climb_level (fuel : ℕ) (nodes : List δ) : ∃ depth,
    climb join hash fuel nodes = (levelUp join hash)^[depth] nodes ∧
      ∀ k < depth, ∀ m ∈ pairs join ((levelUp join hash)^[k] nodes), m ∈ climbed join hash fuel nodes := by
  induction fuel generalizing nodes with
  | zero => exact ⟨0, rfl, fun k hk => absurd hk (Nat.not_lt_zero k)⟩
  | succ fuel ih =>
    rw [climb, climbed]
    by_cases hlong : 1 < nodes.length
    · obtain ⟨depth, hclimb, hhashed⟩ := ih (levelUp join hash nodes)
      rw [if_pos hlong, if_pos hlong]
      refine ⟨depth + 1, hclimb, fun k hk m hm => List.mem_append.mpr ?_⟩
      cases k with
      | zero => exact .inl hm
      | succ k => exact .inr (hhashed k (by omega) m hm)
    · rw [if_neg hlong]
      exact ⟨0, rfl, fun k hk => absurd hk (Nat.not_lt_zero k)⟩

section Binding

variable {join hash} {used : Set ι}

theorem eq_join_of_mem_pairs {m : ι} {nodes : List δ} (h : m ∈ pairs join nodes) :
    ∃ a b, m = join a b := by
  induction nodes using pairs.induct with
  | case1 => cases h
  | case2 a => exact ⟨a, a, List.mem_singleton.mp h⟩
  | case3 a b rest ih =>
    obtain h | h := List.mem_cons.mp h
    · exact ⟨a, b, h⟩
    · exact ih h

theorem mem_of_mem_pairs {x y : δ} (hjoin : ∀ a b a' b', join a b = join a' b' → a = a' ∧ b = b')
    {nodes : List δ} (h : join x y ∈ pairs join nodes) : x ∈ nodes := by
  induction nodes using pairs.induct with
  | case1 => cases h
  | case2 a =>
    rw [pairs, List.mem_singleton] at h
    rw [(hjoin _ _ _ _ h).1]
    exact List.mem_singleton_self a
  | case3 a b rest ih =>
    obtain h | h := List.mem_cons.mp h
    · rw [(hjoin _ _ _ _ h).1]
      exact List.mem_cons_self
    · exact List.mem_cons_of_mem _ (List.mem_cons_of_mem _ (ih h))

theorem nodup_pairs (hjoin : ∀ a b a' b', join a b = join a' b' → a = a' ∧ b = b') {nodes : List δ}
    (h : nodes.Nodup) : (pairs join nodes).Nodup := by
  induction nodes using pairs.induct with
  | case1 => exact List.nodup_nil
  | case2 a => exact List.nodup_singleton _
  | case3 a b rest ih =>
    obtain ⟨ha, hrest⟩ := List.nodup_cons.mp h
    refine List.nodup_cons.mpr ⟨fun hmem => ?_, ih (List.nodup_cons.mp hrest).2⟩
    exact ha (List.mem_cons_of_mem _ (mem_of_mem_pairs hjoin hmem))

theorem pairs_inj (hjoin : ∀ a b a' b', join a b = join a' b' → a = a' ∧ b = b') {nodes nodes' : List δ}
    (h : nodes.Nodup) (h' : nodes'.Nodup) (heq : pairs join nodes = pairs join nodes') :
    nodes = nodes' := by
  induction nodes using pairs.induct generalizing nodes' with
  | case1 =>
    match nodes' with
    | [] => rfl
    | [_] => cases heq
    | _ :: _ :: _ => cases heq
  | case2 a =>
    match nodes' with
    | [] => cases heq
    | [c] => rw [(hjoin _ _ _ _ (List.cons.inj heq).1).1]
    | c :: d :: rest =>
      obtain ⟨hc, hd⟩ := hjoin _ _ _ _ (List.cons.inj heq).1
      rw [← hc, ← hd] at h'
      exact absurd List.mem_cons_self (List.nodup_cons.mp h').1
  | case3 a b rest ih =>
    match nodes' with
    | [] => cases heq
    | [c] =>
      obtain ⟨ha, hb⟩ := hjoin _ _ _ _ (List.cons.inj heq).1
      rw [ha, hb] at h
      exact absurd List.mem_cons_self (List.nodup_cons.mp h).1
    | c :: d :: rest' =>
      obtain ⟨hhead, htail⟩ := List.cons.inj heq
      obtain ⟨rfl, rfl⟩ := hjoin _ _ _ _ hhead
      rw [ih (List.nodup_cons.mp (List.nodup_cons.mp h).2).2
        (List.nodup_cons.mp (List.nodup_cons.mp h').2).2 htail]

/-- The hash is injective on `used`, where the leaves are, and the pairs of the levels
below `depth`. -/
structure Hashed (join : δ → δ → ι) (hash : ι → δ) (used : Set ι) (leaves : List ι) (depth : ℕ) : Prop where
  leaf : ∀ m ∈ leaves, m ∈ used
  pair : ∀ k < depth, ∀ m ∈ pairs join (level join hash leaves k), m ∈ used

theorem Hashed.below {leaves : List ι} {depth : ℕ} (h : Hashed join hash used leaves (depth + 1)) :
    Hashed join hash used leaves depth :=
  ⟨h.leaf, fun k hk => h.pair k (by omega)⟩

theorem level_succ (leaves : List ι) (k : ℕ) :
    level join hash leaves (k + 1) = (pairs join (level join hash leaves k)).map hash :=
  Function.iterate_succ_apply' ..

theorem nodup_map_hash (hinj : Set.InjOn hash used) {ms : List ι} (hused : ∀ m ∈ ms, m ∈ used)
    (h : ms.Nodup) : (ms.map hash).Nodup :=
  h.map_on fun m hm m' hm' heq => hinj (hused m hm) (hused m' hm') heq

theorem nodup_level (hinj : Set.InjOn hash used)
    (hjoin : ∀ a b a' b', join a b = join a' b' → a = a' ∧ b = b') {leaves : List ι} {depth : ℕ}
    (hleaves : leaves.Nodup) (h : Hashed join hash used leaves depth) :
    (level join hash leaves depth).Nodup := by
  induction depth with
  | zero => exact nodup_map_hash hinj h.leaf hleaves
  | succ depth ih =>
    rw [level_succ]
    exact nodup_map_hash hinj (h.pair depth (Nat.lt_succ_self depth)) (nodup_pairs hjoin (ih h.below))

theorem map_hash_inj (hinj : Set.InjOn hash used) {ms ms' : List ι} (h : ∀ m ∈ ms, m ∈ used)
    (h' : ∀ m ∈ ms', m ∈ used) (heq : ms.map hash = ms'.map hash) : ms = ms' := by
  induction ms generalizing ms' with
  | nil => exact (List.map_eq_nil_iff.mp heq.symm).symm
  | cons m ms ih =>
    cases ms' with
    | nil => cases heq
    | cons m' ms' =>
      obtain ⟨hm, hms⟩ := List.forall_mem_cons.mp h
      obtain ⟨hm', hms'⟩ := List.forall_mem_cons.mp h'
      obtain ⟨hhead, htail⟩ := List.cons.inj heq
      rw [hinj hm hm' hhead, ih hms hms' htail]

theorem leaf_level_ne (hinj : Set.InjOn hash used) {leaves leaves' : List ι} {depth : ℕ}
    (hapart : ∀ m ∈ leaves, ∀ a b, m ≠ join a b) (hne : leaves ≠ []) (h : ∀ m ∈ leaves, m ∈ used)
    (h' : Hashed join hash used leaves' (depth + 1)) :
    leaves.map hash ≠ level join hash leaves' (depth + 1) := by
  intro heq
  rw [level_succ] at heq
  have hpairs := map_hash_inj hinj h (h'.pair depth (Nat.lt_succ_self depth)) heq
  cases hnodes : level join hash leaves' depth with
  | nil =>
    rw [hnodes] at hpairs
    exact hne hpairs
  | cons a rest =>
    rw [hnodes] at hpairs
    cases rest with
    | nil => exact hapart (join a a) (by rw [hpairs, pairs]; exact List.mem_cons_self) a a rfl
    | cons b rest => exact hapart (join a b) (by rw [hpairs, pairs]; exact List.mem_cons_self) a b rfl

theorem leaves_of_level (hinj : Set.InjOn hash used)
    (hjoin : ∀ a b a' b', join a b = join a' b' → a = a' ∧ b = b') {leaves leaves' : List ι}
    (hapart : ∀ m ∈ leaves, ∀ a b, m ≠ join a b) (hapart' : ∀ m ∈ leaves', ∀ a b, m ≠ join a b)
    (hne : leaves ≠ []) (hne' : leaves' ≠ []) (hnodup : leaves.Nodup) (hnodup' : leaves'.Nodup)
    (depth depth' : ℕ) (h : Hashed join hash used leaves depth) (h' : Hashed join hash used leaves' depth')
    (heq : level join hash leaves depth = level join hash leaves' depth') : leaves = leaves' := by
  induction depth generalizing depth' with
  | zero =>
    cases depth' with
    | zero => exact map_hash_inj hinj h.leaf h'.leaf heq
    | succ depth' => exact absurd heq (leaf_level_ne hinj hapart hne h.leaf h')
  | succ depth ih =>
    cases depth' with
    | zero => exact absurd heq.symm (leaf_level_ne hinj hapart' hne' h'.leaf h)
    | succ depth' =>
      rw [level_succ, level_succ] at heq
      have hpairs := map_hash_inj hinj (h.pair depth (Nat.lt_succ_self depth))
        (h'.pair depth' (Nat.lt_succ_self depth')) heq
      exact ih depth' h.below h'.below (pairs_inj hjoin (nodup_level hinj hjoin hnodup h.below)
        (nodup_level hinj hjoin hnodup' h'.below) hpairs)

end Binding

end DuplicateTree

/-!
## Inclusion proofs over trees that duplicate an odd last node

The prover climbs from a leaf and notes each sibling; the verifier hashes its way up along an
index and a width.
-/

namespace DuplicateTree

section Paths

variable {δ : Type} (node : δ → δ → δ)

abbrev nodePairs (layer : List δ) : List (δ × δ) := pairs Prod.mk layer

abbrev nextLayer (layer : List δ) : List δ := levelUp Prod.mk (Function.uncurry node) layer

def partner (layer : List δ) (pos : ℕ) : Option δ :=
  if pos % 2 = 0 then layer[pos + 1]?.or layer[pos]? else layer[pos - 1]?

def inclusionPath : ℕ → List δ → ℕ → List δ
  | 0, _, _ => []
  | fuel + 1, layer, pos =>
    if 1 < layer.length then (partner layer pos).toList ++ inclusionPath fuel (nextLayer node layer) (pos / 2)
    else []

theorem getElem?_pairs (layer : List δ) (q : ℕ) :
    (nodePairs layer)[q]? = layer[2 * q]?.map fun a => (a, layer[2 * q + 1]?.getD a) := by
  induction layer using pairs.induct generalizing q with
  | case1 => rfl
  | case2 a =>
    cases q with
    | zero => rfl
    | succ q => rfl
  | case3 a b rest ih =>
    cases q with
    | zero => rfl
    | succ q =>
      rw [nodePairs, pairs, List.getElem?_cons_succ, ih q]
      rfl

theorem getElem?_nextLayer (layer : List δ) (q : ℕ) :
    (nextLayer node layer)[q]? = layer[2 * q]?.map fun a => node a (layer[2 * q + 1]?.getD a) := by
  rw [nextLayer, levelUp, List.getElem?_map, getElem?_pairs, Option.map_map]
  rfl

theorem length_nextLayer (layer : List δ) : (nextLayer node layer).length = (layer.length + 1) / 2 :=
  length_levelUp _ _ layer

theorem mem_nextLayer {layer : List δ} {x : δ} :
    x ∈ nextLayer node layer ↔ ∃ q ∈ nodePairs layer, node q.1 q.2 = x := List.mem_map

theorem mem_of_mem_nodePairs {layer : List δ} {q : δ × δ} (h : q ∈ nodePairs layer) :
    q.1 ∈ layer ∧ q.2 ∈ layer := by
  induction layer using pairs.induct with
  | case1 => cases h
  | case2 a =>
    rw [List.mem_singleton.mp h]
    exact ⟨List.mem_cons_self, List.mem_cons_self⟩
  | case3 a b rest ih =>
    obtain rfl | h := List.mem_cons.mp h
    · exact ⟨List.mem_cons_self, List.mem_cons_of_mem _ List.mem_cons_self⟩
    · obtain ⟨hfirst, hsecond⟩ := ih h
      exact ⟨List.mem_cons_of_mem _ (List.mem_cons_of_mem _ hfirst),
        List.mem_cons_of_mem _ (List.mem_cons_of_mem _ hsecond)⟩

structure Binds (node : δ → δ → δ) (good : δ → Prop) (used : Set (δ × δ)) : Prop where
  keeps : ∀ a b, good (node a b)
  left : ∀ p ∈ used, ∀ q ∈ used, good p.1 → good q.1 → node p.1 p.2 = node q.1 q.2 → p.1 = q.1
  right : ∀ p ∈ used, ∀ q ∈ used, good p.2 → good q.2 → node p.1 p.2 = node q.1 q.2 → p.2 = q.2

structure Tree (node : δ → δ → δ) (good : δ → Prop) (used : Set (δ × δ)) (layer : List δ) (depth : ℕ)
    (root : δ) : Prop where
  top : (nextLayer node)^[depth] layer = [root]
  good : ∀ a ∈ layer, good a
  used : ∀ k < depth, ∀ p ∈ nodePairs ((nextLayer node)^[k] layer), p ∈ used

section

variable {node} {good : δ → Prop} {used : Set (δ × δ)} {layer : List δ} {depth : ℕ} {root : δ}

theorem Tree.up (hnode : ∀ a b, good (node a b)) (h : Tree node good used layer (depth + 1) root) :
    Tree node good used (nextLayer node layer) depth root where
  top := h.top
  good := by
    intro a ha
    obtain ⟨q, -, rfl⟩ := (mem_nextLayer node).mp ha
    exact hnode q.1 q.2
  used k hk := h.used (k + 1) (Nat.succ_lt_succ hk)

theorem Tree.good_layer (hnode : ∀ a b, good (node a b)) (h : Tree node good used layer depth root) {k : ℕ}
    (hk : k ≤ depth) : ∀ a ∈ (nextLayer node)^[k] layer, good a := by
  induction k generalizing layer depth with
  | zero => exact h.good
  | succ k ih =>
    cases depth with
    | zero => exact absurd hk (Nat.not_succ_le_zero k)
    | succ depth => exact ih (h.up hnode) (Nat.le_of_succ_le_succ hk)

end

variable [DecidableEq δ]

def stepPair (current sibling : δ) (idx width : ℤ) : Option (δ × δ) :=
  if idx % 2 = 0 then
    if idx = width - 1 ∧ width % 2 = 1 then if sibling ≠ current then none else some (current, current)
    else some (current, sibling)
  else some (sibling, current)

def walk (current : δ) (idx width : ℤ) : List δ → Option δ
  | [] => some current
  | sibling :: rest =>
    match stepPair current sibling idx width with
    | none => none
    | some p => walk (node p.1 p.2) (idx / 2) ((width + 1) / 2) rest

def walked (current : δ) (idx width : ℤ) : List δ → List (δ × δ)
  | [] => []
  | sibling :: rest =>
    match stepPair current sibling idx width with
    | none => []
    | some p => p :: walked (node p.1 p.2) (idx / 2) ((width + 1) / 2) rest

theorem stepPair_left {a b : δ} {idx width : ℤ} (heven : idx % 2 = 0)
    (hedge : idx = width - 1 → width % 2 = 1 → b = a) : stepPair a b idx width = some (a, b) := by
  unfold stepPair
  rw [if_pos heven]
  by_cases h : idx = width - 1 ∧ width % 2 = 1
  · obtain rfl := hedge h.1 h.2
    rw [if_pos h, if_neg (not_not_intro rfl)]
  · rw [if_neg h]

theorem stepPair_right {a b : δ} {idx width : ℤ} (hodd : idx % 2 ≠ 0) :
    stepPair b a idx width = some (a, b) := if_neg hodd

theorem stepPair_some {current sibling : δ} {idx width : ℤ} {p : δ × δ}
    (h : stepPair current sibling idx width = some p) :
    (idx % 2 = 0 → p.1 = current) ∧ (idx % 2 ≠ 0 → p.2 = current) := by
  unfold stepPair at h
  split at h
  · rename_i heven
    refine ⟨fun _ => ?_, fun hodd => absurd heven hodd⟩
    split at h
    · split at h
      · cases h
      · cases h
        rfl
    · cases h
      rfl
  · rename_i hodd
    cases h
    exact ⟨fun heven => absurd heven hodd, fun _ => rfl⟩

variable {node}

theorem walk_cons {current sibling root : δ} {idx width : ℤ} {rest : List δ}
    (h : walk node current idx width (sibling :: rest) = some root) :
    ∃ p, stepPair current sibling idx width = some p ∧
      walk node (node p.1 p.2) (idx / 2) ((width + 1) / 2) rest = some root ∧
      walked node current idx width (sibling :: rest) =
        p :: walked node (node p.1 p.2) (idx / 2) ((width + 1) / 2) rest := by
  rw [walk] at h
  cases hstep : stepPair current sibling idx width with
  | none =>
    rw [hstep] at h
    cases h
  | some p =>
    rw [hstep] at h
    exact ⟨p, rfl, h, by rw [walked, hstep]⟩

theorem walk_of_step {current sibling : δ} {idx width : ℤ} {p : δ × δ} (rest : List δ)
    (hstep : stepPair current sibling idx width = some p) :
    walk node current idx width (sibling :: rest) =
      walk node (node p.1 p.2) (idx / 2) ((width + 1) / 2) rest ∧
    walked node current idx width (sibling :: rest) =
      p :: walked node (node p.1 p.2) (idx / 2) ((width + 1) / 2) rest := by
  rw [walk, walked, hstep]
  exact ⟨rfl, rfl⟩

theorem exists_walk {depth : ℕ} {layer : List δ} {root : δ} (h : (nextLayer node)^[depth] layer = [root])
    (idx : ℤ) : ∃ (pos : ℕ) (leaf : δ) (path : List δ), layer[pos]? = some leaf ∧
      walk node leaf idx layer.length path = some root ∧
      (0 ≤ idx → idx < layer.length → (pos : ℤ) = idx) ∧
      ∀ p ∈ walked node leaf idx layer.length path, ∃ k < depth, p ∈ nodePairs ((nextLayer node)^[k] layer) := by
  induction depth generalizing layer idx with
  | zero =>
    obtain rfl : layer = [root] := h
    refine ⟨0, root, [], rfl, rfl, fun hlow hhigh => ?_, fun p hp => absurd hp List.not_mem_nil⟩
    rw [List.length_singleton] at hhigh
    omega
  | succ depth ih =>
    obtain ⟨pos, parent, path, hparent, hwalk, hpos, hpairs⟩ := ih h (idx / 2)
    rw [getElem?_nextLayer, Option.map_eq_some_iff] at hparent
    obtain ⟨a, ha, rfl⟩ := hparent
    have hpair : (a, layer[2 * pos + 1]?.getD a) ∈ nodePairs layer := by
      refine List.mem_of_getElem? (i := pos) ?_
      rw [getElem?_pairs, ha]
      rfl
    have hwidth : ((nextLayer node layer).length : ℤ) = ((layer.length : ℤ) + 1) / 2 := by
      rw [length_nextLayer]
      omega
    have hlength := (List.getElem?_eq_some_iff.mp ha).1
    rw [hwidth] at hwalk hpos hpairs
    have hinside : 0 ≤ idx → idx < layer.length → (pos : ℤ) = idx / 2 := fun hlow hhigh =>
      hpos (by omega) (by omega)
    have hused : ∀ p ∈ (a, layer[2 * pos + 1]?.getD a) ::
        walked node (node a (layer[2 * pos + 1]?.getD a)) (idx / 2) (((layer.length : ℤ) + 1) / 2) path,
        ∃ k < depth + 1, p ∈ nodePairs ((nextLayer node)^[k] layer) := by
      refine List.forall_mem_cons.mpr ⟨⟨0, Nat.succ_pos depth, hpair⟩, fun p hp => ?_⟩
      obtain ⟨k, hk, hmem⟩ := hpairs p hp
      exact ⟨k + 1, Nat.succ_lt_succ hk, hmem⟩
    by_cases heven : idx % 2 = 0
    · have hstep : stepPair a (layer[2 * pos + 1]?.getD a) idx layer.length =
          some (a, layer[2 * pos + 1]?.getD a) := by
        refine stepPair_left heven fun hedge hwide => ?_
        -- the pair of the last node, which is alone
        have hlast := hinside (by omega) (by omega)
        rw [List.getElem?_eq_none (by omega), Option.getD_none]
      obtain ⟨hwalk', hwalked⟩ := @walk_of_step _ node _ _ _ _ _ _ path hstep
      refine ⟨2 * pos, a, _ :: path, ha, hwalk'.trans hwalk, fun hlow hhigh => ?_, hwalked ▸ hused⟩
      have hsame := hinside hlow hhigh
      omega
    · have hstep : stepPair (layer[2 * pos + 1]?.getD a) a idx layer.length =
          some (a, layer[2 * pos + 1]?.getD a) := stepPair_right heven
      obtain ⟨hwalk', hwalked⟩ := @walk_of_step _ node _ _ _ _ _ _ path hstep
      cases hright : layer[2 * pos + 1]? with
      | some b =>
        rw [hright] at hwalk' hwalked hwalk hused
        refine ⟨2 * pos + 1, b, _ :: path, hright, hwalk'.trans hwalk, fun hlow hhigh => ?_, hwalked ▸ hused⟩
        have hsame := hinside hlow hhigh
        omega
      | none =>
        rw [hright] at hwalk' hwalked hwalk hused
        refine ⟨2 * pos, a, _ :: path, ha, hwalk'.trans hwalk, fun hlow hhigh => ?_, hwalked ▸ hused⟩
        have hsame := hinside hlow hhigh
        have houtside := List.getElem?_eq_none_iff.mp hright
        omega

theorem stepPair_partner {layer : List δ} {pos : ℕ} {leaf : δ} (h : layer[pos]? = some leaf) :
    ∃ sibling p, partner layer pos = some sibling ∧ stepPair leaf sibling pos layer.length = some p ∧
      (nextLayer node layer)[pos / 2]? = some (node p.1 p.2) := by
  have hlength := (List.getElem?_eq_some_iff.mp h).1
  unfold partner
  by_cases heven : pos % 2 = 0
  · have hhalf : 2 * (pos / 2) = pos := by omega
    refine ⟨layer[pos + 1]?.getD leaf, (leaf, layer[pos + 1]?.getD leaf), ?_, ?_, ?_⟩
    · rw [if_pos heven, h]
      cases layer[pos + 1]? with
      | none => rfl
      | some b => rfl
    · refine stepPair_left (by omega) fun hedge _ => ?_
      rw [List.getElem?_eq_none (by omega), Option.getD_none]
    · rw [getElem?_nextLayer, hhalf, h]
      rfl
  · have hhalf : 2 * (pos / 2) + 1 = pos := by omega
    obtain ⟨left, hleft⟩ : ∃ left, layer[pos - 1]? = some left := ⟨_, List.getElem?_eq_getElem (by omega)⟩
    refine ⟨left, (left, leaf), ?_, stepPair_right (by omega), ?_⟩
    · rw [if_neg heven, hleft]
    · rw [getElem?_nextLayer, hhalf, h, show 2 * (pos / 2) = pos - 1 by omega, hleft]
      rfl

theorem walk_inclusionPath (fuel : ℕ) {layer : List δ} {pos : ℕ} {leaf : δ} (h : layer[pos]? = some leaf)
    (hfuel : layer.length ≤ fuel + 1) : ∃ root,
      climb Prod.mk (Function.uncurry node) fuel layer = [root] ∧
        walk node leaf pos layer.length (inclusionPath node fuel layer pos) = some root := by
  have hlength := (List.getElem?_eq_some_iff.mp h).1
  induction fuel generalizing layer pos leaf with
  | zero =>
    obtain ⟨a, rfl⟩ := List.length_eq_one_iff.mp (show layer.length = 1 by omega)
    obtain rfl : pos = 0 := by rw [List.length_singleton] at hlength; omega
    exact ⟨leaf, by rw [← Option.some.inj h]; rfl, rfl⟩
  | succ fuel ih =>
    rw [climb, inclusionPath]
    by_cases hlong : 1 < layer.length
    · obtain ⟨sibling, p, hpartner, hstep, hparent⟩ := @stepPair_partner _ node _ _ _ _ h
      have hwidth := length_nextLayer node layer
      obtain ⟨root, hclimb, hwalk⟩ := ih hparent (by omega) (by omega)
      rw [if_pos hlong, if_pos hlong, hpartner, Option.toList_some, List.singleton_append]
      refine ⟨root, hclimb, ?_⟩
      rw [(walk_of_step _ hstep).1, ← hwalk, hwidth]
      push_cast
      rfl
    · obtain ⟨a, rfl⟩ := List.length_eq_one_iff.mp (show layer.length = 1 by omega)
      obtain rfl : pos = 0 := by rw [List.length_singleton] at hlength; omega
      rw [if_neg hlong, if_neg hlong]
      exact ⟨leaf, by rw [← Option.some.inj h], rfl⟩

variable {good : δ → Prop} {used : Set (δ × δ)} {layer : List δ} {depth : ℕ} {root : δ}

theorem mem_layer_of_walk (hbinds : Binds node good used) (htree : Tree node good used layer depth root)
    {current : δ} {idx width : ℤ} {path : List δ} (hshort : path.length ≤ depth) (hgood : good current)
    (hwalk : walk node current idx width path = some root)
    (hused : ∀ p ∈ walked node current idx width path, p ∈ used) :
    current ∈ (nextLayer node)^[depth - path.length] layer := by
  induction path generalizing current idx width with
  | nil =>
    rw [Option.some.inj hwalk, List.length_nil, Nat.sub_zero, htree.top]
    exact List.mem_singleton_self root
  | cons sibling rest ih =>
    obtain ⟨p, hstep, hrest, hwalked⟩ := walk_cons hwalk
    rw [hwalked, List.forall_mem_cons] at hused
    rw [List.length_cons] at hshort ⊢
    have hparent := ih (by omega) (hbinds.keeps p.1 p.2) hrest hused.2
    rw [show depth - rest.length = depth - (rest.length + 1) + 1 by omega,
      Function.iterate_succ_apply', mem_nextLayer] at hparent
    obtain ⟨q, hq, hsame⟩ := hparent
    have hbelow := htree.good_layer hbinds.keeps (k := depth - (rest.length + 1)) (by omega)
    have hqused := htree.used _ (by omega) q hq
    obtain ⟨hleft, hright⟩ := mem_of_mem_nodePairs hq
    obtain ⟨hfirst, hsecond⟩ := stepPair_some hstep
    by_cases heven : idx % 2 = 0
    · obtain rfl := hfirst heven
      rw [hbinds.left p hused.1 q hqused hgood (hbelow _ hleft) hsame.symm]
      exact hleft
    · obtain rfl := hsecond heven
      rw [hbinds.right p hused.1 q hqused hgood (hbelow _ hright) hsame.symm]
      exact hright

theorem leaf_of_long_walk (hbinds : Binds node good used) (htree : Tree node good used layer depth root)
    {current : δ} {idx width : ℤ} {path : List δ} (hlong : depth < path.length)
    (hwalk : walk node current idx width path = some root)
    (hused : ∀ p ∈ walked node current idx width path, p ∈ used) :
    ∃ p ∈ walked node current idx width path, node p.1 p.2 ∈ layer := by
  induction path generalizing current idx width with
  | nil => exact absurd hlong (Nat.not_lt_zero depth)
  | cons sibling rest ih =>
    obtain ⟨p, hstep, hrest, hwalked⟩ := walk_cons hwalk
    rw [hwalked] at hused ⊢
    obtain ⟨-, husedRest⟩ := List.forall_mem_cons.mp hused
    rw [List.length_cons] at hlong
    by_cases hmore : depth < rest.length
    · obtain ⟨q, hq, hleaf⟩ := ih hmore hrest husedRest
      exact ⟨q, List.mem_cons_of_mem _ hq, hleaf⟩
    · have hmem := mem_layer_of_walk hbinds htree (by omega) (hbinds.keeps p.1 p.2) hrest husedRest
      rw [show depth - rest.length = 0 by omega] at hmem
      exact ⟨p, List.mem_cons_self, hmem⟩

theorem walk_leaf (hbinds : Binds node good used) (htree : Tree node good used layer depth root)
    {current : δ} {pos : ℕ} {width : ℤ} {path : List δ} (hlength : path.length = depth) (hpos : pos < layer.length)
    (hgood : good current) (hwalk : walk node current pos width path = some root)
    (hused : ∀ p ∈ walked node current pos width path, p ∈ used) : layer[pos]? = some current := by
  induction path generalizing current pos width layer depth with
  | nil =>
    obtain rfl := hlength
    obtain rfl : layer = [root] := htree.top
    obtain rfl : pos = 0 := by rw [List.length_singleton] at hpos; omega
    rw [Option.some.inj hwalk]
    rfl
  | cons sibling rest ih =>
    obtain rfl := hlength
    obtain ⟨p, hstep, hrest, hwalked⟩ := walk_cons hwalk
    rw [hwalked, List.forall_mem_cons] at hused
    have hindex : ((pos / 2 : ℕ) : ℤ) = (pos : ℤ) / 2 := by omega
    rw [← hindex] at hrest hused
    have hparent := ih (htree.up hbinds.keeps) rfl (by rw [length_nextLayer]; omega) (hbinds.keeps p.1 p.2)
      hrest hused.2
    rw [getElem?_nextLayer, Option.map_eq_some_iff] at hparent
    obtain ⟨a, ha, hsame⟩ := hparent
    have hpair : (a, layer[2 * (pos / 2) + 1]?.getD a) ∈ nodePairs layer := by
      refine List.mem_of_getElem? (i := pos / 2) ?_
      rw [getElem?_pairs, ha]
      rfl
    have hqused := htree.used 0 (Nat.succ_pos _) _ hpair
    obtain ⟨hleft, hright⟩ := mem_of_mem_nodePairs hpair
    obtain ⟨hfirst, hsecond⟩ := stepPair_some hstep
    by_cases heven : pos % 2 = 0
    · obtain rfl := hfirst (by omega)
      rw [show pos = 2 * (pos / 2) by omega, ha, hbinds.left p hused.1 _ hqused hgood (htree.good _ hleft) hsame.symm]
    · obtain rfl := hsecond (by omega)
      have hcurrent := hbinds.right p hused.1 _ hqused hgood (htree.good _ hright) hsame.symm
      rw [show 2 * (pos / 2) + 1 = pos by omega, List.getElem?_eq_getElem hpos, Option.getD_some] at hcurrent
      rw [hcurrent]
      exact List.getElem?_eq_getElem hpos

theorem walk_sound (hbinds : Binds node good used) (htree : Tree node good used layer depth root)
    {current : δ} {pos : ℕ} {width : ℤ} {path : List δ} (hpos : pos < layer.length) (hgood : good current)
    (hwalk : walk node current pos width path = some root)
    (hused : ∀ p ∈ walked node current pos width path, p ∈ used)
    (hleaf : ∀ k < depth, ∀ q ∈ nodePairs ((nextLayer node)^[k] layer), node q.1 q.2 ≠ current)
    (hlayer : ∀ p ∈ walked node current pos width path, node p.1 p.2 ∉ layer) :
    layer[pos]? = some current := by
  obtain hshort | hequal | hlong := lt_trichotomy path.length depth
  · have hmem := mem_layer_of_walk hbinds htree (le_of_lt hshort) hgood hwalk hused
    rw [show depth - path.length = depth - path.length - 1 + 1 by omega, Function.iterate_succ_apply',
      mem_nextLayer] at hmem
    obtain ⟨q, hq, hsame⟩ := hmem
    exact absurd hsame (hleaf _ (by omega) q hq)
  · exact walk_leaf hbinds htree hequal hpos hgood hwalk hused
  · obtain ⟨p, hp, hmem⟩ := leaf_of_long_walk hbinds htree hlong hwalk hused
    exact absurd hmem (hlayer p hp)

omit [DecidableEq δ] in
theorem exists_tree (hgood : ∀ l ∈ layer, good l)
    (hclimb : climb Prod.mk (Function.uncurry node) layer.length layer = [root])
    (hused : ∀ p ∈ climbed Prod.mk (Function.uncurry node) layer.length layer, p ∈ used) :
    ∃ depth, Tree node good used layer depth root ∧
      ∀ k < depth, ∀ p ∈ nodePairs ((nextLayer node)^[k] layer),
        p ∈ climbed Prod.mk (Function.uncurry node) layer.length layer := by
  obtain ⟨depth, hlevel, hpairs⟩ := climb_level Prod.mk (Function.uncurry node) layer.length layer
  exact ⟨depth, ⟨hlevel.symm.trans hclimb, hgood, fun k hk p hp => hused p (hpairs k hk p hp)⟩, hpairs⟩

theorem leaf_of_walk (hbinds : Binds node good used) (hgood : ∀ l ∈ layer, good l)
    (hclimb : climb Prod.mk (Function.uncurry node) layer.length layer = [root])
    (hused : ∀ p ∈ climbed Prod.mk (Function.uncurry node) layer.length layer, p ∈ used)
    {current : δ} {pos : ℕ} {width : ℤ} {path : List δ} (hpos : pos < layer.length) (hcurrent : good current)
    (hwalk : walk node current pos width path = some root)
    (hwalked : ∀ p ∈ walked node current pos width path, p ∈ used)
    (hapart : ∀ p ∈ used, ∀ l ∈ current :: layer, node p.1 p.2 ≠ l) : layer[pos]? = some current := by
  obtain ⟨depth, htree, hpairs⟩ := exists_tree hgood hclimb hused
  refine walk_sound hbinds htree hpos hcurrent hwalk hwalked ?_ ?_
  · exact fun k hk q hq => hapart q (hused q (hpairs k hk q hq)) current List.mem_cons_self
  · exact fun p hp hmem => hapart p (hwalked p hp) _ (List.mem_cons_of_mem _ hmem) rfl

end Paths

end DuplicateTree
