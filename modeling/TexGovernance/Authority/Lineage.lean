import Mathlib.Data.Multiset.Basic
import TexGovernance.Camel.Interpreter
import TexGovernance.Lib.DuplicateTree
import TexGovernance.Lib.JsonText
import TexGovernance.Lib.Pipeline
import TexGovernance.Lib.Sha2

/-!
# The lineage root

`compute_lineage_root` of `authority/taint_label.py`, over the leaves and the Merkle root of
`c2pa/cosign_context_tree.py`.
-/

namespace TexGovernance.Authority
open PyStr PyBytes PyCodec PyRepr Sha256 JsonLoads JsonText DuplicateTree Camel
open PyJson (strLe sortedNames sortedNames_eq_of_perm)

structure MerkleLeaf where
  label : Str
  valueJson : Str

namespace MerkleLeaf

/-- What `digest` hashes. -/
def preimage (leaf : MerkleLeaf) : Except PyErr Bytes := do
  let label ← utf8Encode leaf.label
  let value ← utf8Encode leaf.valueJson
  return label ++ 0 :: value

def digest (leaf : MerkleLeaf) : Except PyErr Digest := do
  let bytes ← leaf.preimage
  return sha256 bytes

end MerkleLeaf

def pairBytes (x y : Digest) : Bytes := x.bytes ++ y.bytes

def merkleRoot (leaves : List MerkleLeaf) : Except PyErr Digest :=
  if leaves.isEmpty then .error .valueError
  else do
    let level ← leaves.mapM MerkleLeaf.digest
    match climb pairBytes sha256 level.length level with
    | [] => .error .other
    | root :: _ => return root

structure OperandNode where
  nodeId : Str
  labelId : Str
  integrity : CapabilityLevel
  confidentiality : ConfidentialityLevel
  parents : List Str

/-- `int` of a level. -/
def confidentialityInt : ConfidentialityLevel → ℕ
  | .public_ => 0
  | .internal => 1
  | .confidential => 2
  | .restricted => 3

theorem confidentialityInt_injective : Function.Injective confidentialityInt := by
  intro a b h
  cases a <;> cases b <;> first | rfl | cases h

def operandValue (n : OperandNode) : JsonValue :=
  .obj [(txt "id", .str n.nodeId), (txt "label_id", .str n.labelId),
    (txt "integrity", .int n.integrity.toNat),
    (txt "confidentiality", .int (confidentialityInt n.confidentiality)),
    (txt "parents", .arr ((sortedNames n.parents).map .str))]

def operandLeaf (n : OperandNode) : MerkleLeaf := ⟨txt "lineage.operand", dumps keepChars (operandValue n)⟩

def sortedNodes (nodes : List OperandNode) : List OperandNode :=
  nodes.insertionSort fun a b => strLe a.nodeId b.nodeId = true

def emptyDag : Bytes := utf8 (txt "tex-taint-label:empty-dag")

def computeLineageRoot (nodes : List OperandNode) : Except PyErr Str :=
  let materialized := sortedNodes nodes
  if materialized.isEmpty then .ok (hex (sha256 emptyDag).bytes)
  else do
    let root ← merkleRoot (materialized.map operandLeaf)
    return hex root.bytes

/-- What `compute_lineage_root` hashes. -/
def lineageInputs (nodes : List OperandNode) : List Bytes :=
  let materialized := sortedNodes nodes
  if materialized.isEmpty then [emptyDag]
  else match (materialized.map operandLeaf).mapM MerkleLeaf.preimage with
    | .error _ => []
    | .ok leaves => leaves ++ climbed pairBytes sha256 leaves.length (leaves.map sha256)

structure Content where
  nodeId : Str
  labelId : Str
  integrity : CapabilityLevel
  confidentiality : ConfidentialityLevel
  parents : Multiset Str

def OperandNode.content (n : OperandNode) : Content :=
  ⟨n.nodeId, n.labelId, n.integrity, n.confidentiality, n.parents⟩

/-- The same operands in any order. -/
def SameOperands (nodes nodes' : List OperandNode) : Prop :=
  (nodes.map OperandNode.content).Perm (nodes'.map OperandNode.content)

/-- No text of the operand has a lone surrogate. -/
def OperandNode.Encodable (n : OperandNode) : Prop :=
  Plain n.nodeId ∧ Plain n.labelId ∧ ∀ p ∈ n.parents, Plain p

def sortedValue (n : OperandNode) : JsonValue :=
  .obj [(txt "confidentiality", .int (confidentialityInt n.confidentiality)),
    (txt "id", .str n.nodeId), (txt "integrity", .int n.integrity.toNat),
    (txt "label_id", .str n.labelId), (txt "parents", .arr ((sortedNames n.parents).map .str))]

theorem sortItems_strs (names : List Str) : sortItems (names.map .str) = names.map .str := by
  induction names with
  | nil => rfl
  | cons s names ih => 
    rw [List.map_cons, sortItems, ih]
    rfl

theorem dumps_operandValue (n : OperandNode) : dumps keepChars (operandValue n) = write keepChars (sortedValue n) := by
  have hmembers : sortMembers [(txt "id", .str n.nodeId), (txt "label_id", .str n.labelId),
      (txt "integrity", .int n.integrity.toNat),
      (txt "confidentiality", .int (confidentialityInt n.confidentiality)),
      (txt "parents", .arr ((sortedNames n.parents).map .str))] =
      [(txt "id", .str n.nodeId), (txt "label_id", .str n.labelId),
        (txt "integrity", .int n.integrity.toNat),
        (txt "confidentiality", .int (confidentialityInt n.confidentiality)),
        (txt "parents", .arr ((sortedNames n.parents).map .str))] := by
    simp only [sortMembers, sortKeys, sortItems_strs]
  unfold dumps operandValue
  rw [sortKeys, hmembers]
  rfl

theorem tame_sortedValue (n : OperandNode) : Tame 2 (sortedValue n) := by
  have hconfidentiality : Tame 1 (.int (confidentialityInt n.confidentiality)) :=
    .int (by cases n.confidentiality <;> decide)
  have hintegrity : Tame 1 (.int n.integrity.toNat) := .int (by cases n.integrity <;> decide)
  have hparents : Tame 1 (.arr ((sortedNames n.parents).map .str)) := by
    refine .arr fun x hx => ?_
    obtain ⟨s, -, rfl⟩ := List.mem_map.mp hx
    exact .str s
  refine .obj fun m hm => ?_
  simp only [List.mem_cons, List.not_mem_nil, or_false] at hm
  obtain rfl | rfl | rfl | rfl | rfl := hm
  · exact hconfidentiality
  · exact .str _
  · exact hintegrity
  · exact .str _
  · exact hparents

theorem content_of_sortedValue {n m : OperandNode} (h : sortedValue n = sortedValue m) :
    n.content = m.content := by
  have hstr : Function.Injective JsonValue.str := fun _ _ h => JsonValue.str.inj h
  simp only [sortedValue, JsonValue.obj.injEq, List.cons.injEq, Prod.mk.injEq, JsonValue.int.injEq,
    JsonValue.str.injEq, JsonValue.arr.injEq, true_and, and_true, Nat.cast_inj] at h
  obtain ⟨hconfidentiality, hid, hintegrity, hlabel, hparents⟩ := h
  have hsorted := List.map_injective_iff.mpr hstr hparents
  have hperm : n.parents.Perm m.parents := by
    have hn : (sortedNames n.parents).Perm n.parents := List.perm_insertionSort _ _
    have hm : (sortedNames m.parents).Perm m.parents := List.perm_insertionSort _ _
    exact hn.symm.trans (hsorted ▸ hm)
  unfold OperandNode.content
  rw [hid, hlabel, CapabilityLevel.toNat_injective hintegrity,
    confidentialityInt_injective hconfidentiality, Multiset.coe_eq_coe.mpr hperm]

theorem sortedValue_of_content {n m : OperandNode} (h : n.content = m.content) :
    sortedValue n = sortedValue m := by
  obtain ⟨hid, hlabel, hintegrity, hconfidentiality, hparents⟩ := Content.mk.inj h
  unfold sortedValue
  rw [hid, hlabel, hintegrity, hconfidentiality,
    sortedNames_eq_of_perm (Multiset.coe_eq_coe.mp hparents)]

theorem plain_sortedValue_iff (n : OperandNode) : Plain (write keepChars (sortedValue n)) ↔ n.Encodable := by
  have hnames : ∀ names : List Str, itemTexts (names.map .str) = names := by
    intro names
    induction names with
    | nil => rfl
    | cons s names ih => rw [List.map_cons, itemTexts, ih, texts, List.singleton_append]
  have hparents : ∀ p, p ∈ sortedNames n.parents ↔ p ∈ n.parents :=
    fun p => (List.perm_insertionSort _ _).mem_iff
  rw [plain_write_iff, OperandNode.Encodable]
  simp only [sortedValue, texts, memberTexts, hnames, List.nil_append, List.append_nil, List.mem_cons,
    List.mem_append, List.not_mem_nil, or_false, hparents]
  constructor
  · intro h
    exact ⟨h _ (by simp), h _ (by simp), fun p hp => h p (by simp [hp])⟩
  · rintro ⟨hid, hlabel, hall⟩ s (rfl | rfl | rfl | rfl | rfl | rfl | rfl | hs)
    · exact plain_txt _
    · exact plain_txt _
    · exact hid
    · exact plain_txt _
    · exact plain_txt _
    · exact hlabel
    · exact plain_txt _
    · exact hall s hs

def leafBytes (n : OperandNode) : Bytes := utf8 (txt "lineage.operand") ++ 0 :: utf8 (write keepChars (sortedValue n))

theorem preimage_ok_iff {n : OperandNode} {bytes : Bytes} :
    (operandLeaf n).preimage = .ok bytes ↔ n.Encodable ∧ leafBytes n = bytes := by
  rw [← plain_sortedValue_iff]
  unfold MerkleLeaf.preimage operandLeaf
  rw [dumps_operandValue, utf8Encode_eq (plain_txt _)]
  constructor
  · intro h
    obtain ⟨label, hlabel, h⟩ := Pipeline.bind_ok h
    obtain ⟨value, hvalue, hbytes⟩ := Pipeline.bind_ok h
    rw [← Except.ok.inj hlabel] at hbytes
    have hplain := plain_of_utf8Encode hvalue
    rw [utf8Encode_eq hplain] at hvalue
    rw [← Except.ok.inj hvalue] at hbytes
    exact ⟨hplain, Except.ok.inj hbytes⟩
  · rintro ⟨hplain, rfl⟩
    rw [utf8Encode_eq hplain]
    rfl

theorem digest_ok_iff {n : OperandNode} {d : Digest} :
    (operandLeaf n).digest = .ok d ↔ n.Encodable ∧ sha256 (leafBytes n) = d := by
  unfold MerkleLeaf.digest
  constructor
  · intro h
    obtain ⟨bytes, hbytes, hd⟩ := Pipeline.bind_ok h
    obtain ⟨hn, rfl⟩ := preimage_ok_iff.mp hbytes
    exact ⟨hn, Except.ok.inj hd⟩
  · rintro ⟨hn, rfl⟩
    rw [preimage_ok_iff.mpr ⟨hn, rfl⟩]
    rfl

theorem mapM_leaves_ok_iff {β : Type} {f : MerkleLeaf → Except PyErr β} {g : OperandNode → β}
    (hf : ∀ n b, f (operandLeaf n) = .ok b ↔ n.Encodable ∧ g n = b) {nodes : List OperandNode}
    {bs : List β} : (nodes.map operandLeaf).mapM f = .ok bs ↔
      (∀ n ∈ nodes, n.Encodable) ∧ nodes.map g = bs := by
  rw [mapM_ok_iff, List.forall₂_map_left_iff]
  simp only [hf]
  induction nodes generalizing bs with
  | nil => simp [eq_comm]
  | cons n nodes ih =>
    cases bs with
    | nil => simp
    | cons b bs =>
      rw [List.forall₂_cons, ih, List.forall_mem_cons, List.map_cons, List.cons.injEq]
      exact and_and_and_comm

theorem mem_lineageInputs {nodes : List OperandNode} (hne : sortedNodes nodes ≠ [])
    (h : ∀ n ∈ sortedNodes nodes, n.Encodable) (m : Bytes) :
    m ∈ lineageInputs nodes ↔ m ∈ (sortedNodes nodes).map leafBytes ∨
      m ∈ climbed pairBytes sha256 (sortedNodes nodes).length
        (((sortedNodes nodes).map leafBytes).map sha256) := by
  have hempty : (sortedNodes nodes).isEmpty = false := by
    rw [List.isEmpty_eq_false_iff]
    exact hne
  unfold lineageInputs
  simp only [hempty, Bool.false_eq_true, if_false, (mapM_leaves_ok_iff fun _ _ => preimage_ok_iff).mpr ⟨h, rfl⟩,
    List.mem_append, List.length_map]

theorem computeLineageRoot_ok_iff {nodes : List OperandNode} {root : Str} (hne : sortedNodes nodes ≠ []) :
    computeLineageRoot nodes = .ok root ↔
      (∀ n ∈ sortedNodes nodes, n.Encodable) ∧ ∃ digest : Digest, hex digest.bytes = root ∧
        climb pairBytes sha256 (sortedNodes nodes).length
          (((sortedNodes nodes).map leafBytes).map sha256) = [digest] := by
  have hempty : (sortedNodes nodes).isEmpty = false := by
    rw [List.isEmpty_eq_false_iff]
    exact hne
  have hleaves : ((sortedNodes nodes).map operandLeaf).isEmpty = false := by
    rw [List.isEmpty_eq_false_iff, Ne, List.map_eq_nil_iff]
    exact hne
  obtain ⟨top, htop⟩ := climb_single pairBytes sha256 (sortedNodes nodes).length
    (((sortedNodes nodes).map leafBytes).map sha256) (by simpa using hne) (by simp)
  have hdigests {level : List Digest} : ((sortedNodes nodes).map operandLeaf).mapM MerkleLeaf.digest =
      .ok level ↔ (∀ n ∈ sortedNodes nodes, n.Encodable) ∧
        (sortedNodes nodes).map (fun n => sha256 (leafBytes n)) = level :=
    mapM_leaves_ok_iff fun _ _ => digest_ok_iff
  have hmap : (sortedNodes nodes).map (fun n => sha256 (leafBytes n)) =
      ((sortedNodes nodes).map leafBytes).map sha256 := by rw [List.map_map]; rfl
  unfold computeLineageRoot merkleRoot
  simp only [hempty, hleaves, Bool.false_eq_true, if_false]
  constructor
  · intro h
    obtain ⟨digest, hdigest, hroot⟩ := Pipeline.bind_ok h
    obtain ⟨level, hlevel, hdigest⟩ := Pipeline.bind_ok hdigest
    obtain ⟨hall, rfl⟩ := hdigests.mp hlevel
    rw [hmap, List.length_map, List.length_map, htop] at hdigest
    exact ⟨hall, digest, Except.ok.inj hroot, by rw [htop, Except.ok.inj hdigest]⟩
  · rintro ⟨hall, digest, rfl, hclimb⟩
    rw [hdigests.mpr ⟨hall, hmap⟩]
    show ((match climb pairBytes sha256 _ _ with
      | [] => Except.error PyErr.other
      | root :: _ => return root) >>= _) = _
    rw [List.length_map, List.length_map, hclimb]
    rfl

end TexGovernance.Authority

/-!
## The lineage root binds

No two lists of operands without repeated ids have one root, but for their order.
-/

namespace TexGovernance.Authority
open PyStr PyBytes PyCodec PyRepr Sha256 JsonLoads JsonText DuplicateTree Camel
open JsonDoc (quoted)
open PyJson (strLe strLe_total strLe_trans strLe_antisymm)

theorem leafBytes_inj {n m : OperandNode} (hn : n.Encodable) (hm : m.Encodable)
    (h : leafBytes n = leafBytes m) : n.content = m.content := by
  have htext := (List.cons.inj (List.append_cancel_left h)).2
  have hwritten : write keepChars (sortedValue n) = write keepChars (sortedValue m) := by
    refine utf8Encode_inj _ _ _ (utf8Encode_eq ((plain_sortedValue_iff n).mpr hn)) ?_
    rw [htext]
    exact utf8Encode_eq ((plain_sortedValue_iff m).mpr hm)
  exact content_of_sortedValue (write_inj (tame_sortedValue n) (tame_sortedValue m) hwritten)

theorem length_le_utf8 {s : Str} (h : Plain s) : s.length ≤ (utf8 s).length := by
  induction s with
  | nil => exact Nat.le_refl 0
  | cons c s ih =>
    obtain ⟨bs, hbs⟩ := encodeCodePoint_isSome (h c List.mem_cons_self)
    have hne := encodeCodePoint_ne_nil c bs hbs
    have htail := ih fun d hd => h d (List.mem_cons_of_mem _ hd)
    have hpos := List.length_pos_iff.mpr hne
    rw [utf8, List.flatMap_cons, hbs, Option.getD_some, List.length_append, List.length_cons]
    change _ ≤ bs.length + (utf8 s).length
    omega

theorem length_leafBytes {n : OperandNode} (h : n.Encodable) : 64 < (leafBytes n).length := by
  have hplain := length_le_utf8 ((plain_sortedValue_iff n).mpr h)
  have hlabel : (utf8 (txt "lineage.operand")).length = 15 := by decide
  have hnames : (quoted (txt "confidentiality")).length = 17 ∧ (quoted (txt "id")).length = 4 ∧
      (quoted (txt "integrity")).length = 11 ∧ (quoted (txt "label_id")).length = 10 ∧
      (quoted (txt "parents")).length = 9 := by decide
  have hwritten : 60 ≤ (write keepChars (sortedValue n)).length := by
    simp only [sortedValue, write, writeMembers, keepChars, List.length_cons, List.length_append]
    omega
  rw [leafBytes, List.length_append, List.length_cons]
  omega

theorem length_pairBytes (x y : Digest) : (pairBytes x y).length = 64 := by
  rw [pairBytes, List.length_append, x.length_eq, y.length_eq]

theorem pairBytes_inj (a b a' b' : Digest) (h : pairBytes a b = pairBytes a' b') : a = a' ∧ b = b' := by
  obtain ⟨ha, hb⟩ := List.append_inj h (by rw [a.length_eq, a'.length_eq])
  exact ⟨Digest.ext_bytes _ _ ha, Digest.ext_bytes _ _ hb⟩

variable {nodes : List OperandNode}

theorem mem_sortedNodes {n : OperandNode} : n ∈ sortedNodes nodes ↔ n ∈ nodes :=
  (List.perm_insertionSort _ nodes).mem_iff

theorem sortedNodes_eq_nil : sortedNodes nodes = [] ↔ nodes = [] := by
  rw [← List.length_eq_zero_iff, ← List.length_eq_zero_iff, sortedNodes, List.length_insertionSort]

variable {nodes nodes' : List OperandNode}

theorem sorted_contents (hids : (nodes.map OperandNode.nodeId).Nodup) :
    SameOperands nodes nodes' ↔
      (sortedNodes nodes).map OperandNode.content = (sortedNodes nodes').map OperandNode.content := by
  have hsort : ∀ l : List OperandNode, ((sortedNodes l).map OperandNode.content).Perm
      (l.map OperandNode.content) := fun l => (List.perm_insertionSort _ l).map _
  constructor
  · intro h
    have : Std.Total fun a b : OperandNode => strLe a.nodeId b.nodeId = true :=
      ⟨fun a b => strLe_total a.nodeId b.nodeId⟩
    have : IsTrans OperandNode fun a b => strLe a.nodeId b.nodeId = true := ⟨fun _ _ _ => strLe_trans⟩
    have hpairwise : ∀ l : List OperandNode, ((sortedNodes l).map OperandNode.content).Pairwise
        fun a b => strLe a.nodeId b.nodeId = true :=
      fun l => List.pairwise_map.mpr
        (List.pairwise_insertionSort (fun a b : OperandNode => strLe a.nodeId b.nodeId = true) l)
    have hnodup : ((nodes.map OperandNode.content).map Content.nodeId).Nodup := by
      rw [List.map_map]
      exact hids
    refine ((hsort nodes).trans (h.trans (hsort nodes').symm)).eq_of_pairwise ?_ (hpairwise nodes)
      (hpairwise nodes')
    intro a b ha hb hab hba
    have ha' := (hsort nodes).mem_iff.mp ha
    have hb' := h.mem_iff.mpr ((hsort nodes').mem_iff.mp hb)
    exact List.inj_on_of_nodup_map hnodup ha' hb' (strLe_antisymm hab hba)
  · intro h
    unfold SameOperands
    exact (hsort nodes).symm.trans (h ▸ hsort nodes')

theorem leaves_of_contents (h : nodes.map OperandNode.content = nodes'.map OperandNode.content) :
    nodes.map leafBytes = nodes'.map leafBytes := by
  induction nodes generalizing nodes' with
  | nil => rw [List.map_eq_nil_iff.mp h.symm]
  | cons n nodes ih =>
    cases nodes' with
    | nil => cases h
    | cons m nodes' =>
      obtain ⟨hhead, htail⟩ := List.cons.inj h
      rw [List.map_cons, List.map_cons, ih htail, leafBytes, sortedValue_of_content hhead]
      rfl

theorem contents_of_leaves (hn : ∀ n ∈ nodes, n.Encodable)
    (hn' : ∀ n ∈ nodes', n.Encodable) (h : nodes.map leafBytes = nodes'.map leafBytes) :
    nodes.map OperandNode.content = nodes'.map OperandNode.content := by
  induction nodes generalizing nodes' with
  | nil => rw [List.map_eq_nil_iff.mp h.symm]
  | cons n nodes ih =>
    cases nodes' with
    | nil => cases h
    | cons m nodes' =>
      obtain ⟨hhead, htail⟩ := List.cons.inj h
      obtain ⟨hn, hnodes⟩ := List.forall_mem_cons.mp hn
      obtain ⟨hm, hnodes'⟩ := List.forall_mem_cons.mp hn'
      rw [List.map_cons, List.map_cons, ih hnodes hnodes' htail, leafBytes_inj hn hm hhead]

theorem encodable_of_content {n m : OperandNode} (h : n.content = m.content) (hn : n.Encodable) :
    m.Encodable := by
  rw [← plain_sortedValue_iff] at hn ⊢
  rwa [← sortedValue_of_content h]

theorem nodup_leaves (hids : (nodes.map OperandNode.nodeId).Nodup)
    (h : ∀ n ∈ sortedNodes nodes, n.Encodable) : ((sortedNodes nodes).map leafBytes).Nodup := by
  have hsorted : ((sortedNodes nodes).map OperandNode.nodeId).Nodup :=
    ((List.perm_insertionSort _ nodes).map _).nodup_iff.mpr hids
  rw [List.Nodup, List.pairwise_map] at hsorted ⊢
  refine hsorted.imp_of_mem fun hn hm hne heq => hne ?_
  exact congrArg Content.nodeId (leafBytes_inj (h _ hn) (h _ hm) heq)

theorem hashed_lineage {used : Set Bytes} (hne : sortedNodes nodes ≠ [])
    (h : ∀ n ∈ sortedNodes nodes, n.Encodable) (hused : ∀ m ∈ lineageInputs nodes, m ∈ used) :
    ∃ depth, Hashed pairBytes sha256 used ((sortedNodes nodes).map leafBytes) depth ∧
      climb pairBytes sha256 (sortedNodes nodes).length (((sortedNodes nodes).map leafBytes).map sha256) =
        level pairBytes sha256 ((sortedNodes nodes).map leafBytes) depth := by
  obtain ⟨depth, hclimb, hpairs⟩ := climb_level pairBytes sha256 (sortedNodes nodes).length
    (((sortedNodes nodes).map leafBytes).map sha256)
  refine ⟨depth, ⟨fun m hm => hused m ?_, fun k hk m hm => hused m ?_⟩, hclimb⟩
  · exact (mem_lineageInputs hne h m).mpr (.inl hm)
  · exact (mem_lineageInputs hne h m).mpr (.inr (hpairs k hk m hm))

theorem root_ne_empty {used : Set Bytes} (hinj : Set.InjOn sha256 used)
    (hempty : emptyDag ∈ used) {depth : ℕ} (hall : ∀ n ∈ sortedNodes nodes, n.Encodable)
    (h : Hashed pairBytes sha256 used ((sortedNodes nodes).map leafBytes) depth) :
    level pairBytes sha256 ((sortedNodes nodes).map leafBytes) depth ≠ [sha256 emptyDag] := by
  have hshort : emptyDag.length < 64 := by decide
  have hlong : ∃ ms : List Bytes, (∀ m ∈ ms, m ∈ used ∧ 64 ≤ m.length) ∧
      level pairBytes sha256 ((sortedNodes nodes).map leafBytes) depth = ms.map sha256 := by
    cases depth with
    | zero =>
      refine ⟨_, fun m hm => ⟨h.leaf m hm, ?_⟩, rfl⟩
      obtain ⟨n, hn, rfl⟩ := List.mem_map.mp hm
      exact (length_leafBytes (hall n hn)).le
    | succ depth =>
      refine ⟨_, fun m hm => ⟨h.pair depth (Nat.lt_succ_self depth) m hm, ?_⟩, level_succ _ depth⟩
      obtain ⟨x, y, rfl⟩ := eq_join_of_mem_pairs hm
      exact (length_pairBytes x y).ge
  obtain ⟨ms, hms, hlevel⟩ := hlong
  rw [hlevel]
  intro heq
  obtain ⟨m, hm, hroot⟩ := List.mem_map.mp (heq ▸ List.mem_singleton_self (sha256 emptyDag) :
    sha256 emptyDag ∈ ms.map sha256)
  have hsame := hinj (hms m hm).1 hempty hroot
  have hlength := (hms m hm).2
  rw [hsame] at hlength
  omega

theorem encodable_congr (h : SameOperands nodes nodes') :
    (∀ n ∈ sortedNodes nodes, n.Encodable) → ∀ n ∈ sortedNodes nodes', n.Encodable := by
  intro hall m hm
  obtain ⟨n, hn, hcontent⟩ := List.mem_map.mp
    (h.mem_iff.mpr (List.mem_map_of_mem (mem_sortedNodes.mp hm)))
  exact encodable_of_content hcontent (hall n (mem_sortedNodes.mpr hn))

theorem root_spec {used : Set Bytes} {root : Str} (hne : nodes ≠ [])
    (hused : ∀ m ∈ lineageInputs nodes, m ∈ used) (h : computeLineageRoot nodes = .ok root) :
    (∀ n ∈ sortedNodes nodes, n.Encodable) ∧ ∃ (depth : ℕ) (digest : Digest),
      Hashed pairBytes sha256 used ((sortedNodes nodes).map leafBytes) depth ∧
      level pairBytes sha256 ((sortedNodes nodes).map leafBytes) depth = [digest] ∧
      hex digest.bytes = root := by
  have hsorted := mt sortedNodes_eq_nil.mp hne
  obtain ⟨hall, digest, hhex, hclimb⟩ := (computeLineageRoot_ok_iff hsorted).mp h
  obtain ⟨depth, hhashed, hlevel⟩ := hashed_lineage hsorted hall hused
  exact ⟨hall, depth, digest, hhashed, hlevel.symm.trans hclimb, hhex⟩

theorem hexBytes_inj {d d' : Digest} (h : hex d.bytes = hex d'.bytes) : d = d' :=
  Digest.ext_bytes d d' (hex_inj _ _ h)

theorem ne_nil_of_emptyRoot {used : Set Bytes} (hinj : Set.InjOn sha256 used)
    (hempty : emptyDag ∈ used) (hused : ∀ m ∈ lineageInputs nodes, m ∈ used)
    (h : computeLineageRoot nodes = computeLineageRoot []) : nodes = [] := by
  by_contra hne
  obtain ⟨hall, depth, digest, hhashed, hlevel, hhex⟩ := root_spec hne hused h
  rw [hexBytes_inj hhex] at hlevel
  exact root_ne_empty hinj hempty hall hhashed hlevel

theorem leaf_ne_pair (h : ∀ n ∈ sortedNodes nodes, n.Encodable) :
    ∀ m ∈ (sortedNodes nodes).map leafBytes, ∀ a b, m ≠ pairBytes a b := by
  rintro m hm a b rfl
  obtain ⟨n, hn, hbytes⟩ := List.mem_map.mp hm
  have hlong := length_leafBytes (h n hn)
  rw [hbytes, length_pairBytes] at hlong
  exact absurd hlong (by decide)

theorem sameOperands_of_root {root : Str}
    (hids : (nodes.map OperandNode.nodeId).Nodup) (hids' : (nodes'.map OperandNode.nodeId).Nodup)
    (hinj : Set.InjOn sha256 {m | m ∈ lineageInputs nodes ∨ m ∈ lineageInputs nodes'})
    (hne : nodes ≠ []) (hne' : nodes' ≠ []) (h : computeLineageRoot nodes = .ok root)
    (h' : computeLineageRoot nodes' = .ok root) :
    SameOperands nodes nodes' ∧ ∀ n ∈ nodes, n.Encodable := by
  have hleaves : ∀ {l : List OperandNode}, l ≠ [] → (sortedNodes l).map leafBytes ≠ [] :=
    fun hl => mt (sortedNodes_eq_nil.mp ∘ List.map_eq_nil_iff.mp) hl
  obtain ⟨hall, depth, digest, hhashed, hlevel, hhex⟩ := root_spec hne (fun m hm => Or.inl hm) h
  obtain ⟨hall', depth', digest', hhashed', hlevel', hhex'⟩ := root_spec hne' (fun m hm => Or.inr hm) h'
  have hroots : level pairBytes sha256 ((sortedNodes nodes).map leafBytes) depth =
      level pairBytes sha256 ((sortedNodes nodes').map leafBytes) depth' := by
    rw [hlevel, hlevel', hexBytes_inj (hhex.trans hhex'.symm)]
  have hsame := leaves_of_level hinj pairBytes_inj (leaf_ne_pair hall) (leaf_ne_pair hall') (hleaves hne)
    (hleaves hne') (nodup_leaves hids hall) (nodup_leaves hids' hall') depth depth' hhashed hhashed' hroots
  exact ⟨(sorted_contents hids).mpr (contents_of_leaves hall hall' hsame),
    fun n hn => hall n (mem_sortedNodes.mpr hn)⟩

theorem root_of_sameOperands (hids : (nodes.map OperandNode.nodeId).Nodup)
    (h : SameOperands nodes nodes') (hall : ∀ n ∈ nodes, n.Encodable) :
    ∃ root, computeLineageRoot nodes = .ok root ∧ computeLineageRoot nodes' = .ok root := by
  by_cases hnil : nodes = []
  · obtain rfl : nodes' = [] := by simpa [SameOperands, hnil] using h.symm
    exact ⟨_, by rw [hnil]; rfl, rfl⟩
  have hnil' : nodes' ≠ [] := by
    rintro rfl
    exact hnil (List.map_eq_nil_iff.mp h.eq_nil)
  have hsorted : ∀ n ∈ sortedNodes nodes, n.Encodable := fun n hn => hall n (mem_sortedNodes.mp hn)
  have hleaves := leaves_of_contents ((sorted_contents hids).mp h)
  have hlength : (sortedNodes nodes).length = (sortedNodes nodes').length := by
    simpa using congrArg List.length hleaves
  obtain ⟨digest, hclimb⟩ := climb_single pairBytes sha256 (sortedNodes nodes).length
    (((sortedNodes nodes).map leafBytes).map sha256) (by simpa [sortedNodes_eq_nil] using hnil) (by simp)
  refine ⟨hex digest.bytes, ?_, ?_⟩
  · exact (computeLineageRoot_ok_iff (mt sortedNodes_eq_nil.mp hnil)).mpr ⟨hsorted, digest, rfl, hclimb⟩
  · rw [hleaves, hlength] at hclimb
    exact (computeLineageRoot_ok_iff (mt sortedNodes_eq_nil.mp hnil')).mpr
      ⟨encodable_congr h hsorted, digest, rfl, hclimb⟩

/-- Two lists of operands without repeated ids have one root exactly when they have the
same operands, and texts that can be encoded. -/
theorem lineage_root_binds (nodes nodes' : List OperandNode)
    (hids : (nodes.map OperandNode.nodeId).Nodup) (hids' : (nodes'.map OperandNode.nodeId).Nodup)
    (hinj : Set.InjOn sha256 {m | m ∈ lineageInputs nodes ∨ m ∈ lineageInputs nodes'}) :
    (∃ root, computeLineageRoot nodes = .ok root ∧ computeLineageRoot nodes' = .ok root) ↔
      SameOperands nodes nodes' ∧ ∀ n ∈ nodes, n.Encodable := by
  refine ⟨fun ⟨root, h, h'⟩ => ?_, fun ⟨h, hall⟩ => root_of_sameOperands hids h hall⟩
  have hempty : emptyDag ∈ lineageInputs [] := List.mem_singleton_self emptyDag
  by_cases hnil : nodes = []
  · subst hnil
    obtain rfl : nodes' = [] := ne_nil_of_emptyRoot hinj (.inl hempty) (fun m hm => Or.inr hm) (h'.trans h.symm)
    exact ⟨.nil, fun _ hn => absurd hn List.not_mem_nil⟩
  by_cases hnil' : nodes' = []
  · subst hnil'
    exact absurd (ne_nil_of_emptyRoot hinj (.inr hempty) (fun m hm => Or.inl hm) (h.trans h'.symm)) hnil
  · exact sameOperands_of_root hids hids' hinj hnil hnil' h h'

def sampleOperand (nodeId : Str) (parents : List Str) : OperandNode :=
  ⟨nodeId, txt "L1", .user, .internal, parents⟩

set_option maxRecDepth 2000 in
/-- Three operands in either order. -/
theorem lineage_root_binds_sample :
    let a := sampleOperand (txt "a") []
    let b := sampleOperand (txt "b") [txt "a"]
    let c := sampleOperand (txt "c") [txt "a", txt "b"]
    let c' := sampleOperand (txt "c") [txt "b", txt "a"]
    (∃ root, computeLineageRoot [a, b, c] = .ok root ∧ computeLineageRoot [c', b, a] = .ok root) ↔
      SameOperands [a, b, c] [c', b, a] ∧ ∀ n ∈ [a, b, c], n.Encodable := by
  intro a b c c'
  obtain ⟨hsame, hnodup⟩ : lineageInputs [c', b, a] = lineageInputs [a, b, c] ∧
      ((lineageInputs [a, b, c]).map sha256).Nodup := by
    decide
  refine lineage_root_binds [a, b, c] [c', b, a] (by decide) (by decide) ?_
  rw [hsame]
  simp only [or_self]
  exact injOn_of_nodup _ hnodup

end TexGovernance.Authority
