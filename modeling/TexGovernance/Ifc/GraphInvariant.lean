import TexGovernance.Ifc.Provenance
import TexGovernance.Lib.Pipeline

/-!
# The two adjacency lists

A call that gives a node a new id keeps the two lists of every edge in step. A call that passes
the id of a node with an edge to another node does not.
-/

namespace TexGovernance.Ifc
open PyStr PyDict PyJson GraphSearch Pipeline

namespace ProvenanceGraph

variable {g g' : ProvenanceGraph}

theorem hasNode_iff (id : Str) : g.hasNode id = true ↔ id ∈ g.nodes.keys := by
  unfold hasNode
  rw [Option.isSome_iff_ne_none, ne_eq, Dict.get?_eq_none_iff, not_not]

@[simp] theorem outs_putNode (id x : Str) (node : Node) :
    (g.putNode id node).outs x = if x = id then [] else g.outs x := by
  unfold outs putNode
  rw [Dict.get?_set]
  split <;> rfl

@[simp] theorem ins_putNode (id x : Str) (node : Node) :
    (g.putNode id node).ins x = if x = id then [] else g.ins x := by
  unfold ins putNode
  rw [Dict.get?_set]
  split <;> rfl

theorem mem_keys_putNode (id x : Str) (node : Node) :
    x ∈ (g.putNode id node).nodes.keys ↔ x = id ∨ x ∈ g.nodes.keys := Dict.mem_keys_set ..

def link (g : ProvenanceGraph) (e : Edge) : ProvenanceGraph :=
  { g with
    outEdges := g.outEdges.set e.source (g.outs e.source ++ [e])
    inEdges := g.inEdges.set e.target (g.ins e.target ++ [e]) }

@[simp] theorem outs_link (e : Edge) (x : Str) :
    (g.link e).outs x = if x = e.source then g.outs x ++ [e] else g.outs x := by
  unfold link outs
  rw [Dict.get?_set]
  by_cases h : x = e.source
  · rw [if_pos h, if_pos h, h]
    rfl
  · rw [if_neg h, if_neg h]

@[simp] theorem ins_link (e : Edge) (x : Str) :
    (g.link e).ins x = if x = e.target then g.ins x ++ [e] else g.ins x := by
  unfold link ins
  rw [Dict.get?_set]
  by_cases h : x = e.target
  · rw [if_pos h, if_pos h, h]
    rfl
  · rw [if_neg h, if_neg h]

theorem addEdge_cases {source target : Str} {kind : EdgeKind}
    (h : g.addEdge source target kind = .ok g') :
    source ∈ g.nodes.keys ∧ target ∈ g.nodes.keys ∧
      ((g' = g ∧ ∃ e ∈ g.outs source, e.target = target ∧ e.kind = kind) ∨
        (g' = g.link ⟨source, target, kind⟩ ∧
          ∀ e ∈ g.outs source, ¬ (e.target = target ∧ e.kind = kind))) := by
  unfold addEdge at h
  rw [← hasNode_iff, ← hasNode_iff]
  by_cases hsource : g.hasNode source = false
  · rw [if_pos hsource] at h
    cases h
  by_cases htarget : g.hasNode target = false
  · rw [if_neg hsource, if_pos htarget] at h
    cases h
  rw [if_neg hsource, if_neg htarget] at h
  rw [Bool.not_eq_false] at hsource htarget
  refine ⟨hsource, htarget, ?_⟩
  by_cases hany : (g.outs source).any (fun e => e.target = target && e.kind = kind) = true
  · rw [if_pos hany] at h
    cases h
    obtain ⟨e, he, hmatch⟩ := List.any_eq_true.mp hany
    refine .inl ⟨rfl, e, he, ?_⟩
    simpa using hmatch
  · rw [if_neg hany] at h
    cases h
    refine .inr ⟨rfl, fun e he hmatch => hany ?_⟩
    exact List.any_eq_true.mpr ⟨e, he, by simpa using hmatch⟩

structure GraphInv (g : ProvenanceGraph) : Prop where
  out_source : ∀ x, ∀ e ∈ g.outs x, e.source = x
  in_target : ∀ x, ∀ e ∈ g.ins x, e.target = x
  mirror : ∀ e : Edge, e ∈ g.outs e.source ↔ e ∈ g.ins e.target
  out_nodup : ∀ x, (g.outs x).Nodup
  in_nodup : ∀ x, (g.ins x).Nodup
  endpoints : ∀ x, ∀ e ∈ g.outs x, e.source ∈ g.nodes.keys ∧ e.target ∈ g.nodes.keys
  denials : ∀ d ∈ g.recentDenials, d ∈ g.nodes.keys

def OnlyLoops (g : ProvenanceGraph) (id : Str) : Prop :=
  ∀ e, e ∈ g.outs id ∨ e ∈ g.ins id → e.source = e.target

theorem graphInv_empty : GraphInv empty := by
  refine ⟨?_, ?_, ?_, fun _ => List.nodup_nil, fun _ => List.nodup_nil, ?_, ?_⟩
  · exact fun x e he => absurd he List.not_mem_nil
  · exact fun x e he => absurd he List.not_mem_nil
  · exact fun e => Iff.rfl
  · exact fun x e he => absurd he List.not_mem_nil
  · exact fun d hd => absurd hd List.not_mem_nil

theorem GraphInv.putNode (h : GraphInv g) {id : Str} (hid : g.OnlyLoops id) (node : Node) :
    GraphInv (g.putNode id node) := by
  have hout : ∀ x, ∀ e ∈ (g.putNode id node).outs x, x ≠ id ∧ e ∈ g.outs x := by
    intro x e he
    rw [outs_putNode] at he
    split at he
    · cases he
    · exact ⟨‹_›, he⟩
  have hin : ∀ x, ∀ e ∈ (g.putNode id node).ins x, x ≠ id ∧ e ∈ g.ins x := by
    intro x e he
    rw [ins_putNode] at he
    split at he
    · cases he
    · exact ⟨‹_›, he⟩
  refine ⟨fun x e he => h.out_source x e (hout x e he).2,
    fun x e he => h.in_target x e (hin x e he).2, fun e => ?_, fun x => ?_, fun x => ?_, fun x e he => ?_,
    fun d hd => ?_⟩
  · rw [outs_putNode, ins_putNode]
    by_cases hs : e.source = id
    · by_cases ht : e.target = id
      · rw [if_pos hs, if_pos ht]
      · -- a copy at the other end would be an edge to another node
        rw [if_pos hs, if_neg ht]
        refine ⟨fun he => absurd he List.not_mem_nil, fun he => ?_⟩
        have hloop := hid e (.inl (hs ▸ (h.mirror e).mpr he))
        exact absurd (hloop.symm.trans hs) ht
    · by_cases ht : e.target = id
      · rw [if_neg hs, if_pos ht]
        refine ⟨fun he => ?_, fun he => absurd he List.not_mem_nil⟩
        have hloop := hid e (.inr (ht ▸ (h.mirror e).mp he))
        exact absurd (hloop.trans ht) hs
      · rw [if_neg hs, if_neg ht]
        exact h.mirror e
  · rw [outs_putNode]
    split
    · exact List.nodup_nil
    · exact h.out_nodup x
  · rw [ins_putNode]
    split
    · exact List.nodup_nil
    · exact h.in_nodup x
  · obtain ⟨hs, ht⟩ := h.endpoints x e (hout x e he).2
    exact ⟨(mem_keys_putNode ..).mpr (.inr hs), (mem_keys_putNode ..).mpr (.inr ht)⟩
  · exact (mem_keys_putNode ..).mpr (.inr (h.denials d hd))

theorem GraphInv.link (h : GraphInv g) {e : Edge} (hs : e.source ∈ g.nodes.keys)
    (ht : e.target ∈ g.nodes.keys) (hnew : e ∉ g.outs e.source) : GraphInv (g.link e) := by
  have hnew' : e ∉ g.ins e.target := fun he => hnew ((h.mirror e).mpr he)
  have hout : ∀ x f, f ∈ (g.link e).outs x ↔ f ∈ g.outs x ∨ (x = e.source ∧ f = e) := by
    intro x f
    rw [outs_link]
    split
    · rename_i hx
      rw [List.mem_append, List.mem_singleton, and_iff_right hx]
    · rename_i hx
      simp [hx]
  have hin : ∀ x f, f ∈ (g.link e).ins x ↔ f ∈ g.ins x ∨ (x = e.target ∧ f = e) := by
    intro x f
    rw [ins_link]
    split
    · rename_i hx
      rw [List.mem_append, List.mem_singleton, and_iff_right hx]
    · rename_i hx
      simp [hx]
  refine ⟨fun x f hf => ?_, fun x f hf => ?_, fun f => ?_, fun x => ?_, fun x => ?_, fun x f hf => ?_,
    h.denials⟩
  · rcases (hout x f).mp hf with hf | ⟨rfl, rfl⟩
    · exact h.out_source x f hf
    · rfl
  · rcases (hin x f).mp hf with hf | ⟨rfl, rfl⟩
    · exact h.in_target x f hf
    · rfl
  · rw [hout, hin, h.mirror f]
    refine or_congr_right ⟨fun hf => ?_, fun hf => ?_⟩
    · rw [hf.2]
      exact ⟨rfl, rfl⟩
    · rw [hf.2]
      exact ⟨rfl, rfl⟩
  · rw [outs_link]
    split
    · rename_i hx
      refine List.Nodup.append (h.out_nodup x) (List.nodup_singleton _) ?_
      rw [List.disjoint_singleton, hx]
      exact hnew
    · exact h.out_nodup x
  · rw [ins_link]
    split
    · rename_i hx
      refine List.Nodup.append (h.in_nodup x) (List.nodup_singleton _) ?_
      rw [List.disjoint_singleton, hx]
      exact hnew'
    · exact h.in_nodup x
  · rcases (hout x f).mp hf with hf | ⟨rfl, rfl⟩
    · exact h.endpoints x f hf
    · exact ⟨hs, ht⟩

structure Grows (g g' : ProvenanceGraph) : Prop where
  nodes : ∀ x ∈ g.nodes.keys, x ∈ g'.nodes.keys
  edges : ∀ e : Edge, e ∈ g.ins e.target → e.source ≠ e.target → e ∈ g'.ins e.target

theorem grows_refl (g : ProvenanceGraph) : Grows g g := ⟨fun _ hx => hx, fun _ he _ => he⟩

theorem Grows.trans {g₁ g₂ g₃ : ProvenanceGraph} (h : Grows g₁ g₂) (h' : Grows g₂ g₃) : Grows g₁ g₃ :=
  ⟨fun x hx => h'.nodes x (h.nodes x hx), fun e he hne => h'.edges e (h.edges e he hne) hne⟩

theorem GraphInv.grows_putNode (h : GraphInv g) {id : Str} (hid : g.OnlyLoops id) (node : Node) :
    Grows g (g.putNode id node) := by
  refine ⟨fun x hx => (mem_keys_putNode ..).mpr (.inr hx), fun e he hne => ?_⟩
  rw [ins_putNode]
  split
  · rename_i ht
    exact absurd (hid e (.inr (ht ▸ he))) hne
  · exact he

theorem grows_link (e : Edge) : Grows g (g.link e) := by
  refine ⟨fun x hx => hx, fun f hf _ => ?_⟩
  rw [ins_link]
  split
  · exact List.mem_append_left _ hf
  · exact hf

theorem GraphInv.addEdge (h : GraphInv g) {source target : Str} {kind : EdgeKind}
    (hadd : g.addEdge source target kind = .ok g') : GraphInv g' ∧ Grows g g' := by
  obtain ⟨hs, ht, hcases⟩ := addEdge_cases hadd
  rcases hcases with ⟨rfl, -⟩ | ⟨rfl, hnew⟩
  · exact ⟨h, grows_refl _⟩
  · exact ⟨h.link hs ht fun he => hnew _ he ⟨rfl, rfl⟩, grows_link _⟩

theorem GraphInv.addEdges (h : GraphInv g) (id : Str) {denials : List Str}
    (hadd : denials.foldlM (fun g denial => g.addEdge denial id .counterfactual) g = .ok g') :
    GraphInv g' ∧ Grows g g' := by
  induction denials generalizing g with
  | nil =>
    cases hadd
    exact ⟨h, grows_refl _⟩
  | cons denial denials ih =>
    rw [List.foldlM_cons] at hadd
    cases hfirst : g.addEdge denial id .counterfactual with
    | error e =>
      rw [hfirst] at hadd
      cases hadd
    | ok g₁ =>
      rw [hfirst] at hadd
      obtain ⟨h₁, hgrows₁⟩ := h.addEdge hfirst
      obtain ⟨h', hgrows⟩ := ih h₁ hadd
      exact ⟨h', hgrows₁.trans hgrows⟩

theorem GraphInv.forget (h : GraphInv g) (denials : List Str)
    (hdenials : ∀ d ∈ denials, d ∈ g.nodes.keys) :
    GraphInv { g with recentDenials := denials } ∧ Grows g { g with recentDenials := denials } :=
  ⟨⟨h.out_source, h.in_target, h.mirror, h.out_nodup, h.in_nodup, h.endpoints, hdenials⟩,
    fun _ hx => hx, fun _ he _ => he⟩

def SafeOp (g : ProvenanceGraph) (op : GraphOp) : Prop :=
  ∀ id, g.newId op = some id → g.OnlyLoops id

theorem apply_addCall (h : GraphInv g) {name : Str} {nodeId : Option Str} {uuid : Str} {auto : Bool}
    (hid : g.OnlyLoops (chooseId nodeId (txt "call:") uuid))
    (hadd : g.addCall name nodeId uuid auto = .ok g') : GraphInv g' ∧ Grows g g' := by
  have hput := h.putNode hid ⟨.call, name, none⟩
  have hgrows := h.grows_putNode hid ⟨.call, name, none⟩
  unfold addCall at hadd
  simp only at hadd
  split at hadd
  · obtain ⟨g₂, hlinks, hend⟩ := bind_ok hadd
    cases hend
    obtain ⟨h₂, hgrows₂⟩ := hput.addEdges _ hlinks
    obtain ⟨h₃, hgrows₃⟩ := h₂.forget [] fun d hd => absurd hd List.not_mem_nil
    exact ⟨h₃, hgrows.trans (hgrows₂.trans hgrows₃)⟩
  · cases hadd
    exact ⟨hput, hgrows⟩

theorem addDataField_ok {parent fieldName : Str} {label : IfcLabel} {nodeId : Option Str} {uuid : Str}
    (happly : g.addDataField parent fieldName label nodeId uuid = .ok g') :
    g.newId (.addDataField parent fieldName label nodeId uuid) = some (chooseId nodeId (txt "field:") uuid) ∧
      (g.putNode (chooseId nodeId (txt "field:") uuid) ⟨.dataField, fieldName, some label⟩).addEdge
        (chooseId nodeId (txt "field:") uuid) parent .fieldOf = .ok g' := by
  unfold addDataField at happly
  simp only [newId]
  cases hparent : g.nodes.get? parent with
  | none =>
    rw [hparent] at happly
    cases happly
  | some node =>
    rw [hparent] at happly
    simp only at happly ⊢
    by_cases hkind : node.kind = .data
    · rw [if_neg (not_not.mpr hkind)] at happly
      exact ⟨if_pos hkind, happly⟩
    · rw [if_pos hkind] at happly
      cases happly

theorem GraphInv.after (h : GraphInv g) {op : GraphOp} (hop : g.SafeOp op) :
    GraphInv (g.after op) ∧ Grows g (g.after op) := by
  unfold ProvenanceGraph.after
  cases happly : g.apply op with
  | error e => exact ⟨h, grows_refl g⟩
  | ok g' =>
    simp only
    cases op with
    | addCall name nodeId uuid auto => exact apply_addCall h (hop _ rfl) happly
    | addData name label nodeId uuid =>
      cases happly
      exact ⟨h.putNode (hop _ rfl) _, h.grows_putNode (hop _ rfl) _⟩
    | addDataField parent fieldName label nodeId uuid =>
      obtain ⟨hnew, hadd⟩ := addDataField_ok happly
      obtain ⟨h', hgrows⟩ := (h.putNode (hop _ hnew) _).addEdge hadd
      exact ⟨h', (h.grows_putNode (hop _ hnew) _).trans hgrows⟩
    | addDeniedAction name uuid =>
      cases happly
      have hput := h.putNode (hop _ rfl) ⟨.deniedAction, name, none⟩
      have hgrows := h.grows_putNode (hop _ rfl) ⟨.deniedAction, name, none⟩
      obtain ⟨h', hgrows'⟩ := hput.forget (g.recentDenials ++ [txt "denied:" ++ uuid]) (by
        intro d hd
        rcases List.mem_append.mp hd with hd | hd
        · exact hput.denials d hd
        · rw [List.mem_singleton.mp hd]
          exact (mem_keys_putNode ..).mpr (.inl rfl))
      exact ⟨h', hgrows.trans hgrows'⟩
    | addEdge source target kind => exact h.addEdge happly

def SafeRun : ProvenanceGraph → List GraphOp → Prop
  | _, [] => True
  | g, op :: rest => g.SafeOp op ∧ SafeRun (g.after op) rest

theorem SafeRun.append {ops more : List GraphOp} (h : SafeRun g (ops ++ more)) :
    SafeRun g ops ∧ SafeRun (g.run ops) more := by
  induction ops generalizing g with
  | nil => exact ⟨trivial, h⟩
  | cons op ops ih =>
    obtain ⟨hop, hrest⟩ := h
    obtain ⟨hops, hmore⟩ := ih hrest
    exact ⟨⟨hop, hops⟩, hmore⟩

theorem GraphInv.run (h : GraphInv g) {ops : List GraphOp} (hops : SafeRun g ops) :
    GraphInv (g.run ops) ∧ Grows g (g.run ops) := by
  induction ops generalizing g with
  | nil => exact ⟨h, grows_refl g⟩
  | cons op ops ih =>
    obtain ⟨h', hgrows⟩ := h.after hops.1
    obtain ⟨hend, hrest⟩ := ih h' hops.2
    exact ⟨hend, hgrows.trans hrest⟩

/-- No call passes the id of a node that is there. -/
def FreshRun : ProvenanceGraph → List GraphOp → Prop
  | _, [] => True
  | g, op :: rest => (∀ id, g.newId op = some id → id ∉ g.nodes.keys) ∧ FreshRun (g.after op) rest

theorem GraphInv.onlyLoops_of_fresh (h : GraphInv g) {id : Str} (hid : id ∉ g.nodes.keys) :
    g.OnlyLoops id := by
  intro e he
  rcases he with he | he
  · exact absurd ((h.out_source id e he) ▸ (h.endpoints id e he).1) hid
  · have htarget := h.in_target id e he
    subst htarget
    exact absurd (h.endpoints _ e ((h.mirror e).mpr he)).2 hid

theorem GraphInv.safeRun_of_freshRun (h : GraphInv g) {ops : List GraphOp} (hops : FreshRun g ops) :
    SafeRun g ops := by
  induction ops generalizing g with
  | nil => trivial
  | cons op ops ih =>
    have hop : g.SafeOp op := fun id hid => h.onlyLoops_of_fresh (hops.1 id hid)
    exact ⟨hop, ih (h.after hop).1 hops.2⟩

theorem GraphInv.flowParents_mem (h : GraphInv g) {x y : Str} (hy : y ∈ g.flowParents x) :
    y ∈ g.nodes.keys := by
  unfold flowParents at hy
  obtain ⟨e, he, rfl⟩ := List.mem_map.mp hy
  have hin := (List.mem_filter.mp he).1
  have htarget := h.in_target x e hin
  subst htarget
  exact (h.endpoints _ e ((h.mirror e).mpr hin)).1

theorem pending_keys (g : ProvenanceGraph) :
    pending g.flowParents g.nodes.keys.toFinset [] =
      (g.nodes.keys.map fun id => (g.flowParents id).length).sum := by
  unfold pending
  rw [Finset.filter_true_of_mem fun x _ => List.not_mem_nil]
  exact List.sum_toFinset _ g.nodes.nodup

theorem GraphInv.mem_ancestors (h : GraphInv g) (v a : Str) :
    a ∈ g.ancestors v ↔ v ∈ g.nodes.keys ∧ a ≠ v ∧
      Relation.ReflTransGen (fun x y => y ∈ g.flowParents x) v a := by
  unfold ancestors
  by_cases hv : g.hasNode v = true
  · have hmem := (hasNode_iff v).mp hv
    have hstart : ClosureInv g.flowParents v [v] [] := by
      refine ⟨.inr (List.mem_singleton_self v), fun x hx => ?_, fun x hx => absurd hx List.not_mem_nil⟩
      rw [List.mem_singleton.mp (hx.resolve_left List.not_mem_nil)]
    have hfuel : [v].length + pending g.flowParents g.nodes.keys.toFinset [] < g.searchFuel := by
      rw [pending_keys, List.length_singleton]
      unfold searchFuel
      omega
    obtain ⟨visited, hclosure, hvisited⟩ := closure_exact
      (fun x _ y hy => List.mem_toFinset.mpr (h.flowParents_mem hy)) hstart
      (fun x hx => by
        rw [List.mem_singleton.mp hx]
        exact List.mem_toFinset.mpr hmem) hfuel
    rw [if_pos hv, hclosure]
    simp only [sortedNames, List.mem_insertionSort, List.mem_filter, decide_eq_true_eq, hvisited]
    exact ⟨fun ⟨hreach, hne⟩ => ⟨hmem, hne, hreach⟩, fun ⟨_, hne, hreach⟩ => ⟨hreach, hne⟩⟩
  · rw [if_neg hv]
    rw [hasNode_iff] at hv
    exact ⟨fun ha => absurd ha List.not_mem_nil, fun ha => absurd ha.1 hv⟩

theorem ancestors_grow (h : GraphInv g) (h' : GraphInv g') (hgrows : Grows g g') {v a : Str}
    (ha : a ∈ g.ancestors v) : a ∈ g'.ancestors v := by
  obtain ⟨hv, hne, hreach⟩ := (h.mem_ancestors v a).mp ha
  refine (h'.mem_ancestors v a).mpr ⟨hgrows.nodes v hv, hne, ?_⟩
  clear ha hne
  induction hreach with
  | refl => exact .refl
  | @tail b c _ hedge ih =>
    -- a loop may be lost, but it takes nowhere
    by_cases hloop : c = b
    · rw [hloop]
      exact ih
    · refine ih.tail ?_
      unfold flowParents at hedge ⊢
      obtain ⟨e, he, rfl⟩ := List.mem_map.mp hedge
      obtain ⟨hin, hflow⟩ := List.mem_filter.mp he
      have htarget := h.in_target b e hin
      subst htarget
      exact List.mem_map.mpr ⟨e, List.mem_filter.mpr ⟨hgrows.edges e hin hloop, hflow⟩, rfl⟩

end ProvenanceGraph

theorem IntegrityLevel.le_join_iff (levels : List IntegrityLevel) (b : IntegrityLevel) :
    b ≤ .join levels ↔ ∀ l ∈ levels, b ≤ l := by
  have hfold : ∀ (rest : List IntegrityLevel) (level : IntegrityLevel),
      b ≤ rest.foldl (fun result l => if l < result then l else result) level ↔
        b ≤ level ∧ ∀ l ∈ rest, b ≤ l := by
    intro rest
    induction rest with
    | nil => simp
    | cons l rest ih =>
      intro level
      rw [List.foldl_cons, ih, List.forall_mem_cons, ← and_assoc]
      refine and_congr_left fun _ => ?_
      split
      · rename_i hlt
        exact ⟨fun hl => ⟨hl.trans hlt.le, hl⟩, fun hl => hl.2⟩
      · rename_i hlt
        exact ⟨fun hl => ⟨hl, hl.trans (not_lt.mp hlt)⟩, fun hl => hl.1⟩
  cases levels with
  | nil =>
    refine ⟨fun _ l hl => absurd hl List.not_mem_nil, fun _ => ?_⟩
    cases b <;> decide
  | cons level rest =>
    unfold IntegrityLevel.join
    rw [hfold, List.forall_mem_cons]

theorem ConfidentialityLevel.join_le_iff (levels : List ConfidentialityLevel)
    (b : ConfidentialityLevel) : ConfidentialityLevel.join levels ≤ b ↔ ∀ l ∈ levels, l ≤ b := by
  have hfold : ∀ (rest : List ConfidentialityLevel) (level : ConfidentialityLevel),
      rest.foldl (fun result l => if result < l then l else result) level ≤ b ↔
        level ≤ b ∧ ∀ l ∈ rest, l ≤ b := by
    intro rest
    induction rest with
    | nil => simp
    | cons l rest ih =>
      intro level
      rw [List.foldl_cons, ih, List.forall_mem_cons, ← and_assoc]
      refine and_congr_left fun _ => ?_
      split
      · rename_i hlt
        exact ⟨fun hl => ⟨hlt.le.trans hl, hl⟩, fun hl => hl.2⟩
      · rename_i hlt
        exact ⟨fun hl => ⟨hl, (not_lt.mp hlt).trans hl⟩, fun hl => hl.1⟩
  cases levels with
  | nil =>
    refine ⟨fun _ l hl => absurd hl List.not_mem_nil, fun _ => ?_⟩
    cases b <;> decide
  | cons level rest =>
    unfold ConfidentialityLevel.join
    rw [hfold, List.forall_mem_cons]

namespace ProvenanceGraph

variable {g g' : ProvenanceGraph}

def labelled (g : ProvenanceGraph) (id : Str) : Option (NodeKind × Option IfcLabel) :=
  (g.nodes.get? id).map fun node => (node.kind, node.label)

theorem ancestorLabels_grow {v : Str} (hanc : ∀ a ∈ g.ancestors v, a ∈ g'.ancestors v)
    (hlabels : ∀ a ∈ g.ancestors v, g'.labelled a = g.labelled a) {label : IfcLabel}
    (hlabel : label ∈ g.ancestorLabels v) : label ∈ g'.ancestorLabels v := by
  unfold ancestorLabels at hlabel ⊢
  rw [List.mem_filterMap] at hlabel ⊢
  obtain ⟨a, ha, hread⟩ := hlabel
  refine ⟨a, hanc a ha, ?_⟩
  have hsame := hlabels a ha
  unfold labelled at hsame
  cases hnode : g.nodes.get? a with
  | none =>
    rw [hnode] at hread
    cases hread
  | some node =>
    rw [hnode] at hread hsame
    obtain ⟨node', hnode', hpair⟩ := Option.map_eq_some_iff.mp hsame
    rw [hnode']
    simp only at hread ⊢
    rw [(Prod.mk.inj hpair).1, (Prod.mk.inj hpair).2]
    exact hread

theorem labels_monotone {v : Str} (hanc : ∀ a ∈ g.ancestors v, a ∈ g'.ancestors v)
    (hlabels : ∀ a ∈ g.ancestors v, g'.labelled a = g.labelled a) :
    g.maxSensitivity v ≤ g'.maxSensitivity v ∧ g'.minTrust v ≤ g.minTrust v := by
  refine ⟨?_, ?_⟩
  · refine (ConfidentialityLevel.join_le_iff _ _).mpr fun l hl => ?_
    obtain ⟨label, hlabel, rfl⟩ := List.mem_map.mp hl
    exact (ConfidentialityLevel.join_le_iff _ _).mp le_rfl _
      (List.mem_map_of_mem (ancestorLabels_grow hanc hlabels hlabel))
  · refine (IntegrityLevel.le_join_iff _ _).mpr fun l hl => ?_
    obtain ⟨label, hlabel, rfl⟩ := List.mem_map.mp hl
    exact (IntegrityLevel.le_join_iff _ _).mp le_rfl _
      (List.mem_map_of_mem (ancestorLabels_grow hanc hlabels hlabel))

def outRecords (g : ProvenanceGraph) : List Edge := g.outEdges.items.flatMap Prod.snd

def inRecords (g : ProvenanceGraph) : List Edge := g.inEdges.items.flatMap Prod.snd

theorem mem_records (d : Dict Str (List Edge)) (e : Edge) :
    e ∈ d.items.flatMap Prod.snd ↔ ∃ x, e ∈ (d.get? x).getD [] := by
  rw [List.mem_flatMap]
  constructor
  · intro ⟨entry, hentry, he⟩
    refine ⟨entry.1, ?_⟩
    rw [(Dict.get?_eq_some_iff d entry.1 entry.2).mpr hentry]
    exact he
  · intro ⟨x, he⟩
    cases hget : d.get? x with
    | none =>
      rw [hget] at he
      cases he
    | some es =>
      rw [hget] at he
      exact ⟨(x, es), (Dict.get?_eq_some_iff d x es).mp hget, he⟩

theorem nodup_records (d : Dict Str (List Edge)) (owner : Edge → Str)
    (howner : ∀ x, ∀ e ∈ (d.get? x).getD [], owner e = x)
    (hnodup : ∀ x, ((d.get? x).getD []).Nodup) : (d.items.flatMap Prod.snd).Nodup := by
  have hlist : ∀ entry ∈ d.items, (d.get? entry.1).getD [] = entry.2 := by
    intro entry hentry
    rw [(Dict.get?_eq_some_iff d entry.1 entry.2).mpr hentry]
    rfl
  rw [List.nodup_flatMap]
  refine ⟨fun entry hentry => hlist entry hentry ▸ hnodup entry.1, ?_⟩
  have hkeys : d.items.Pairwise fun a b => a.1 ≠ b.1 := List.pairwise_map.mp d.nodup
  refine hkeys.imp_of_mem fun {a b} ha hb hne => ?_
  intro e hea heb
  have hoa : owner e = a.1 := howner a.1 e (by rw [hlist a ha]; exact hea)
  have hob : owner e = b.1 := howner b.1 e (by rw [hlist b hb]; exact heb)
  exact hne (hoa.symm.trans hob)

structure Represents (g : ProvenanceGraph) : Prop where
  same : ∀ e, e ∈ g.outRecords ↔ e ∈ g.inRecords
  out_nodup : g.outRecords.Nodup
  in_nodup : g.inRecords.Nodup
  endpoints : ∀ e ∈ g.outRecords, e.source ∈ g.nodes.keys ∧ e.target ∈ g.nodes.keys

theorem GraphInv.represents (h : GraphInv g) : Represents g := by
  have hout : ∀ e, e ∈ g.outRecords ↔ e ∈ g.outs e.source := by
    intro e
    refine (mem_records g.outEdges e).trans ⟨fun ⟨x, he⟩ => ?_, fun he => ⟨e.source, he⟩⟩
    rw [h.out_source x e he]
    exact he
  have hin : ∀ e, e ∈ g.inRecords ↔ e ∈ g.ins e.target := by
    intro e
    refine (mem_records g.inEdges e).trans ⟨fun ⟨x, he⟩ => ?_, fun he => ⟨e.target, he⟩⟩
    rw [h.in_target x e he]
    exact he
  refine ⟨fun e => ?_, nodup_records _ _ h.out_source h.out_nodup,
    nodup_records _ _ h.in_target h.in_nodup, fun e he => ?_⟩
  · rw [hout, hin]
    exact h.mirror e
  · exact h.endpoints e.source e ((hout e).mp he)

/-- In every run whose calls never pass the id of a node with an edge to
another node, every state has the representation, no ancestor is lost later
on, and labels only get stricter. -/
theorem safe_run_represents (ops : List GraphOp) (hops : SafeRun empty ops) :
    ∀ pre mid post, ops = pre ++ mid ++ post →
      Represents (empty.run pre) ∧
      ∀ v, (∀ a ∈ (empty.run pre).ancestors v, a ∈ (empty.run (pre ++ mid)).ancestors v) ∧
        ((∀ a ∈ (empty.run pre).ancestors v,
            (empty.run (pre ++ mid)).labelled a = (empty.run pre).labelled a) →
          (empty.run pre).maxSensitivity v ≤ (empty.run (pre ++ mid)).maxSensitivity v ∧
            (empty.run (pre ++ mid)).minTrust v ≤ (empty.run pre).minTrust v) := by
  intro pre mid post hsplit
  subst hsplit
  rw [List.append_assoc] at hops
  obtain ⟨hpre, hrest⟩ := hops.append
  obtain ⟨hmid, -⟩ := hrest.append
  obtain ⟨h, -⟩ := graphInv_empty.run hpre
  obtain ⟨h', hgrows⟩ := h.run hmid
  have hrun : empty.run (pre ++ mid) = (empty.run pre).run mid := List.foldl_append
  rw [hrun]
  refine ⟨h.represents, fun v => ?_⟩
  have hanc : ∀ a ∈ (empty.run pre).ancestors v, a ∈ ((empty.run pre).run mid).ancestors v :=
    fun a ha => ancestors_grow h h' hgrows ha
  exact ⟨hanc, labels_monotone hanc⟩

def secretLabel : IfcLabel := ⟨.sysInstr, .restricted, .text⟩

def secretFlow : List GraphOp :=
  [.addData (txt "payroll") secretLabel (some (txt "d")) [], .addCall (txt "send") (some (txt "c")) [] true,
    .addEdge (txt "d") (txt "c") .inputTo]

theorem secretFlow_fresh : FreshRun empty secretFlow := by
  refine ⟨fun id hid => ?_, fun id hid => ?_, fun id hid => ?_, trivial⟩
  · cases hid
    decide
  · cases hid
    decide
  · cases hid

theorem safe_run_represents_secretFlow :
    SafeRun empty secretFlow ∧ Represents (empty.run secretFlow) := by
  have hsafe := graphInv_empty.safeRun_of_freshRun secretFlow_fresh
  exact ⟨hsafe, (safe_run_represents secretFlow hsafe secretFlow [] [] (by simp)).1⟩

/-- The id of the call is passed once more: the secret keeps its out-edge, the
call loses its in-edge and its only ancestor. -/
theorem readded_call_loses_ancestor :
    (⟨txt "d", txt "c", .inputTo⟩ : Edge) ∈
        (empty.run (secretFlow ++ [.addCall (txt "send") (some (txt "c")) [] true])).outRecords ∧
      (⟨txt "d", txt "c", .inputTo⟩ : Edge) ∉
        (empty.run (secretFlow ++ [.addCall (txt "send") (some (txt "c")) [] true])).inRecords ∧
      (empty.run secretFlow).ancestors (txt "c") = [txt "d"] ∧
      (empty.run (secretFlow ++ [.addCall (txt "send") (some (txt "c")) [] true])).ancestors
        (txt "c") = [] := by
  decide

end ProvenanceGraph

end TexGovernance.Ifc
