import TexGovernance.Ifc.GraphInvariant
import TexGovernance.Ifc.FlowExact

/-!
# What the fingerprint binds

The hashed bytes are the records of the nodes, in the order of their ids, and
then those of the edges, each after a NUL. Names and ids stand in them without
a length, so a record can be read back only where they hold none of the
separators.
-/

namespace TexGovernance.Ifc
open PyStr PyDict PyJson PyCodec PyBytes PyRepr Sha256 Pipeline

namespace ProvenanceGraph

variable {g g' : ProvenanceGraph}

structure NodesInv (g : ProvenanceGraph) : Prop where
  labelled : ∀ x node, g.nodes.get? x = some node → node.kind.isData = node.label.isSome
  out_source : ∀ x, ∀ e ∈ g.outs x, e.source = x
  endpoints : ∀ x, ∀ e ∈ g.outs x, e.source ∈ g.nodes.keys ∧ e.target ∈ g.nodes.keys

theorem nodesInv_empty : NodesInv empty :=
  ⟨fun _ _ h => (by cases h), fun _ _ he => absurd he List.not_mem_nil,
    fun _ _ he => absurd he List.not_mem_nil⟩

theorem NodesInv.putNode (h : NodesInv g) (id : Str) (node : Node)
    (hnode : node.kind.isData = node.label.isSome) : NodesInv (g.putNode id node) := by
  have hout : ∀ x, ∀ e ∈ (g.putNode id node).outs x, e ∈ g.outs x := by
    intro x e he
    rw [outs_putNode] at he
    split at he
    · cases he
    · exact he
  refine ⟨fun x n hx => ?_, fun x e he => h.out_source x e (hout x e he), fun x e he => ?_⟩
  · have hx : (g.nodes.set id node).get? x = some n := hx
    rw [Dict.get?_set] at hx
    split at hx
    · cases hx
      exact hnode
    · exact h.labelled x n hx
  · obtain ⟨hs, ht⟩ := h.endpoints x e (hout x e he)
    exact ⟨(mem_keys_putNode ..).mpr (.inr hs), (mem_keys_putNode ..).mpr (.inr ht)⟩

theorem NodesInv.addEdge (h : NodesInv g) {source target : Str} {kind : EdgeKind}
    (hadd : g.addEdge source target kind = .ok g') : NodesInv g' := by
  obtain ⟨hs, ht, hcases⟩ := addEdge_cases hadd
  rcases hcases with ⟨rfl, -⟩ | ⟨rfl, -⟩
  · exact h
  · have hout : ∀ x, ∀ e ∈ (g.link ⟨source, target, kind⟩).outs x,
        e ∈ g.outs x ∨ (x = source ∧ e = ⟨source, target, kind⟩) := by
      intro x e he
      rw [outs_link] at he
      split at he
      · rename_i hx
        rw [List.mem_append, List.mem_singleton] at he
        exact he.imp_right fun he => ⟨hx, he⟩
      · exact .inl he
    refine ⟨h.labelled, fun x e he => ?_, fun x e he => ?_⟩
    · rcases hout x e he with he | ⟨rfl, rfl⟩
      · exact h.out_source x e he
      · rfl
    · rcases hout x e he with he | ⟨rfl, rfl⟩
      · exact h.endpoints x e he
      · exact ⟨hs, ht⟩

theorem NodesInv.addEdges (h : NodesInv g) (id : Str) {denials : List Str}
    (hadd : denials.foldlM (fun g denial => g.addEdge denial id .counterfactual) g = .ok g') :
    NodesInv g' := by
  induction denials generalizing g with
  | nil =>
    cases hadd
    exact h
  | cons denial denials ih =>
    rw [List.foldlM_cons] at hadd
    obtain ⟨g₁, hfirst, hrest⟩ := bind_ok hadd
    exact ih (h.addEdge hfirst) hrest

theorem NodesInv.after (h : NodesInv g) (op : GraphOp) : NodesInv (g.after op) := by
  unfold ProvenanceGraph.after
  cases happly : g.apply op with
  | error e => exact h
  | ok g' =>
    cases op with
    | addCall name nodeId uuid auto =>
      have happly : g.addCall name nodeId uuid auto = .ok g' := happly
      have hput := h.putNode (chooseId nodeId (txt "call:") uuid) ⟨.call, name, none⟩ rfl
      unfold addCall at happly
      simp only at happly
      split at happly
      · obtain ⟨g₂, hlinks, hend⟩ := bind_ok happly
        cases hend
        have h₂ := hput.addEdges _ hlinks
        exact ⟨h₂.labelled, h₂.out_source, h₂.endpoints⟩
      · cases happly
        exact hput
    | addData name label nodeId uuid =>
      cases happly
      exact h.putNode _ _ rfl
    | addDataField parent fieldName label nodeId uuid =>
      have happly : g.addDataField parent fieldName label nodeId uuid = .ok g' := happly
      unfold addDataField at happly
      split at happly
      · cases happly
      · split at happly
        · cases happly
        · exact (h.putNode _ _ rfl).addEdge happly
    | addDeniedAction name uuid =>
      cases happly
      have hput := h.putNode (txt "denied:" ++ uuid) ⟨.deniedAction, name, none⟩ rfl
      exact ⟨hput.labelled, hput.out_source, hput.endpoints⟩
    | addEdge source target kind => exact h.addEdge happly

theorem NodesInv.run (h : NodesInv g) (ops : List GraphOp) : NodesInv (g.run ops) := by
  induction ops generalizing g with
  | nil => exact h
  | cons op ops ih => exact ih (h.after op)

theorem blocks_inj {α : Type} {sep : α} {xs ys : List (List α)} (hxs : ∀ b ∈ xs, sep ∉ b)
    (hys : ∀ b ∈ ys, sep ∉ b)
    (h : xs.flatMap (fun b => sep :: b) = ys.flatMap (fun b => sep :: b)) : xs = ys := by
  -- two blocks that are followed by nothing or by the separator
  have hcut : ∀ {a b u v : List α}, sep ∉ a → sep ∉ b → (u = [] ∨ ∃ u', u = sep :: u') →
      (v = [] ∨ ∃ v', v = sep :: v') → a ++ u = b ++ v → a = b ∧ u = v := by
    intro a
    induction a with
    | nil =>
      intro b u v _ hb hu hv heq
      cases b with
      | nil => exact ⟨rfl, heq⟩
      | cons d b =>
        rcases hu with rfl | ⟨u', rfl⟩
        · cases heq
        · obtain ⟨hsep, -⟩ := List.cons.inj heq
          exact absurd (hsep ▸ List.mem_cons_self) hb
    | cons c a ih =>
      intro b u v ha hb hu hv heq
      cases b with
      | nil =>
        rcases hv with rfl | ⟨v', rfl⟩
        · cases heq
        · obtain ⟨hsep, -⟩ := List.cons.inj heq
          exact absurd (hsep ▸ List.mem_cons_self) ha
      | cons d b =>
        obtain ⟨rfl, hrest⟩ := List.cons.inj heq
        obtain ⟨rfl, huv⟩ := ih (fun hm => ha (List.mem_cons_of_mem _ hm))
          (fun hm => hb (List.mem_cons_of_mem _ hm)) hu hv hrest
        exact ⟨rfl, huv⟩
  have hstart : ∀ zs : List (List α), zs.flatMap (fun b => sep :: b) = [] ∨
      ∃ u', zs.flatMap (fun b => sep :: b) = sep :: u' := by
    intro zs
    cases zs with
    | nil => exact .inl rfl
    | cons z zs => exact .inr ⟨z ++ zs.flatMap (fun b => sep :: b), rfl⟩
  induction xs generalizing ys with
  | nil =>
    cases ys with
    | nil => rfl
    | cons y ys => cases h
  | cons x xs ih =>
    cases ys with
    | nil => cases h
    | cons y ys =>
      rw [List.flatMap_cons, List.flatMap_cons, List.cons_append, List.cons_append] at h
      obtain ⟨rfl, hrest⟩ := hcut (hxs x List.mem_cons_self) (hys y List.mem_cons_self) (hstart xs)
        (hstart ys) (List.cons.inj h).2
      rw [ih (fun b hb => hxs b (List.mem_cons_of_mem _ hb))
        (fun b hb => hys b (List.mem_cons_of_mem _ hb)) hrest]

def Clean (s : Str) : Prop := Plain s ∧ (0 : CodePoint) ∉ s

theorem encodeReplace_eq {s : Str} (h : Plain s) : utf8Encode s = .ok (encodeReplace s) := by
  induction s with
  | nil => rfl
  | cons c s ih =>
    obtain ⟨bs, hbs⟩ := encodeCodePoint_isSome (h c List.mem_cons_self)
    have hs := ih fun d hd => h d (List.mem_cons_of_mem _ hd)
    simp only [utf8Encode, hbs, hs, encodeReplace, List.flatMap_cons, Option.getD_some]

theorem nul_notMem_utf8Encode {s : Str} {b : Bytes} (hs : (0 : CodePoint) ∉ s)
    (h : utf8Encode s = .ok b) : (0 : Byte) ∉ b := by
  intro hmem
  obtain ⟨c, hc, hval⟩ := ascii_of_utf8Encode (by decide : 0 < 0x80) h hmem
  have hzero : c = 0 := Fin.ext hval
  exact hs (hzero ▸ hc)

def nodeBody (node : Node) : Bytes :=
  ascii "node:" ++ encodeReplace node.kind.value ++ ascii "|" ++ encodeReplace node.name ++
    match node.label with
    | some label => labelBytes label
    | none => []

theorem labelBytes_eq (label : IfcLabel) :
    labelBytes label = [124, byte (48 + label.integrity.toNat), 44,
      byte (48 + label.confidentiality.toNat), 44, byte (48 + label.capacity.toNat)] := by
  obtain ⟨i, c, p⟩ := label
  have hi : digit i.toNat = [byte (48 + i.toNat)] := by cases i <;> rfl
  have hc : digit c.toNat = [byte (48 + c.toNat)] := by cases c <;> rfl
  have hp : digit p.toNat = [byte (48 + p.toNat)] := by cases p <;> rfl
  unfold labelBytes
  rw [hi, hc, hp]
  rfl

theorem labelBytes_inj {label label' : IfcLabel} (h : labelBytes label = labelBytes label') :
    label = label' := by
  rw [labelBytes_eq, labelBytes_eq] at h
  obtain ⟨i, c, p⟩ := label
  obtain ⟨i', c', p'⟩ := label'
  simp only [List.cons.injEq, and_true, true_and] at h
  obtain ⟨hi, hc, hp⟩ := h
  have hi : i = i' := by
    cases i <;> cases i' <;> first | rfl | exact absurd hi (by decide)
  have hc : c = c' := by
    cases c <;> cases c' <;> first | rfl | exact absurd hc (by decide)
  have hp : p = p' := by
    cases p <;> cases p' <;> first | rfl | exact absurd hp (by decide)
  rw [hi, hc, hp]

theorem kind_inj {k k' : NodeKind} {u v : Bytes}
    (h : encodeReplace k.value ++ (ascii "|" ++ u) = encodeReplace k'.value ++ (ascii "|" ++ v)) :
    k = k' := by
  have htake : ∀ (j : NodeKind) (w : Bytes), (encodeReplace j.value ++ (ascii "|" ++ w)).take 5 =
      (encodeReplace j.value ++ ascii "|").take 5 := by
    intro j w
    rw [← List.append_assoc, List.take_append_of_le_length]
    cases j <;> decide
  have h5 := congrArg (List.take 5) h
  rw [htake, htake] at h5
  cases k <;> cases k' <;> first | rfl | exact absurd h5 (by decide)

theorem nodeBody_inj {node node' : Node} (hlabel : node.kind.isData = node.label.isSome)
    (hlabel' : node'.kind.isData = node'.label.isSome) (hname : Plain node.name)
    (hname' : Plain node'.name) (h : nodeBody node = nodeBody node') : node = node' := by
  obtain ⟨kind, name, label⟩ := node
  obtain ⟨kind', name', label'⟩ := node'
  unfold nodeBody at h
  simp only [List.append_assoc] at h
  have h := List.append_cancel_left h
  have hkind := kind_inj h
  subst hkind
  have h := List.append_cancel_left (List.append_cancel_left h)
  have hsome : label.isSome = label'.isSome := hlabel.symm.trans hlabel'
  have hlen : ∀ l : IfcLabel, (labelBytes l).length = 6 := by
    intro l
    rw [labelBytes_eq]
    rfl
  -- with or without a label, the last part has the same length in both
  obtain ⟨hnames, hlabels⟩ : encodeReplace name = encodeReplace name' ∧ label = label' := by
    cases label with
    | none =>
      cases label' with
      | none => exact ⟨by simpa using h, rfl⟩
      | some l' => cases hsome
    | some l =>
      cases label' with
      | none => cases hsome
      | some l' =>
        obtain ⟨h1, h2⟩ := List.append_inj' h (by rw [hlen, hlen])
        exact ⟨h1, by rw [labelBytes_inj h2]⟩
  have hencode := encodeReplace_eq hname
  rw [hnames] at hencode
  have hn : name = name' := utf8Encode_inj _ _ _ hencode (encodeReplace_eq hname')
  rw [hn, hlabels]

theorem nul_notMem_nodeBody {node : Node} (hname : Clean node.name) : (0 : Byte) ∉ nodeBody node := by
  have hkind : (0 : Byte) ∉ ascii "node:" ++ encodeReplace node.kind.value ++ ascii "|" := by
    cases node.kind <;> decide
  have htext := nul_notMem_utf8Encode hname.2 (encodeReplace_eq hname.1)
  have hlabel : (0 : Byte) ∉ (match node.label with
      | some label => labelBytes label
      | none => []) := by
    cases node.label with
    | none => exact List.not_mem_nil
    | some label =>
      obtain ⟨i, c, p⟩ := label
      simp only [labelBytes_eq]
      cases i <;> cases c <;> cases p <;> decide
  unfold nodeBody
  simp only [List.mem_append, not_or] at hkind ⊢
  exact ⟨⟨hkind, htext⟩, hlabel⟩

def edgeText (r : Str × Str × Str) : Str :=
  txt "edge:" ++ r.1 ++ txt "->" ++ r.2.1 ++ txt "/" ++ r.2.2

theorem edgeBytes_text {r : Str × Str × Str} {b : Bytes} (h : edgeBytes r = .ok b) :
    ∃ body, b = 0 :: body ∧ utf8Encode (edgeText r) = .ok body := by
  unfold edgeBytes at h
  obtain ⟨s, hs, h⟩ := bind_ok h
  obtain ⟨t, ht, h⟩ := bind_ok h
  obtain ⟨k, hk, h⟩ := bind_ok h
  have hb := (Except.ok.inj h).symm
  refine ⟨ascii "edge:" ++ s ++ ascii "->" ++ t ++ ascii "/" ++ k, hb, ?_⟩
  have hedge : utf8Encode (txt "edge:") = .ok (ascii "edge:") := rfl
  have harrow : utf8Encode (txt "->") = .ok (ascii "->") := rfl
  have hslash : utf8Encode (txt "/") = .ok (ascii "/") := rfl
  exact utf8Encode_append (utf8Encode_append (utf8Encode_append (utf8Encode_append
    (utf8Encode_append hedge hs) harrow) ht) hslash) hk

def NoArrow (s : Str) : Prop := ¬ [cp '-', cp '>'] <:+: s

theorem arrow_inj {s s' u u' : Str} (hs : NoArrow s) (hs' : NoArrow s')
    (h : s ++ (cp '-' :: cp '>' :: u) = s' ++ (cp '-' :: cp '>' :: u')) : s = s' ∧ u = u' := by
  have hdash : cp '>' ≠ cp '-' := by decide
  induction s generalizing s' with
  | nil =>
    cases s' with
    | nil => exact ⟨rfl, (List.cons.inj (List.cons.inj h).2).2⟩
    | cons c s' =>
      obtain ⟨rfl, hrest⟩ := List.cons.inj h
      cases s' with
      | nil => exact absurd (List.cons.inj hrest).1 hdash
      | cons d s' =>
        obtain ⟨rfl, -⟩ := List.cons.inj hrest
        exact absurd ⟨[], s', rfl⟩ hs'
  | cons c s ih =>
    cases s' with
    | nil =>
      obtain ⟨rfl, hrest⟩ := List.cons.inj h
      cases s with
      | nil => exact absurd (List.cons.inj hrest).1.symm hdash
      | cons d s =>
        obtain ⟨rfl, -⟩ := List.cons.inj hrest
        exact absurd ⟨[], s, rfl⟩ hs
    | cons c' s' =>
      obtain ⟨rfl, hrest⟩ := List.cons.inj h
      have htail : ∀ t : Str, NoArrow (c :: t) → NoArrow t := fun t ht hin =>
        ht (hin.trans (List.suffix_cons c t).isInfix)
      obtain ⟨rfl, hu⟩ := ih (htail s hs) (htail s' hs') hrest
      exact ⟨rfl, hu⟩

theorem edgeKind_inj {k k' : EdgeKind} {u v : Str} (h : u ++ k.value = v ++ k'.value) : k = k' := by
  have hne : ∀ j : EdgeKind, j.value ≠ [] := by
    intro j
    cases j <;> decide
  have hlast := congrArg List.getLast? h
  rw [List.getLast?_append_of_ne_nil _ (hne k), List.getLast?_append_of_ne_nil _ (hne k')] at hlast
  cases k <;> cases k' <;> first | rfl | exact absurd hlast (by decide)

theorem edgeText_inj {s t s' t' : Str} {k k' : EdgeKind} (hs : NoArrow s) (hs' : NoArrow s')
    (h : edgeText (s, t, k.value) = edgeText (s', t', k'.value)) : s = s' ∧ t = t' ∧ k = k' := by
  unfold edgeText at h
  have hk := edgeKind_inj h
  subst hk
  have h := List.append_cancel_right (List.append_cancel_right h)
  simp only [List.append_assoc] at h
  obtain ⟨hs, ht⟩ := arrow_inj hs hs' (List.append_cancel_left h)
  exact ⟨hs, ht, rfl⟩

def nodeSequence (g : ProvenanceGraph) : List Node :=
  (sortedNames g.nodes.keys).filterMap g.nodes.get?

structure Separable (g : ProvenanceGraph) : Prop where
  names : ∀ x node, g.nodes.get? x = some node → Clean node.name
  ids : ∀ e ∈ g.outRecords, NoArrow e.source ∧ (0 : CodePoint) ∉ e.source ∧ (0 : CodePoint) ∉ e.target

theorem mem_nodeSequence {node : Node} (h : node ∈ g.nodeSequence) :
    ∃ x, g.nodes.get? x = some node := by
  obtain ⟨x, -, hx⟩ := List.mem_filterMap.mp h
  exact ⟨x, hx⟩

theorem fingerprintInput_blocks {b : Bytes} (h : g.fingerprintInput = .ok b) :
    ∃ bodies : List Bytes,
      List.Forall₂ (fun r body => utf8Encode (edgeText r) = .ok body) g.edgeRecords bodies ∧
        b = (g.nodeSequence.map nodeBody ++ bodies).flatMap (fun body => 0 :: body) := by
  unfold fingerprintInput at h
  obtain ⟨edges, hedges, h⟩ := bind_ok h
  have hb := (Except.ok.inj h).symm
  have hsplit : ∃ bodies : List Bytes,
      List.Forall₂ (fun r body => utf8Encode (edgeText r) = .ok body) g.edgeRecords bodies ∧
        edges = bodies.map fun body => 0 :: body := by
    have hall := (mapM_ok_iff edgeBytes g.edgeRecords edges).mp hedges
    generalize g.edgeRecords = records at hall
    clear hedges h hb
    induction hall with
    | nil => exact ⟨[], .nil, rfl⟩
    | cons hr _ ih =>
      obtain ⟨body, rfl, hbody⟩ := edgeBytes_text hr
      obtain ⟨bodies, hbodies, rfl⟩ := ih
      exact ⟨body :: bodies, .cons hbody hbodies, rfl⟩
  obtain ⟨bodies, hbodies, rfl⟩ := hsplit
  refine ⟨bodies, hbodies, ?_⟩
  rw [hb, List.flatMap_append, List.flatMap_map, List.flatMap_def (l := bodies)]
  rfl

theorem edgeRecords_cases (h : NodesInv g) {r : Str × Str × Str} (hr : r ∈ g.edgeRecords) :
    ∃ e ∈ g.outRecords, r = (e.source, e.target, e.kind.value) := by
  obtain ⟨x, e, he, rfl⟩ := (mem_edgeRecords g r).mp hr
  exact ⟨e, (mem_records g.outEdges e).mpr ⟨x, he⟩, by rw [h.out_source x e he]⟩

theorem record_of_mem (h : NodesInv g) {e : Edge} (he : e ∈ g.outRecords) :
    (e.source, e.target, e.kind.value) ∈ g.edgeRecords := by
  obtain ⟨x, hx⟩ := (mem_records g.outEdges e).mp he
  exact (mem_edgeRecords g _).mpr ⟨x, e, hx, by rw [h.out_source x e hx]⟩

theorem edgeBody_facts (h : NodesInv g) (hsep : Separable g) {r : Str × Str × Str} {body : Bytes}
    (hr : r ∈ g.edgeRecords) (hbody : utf8Encode (edgeText r) = .ok body) :
    (0 : Byte) ∉ body ∧ body.head? = some 0x65 := by
  obtain ⟨e, he, rfl⟩ := edgeRecords_cases h hr
  obtain ⟨-, hs, ht⟩ := hsep.ids e he
  constructor
  · refine nul_notMem_utf8Encode ?_ hbody
    have hkind : (0 : CodePoint) ∉ txt "/" ++ e.kind.value := by
      cases e.kind <;> decide
    have hstart : (0 : CodePoint) ∉ txt "edge:" := by decide
    have harrow : (0 : CodePoint) ∉ txt "->" := by decide
    unfold edgeText
    simp only [List.mem_append, not_or] at hkind ⊢
    exact ⟨⟨⟨⟨⟨hstart, hs⟩, harrow⟩, ht⟩, hkind.1⟩, hkind.2⟩
  · have htext : edgeText (e.source, e.target, e.kind.value) = cp 'e' ::
        (txt "dge:" ++ e.source ++ txt "->" ++ e.target ++ txt "/" ++ e.kind.value) := rfl
    rw [htext] at hbody
    obtain ⟨bs, rest, hbs, -, hbody⟩ := utf8Encode_cons _ _ _ hbody
    have he : encodeCodePoint (cp 'e') = some [0x65] := by decide
    cases he.symm.trans hbs
    rw [hbody]
    rfl

theorem nodeBody_head (node : Node) : (nodeBody node).head? = some 0x6e := rfl

theorem append_inj_of_split {α : Type} {p : α → Bool} {xs ys xs' ys' : List α}
    (hxs : ∀ x ∈ xs, p x = true) (hys : ∀ y ∈ ys, p y = false) (hxs' : ∀ x ∈ xs', p x = true)
    (hys' : ∀ y ∈ ys', p y = false) (h : xs ++ ys = xs' ++ ys') : xs = xs' ∧ ys = ys' := by
  have hnone : ∀ {zs : List α}, (∀ z ∈ zs, p z = false) → zs.filter p = [] := fun hzs =>
    List.filter_eq_nil_iff.mpr fun z hz => by rw [hzs z hz]; exact Bool.false_ne_true
  have hfilter := congrArg (List.filter p) h
  rw [List.filter_append, List.filter_append, List.filter_eq_self.mpr hxs,
    List.filter_eq_self.mpr hxs', hnone hys, hnone hys', List.append_nil, List.append_nil] at hfilter
  subst hfilter
  exact ⟨rfl, List.append_cancel_left h⟩

theorem bodies_eq (h : NodesInv g) (h' : NodesInv g') (hsep : Separable g) (hsep' : Separable g')
    {bodies bodies' : List Bytes}
    (hall : List.Forall₂ (fun r body => utf8Encode (edgeText r) = .ok body) g.edgeRecords bodies)
    (hall' : List.Forall₂ (fun r body => utf8Encode (edgeText r) = .ok body) g'.edgeRecords bodies')
    (heq : (g.nodeSequence.map nodeBody ++ bodies).flatMap (fun body => 0 :: body) =
      (g'.nodeSequence.map nodeBody ++ bodies').flatMap (fun body => 0 :: body)) :
    g.nodeSequence.map nodeBody = g'.nodeSequence.map nodeBody ∧ bodies = bodies' := by
  have hnodes : ∀ {g : ProvenanceGraph}, Separable g → ∀ body ∈ g.nodeSequence.map nodeBody,
      (0 : Byte) ∉ body ∧ (body.head? == some 0x6e) = true := by
    intro g hsep body hbody
    obtain ⟨node, hnode, rfl⟩ := List.mem_map.mp hbody
    obtain ⟨x, hx⟩ := mem_nodeSequence hnode
    exact ⟨nul_notMem_nodeBody (hsep.names x node hx), by rw [nodeBody_head]; rfl⟩
  have hedges : ∀ {g : ProvenanceGraph} {bodies : List Bytes}, NodesInv g → Separable g →
      List.Forall₂ (fun r body => utf8Encode (edgeText r) = .ok body) g.edgeRecords bodies →
      ∀ body ∈ bodies, (0 : Byte) ∉ body ∧ (body.head? == some 0x6e) = false := by
    intro g bodies hinv hsep hall body hbody
    obtain ⟨r, hr, hencode⟩ := (mem_mapM_ok ((mapM_ok_iff _ _ _).mpr hall) body).mp hbody
    obtain ⟨hnul, hhead⟩ := edgeBody_facts hinv hsep hr hencode
    exact ⟨hnul, by rw [hhead]; decide⟩
  have hblocks := blocks_inj (fun b hb => ?_) (fun b hb => ?_) heq
  · exact append_inj_of_split (fun b hb => (hnodes hsep b hb).2)
      (fun b hb => (hedges h hsep hall b hb).2) (fun b hb => (hnodes hsep' b hb).2)
      (fun b hb => (hedges h' hsep' hall' b hb).2) hblocks
  · rcases List.mem_append.mp hb with hb | hb
    · exact (hnodes hsep b hb).1
    · exact (hedges h hsep hall b hb).1
  · rcases List.mem_append.mp hb with hb | hb
    · exact (hnodes hsep' b hb).1
    · exact (hedges h' hsep' hall' b hb).1

theorem nodeSequence_eq (h : NodesInv g) (h' : NodesInv g') (hsep : Separable g)
    (hsep' : Separable g') (heq : g.nodeSequence.map nodeBody = g'.nodeSequence.map nodeBody) :
    g.nodeSequence = g'.nodeSequence := by
  have hmem : ∀ node ∈ g.nodeSequence, node.kind.isData = node.label.isSome ∧ Plain node.name := by
    intro node hnode
    obtain ⟨x, hx⟩ := mem_nodeSequence hnode
    exact ⟨h.labelled x node hx, (hsep.names x node hx).1⟩
  have hmem' : ∀ node ∈ g'.nodeSequence, node.kind.isData = node.label.isSome ∧ Plain node.name := by
    intro node hnode
    obtain ⟨x, hx⟩ := mem_nodeSequence hnode
    exact ⟨h'.labelled x node hx, (hsep'.names x node hx).1⟩
  generalize g.nodeSequence = nodes at heq hmem
  generalize g'.nodeSequence = nodes' at heq hmem'
  induction nodes generalizing nodes' with
  | nil =>
    cases nodes' with
    | nil => rfl
    | cons node' nodes' => cases heq
  | cons node nodes ih =>
    cases nodes' with
    | nil => cases heq
    | cons node' nodes' =>
      rw [List.map_cons, List.map_cons] at heq
      obtain ⟨hhead, htail⟩ := List.cons.inj heq
      have hn := hmem node List.mem_cons_self
      have hn' := hmem' node' List.mem_cons_self
      rw [nodeBody_inj hn.1 hn'.1 hn.2 hn'.2 hhead,
        ih (fun n hn => hmem n (List.mem_cons_of_mem _ hn)) _ htail
          (fun n hn => hmem' n (List.mem_cons_of_mem _ hn))]

theorem outRecords_subset (h : NodesInv g) (h' : NodesInv g') (hsep : Separable g)
    (hsep' : Separable g') {bodies : List Bytes}
    (hall : List.Forall₂ (fun r body => utf8Encode (edgeText r) = .ok body) g.edgeRecords bodies)
    (hall' : List.Forall₂ (fun r body => utf8Encode (edgeText r) = .ok body) g'.edgeRecords bodies)
    {e : Edge} (he : e ∈ g.outRecords) : e ∈ g'.outRecords := by
  have hmap := (mapM_ok_iff (fun r => utf8Encode (edgeText r)) _ _).mpr hall
  have hmap' := (mapM_ok_iff (fun r => utf8Encode (edgeText r)) _ _).mpr hall'
  obtain ⟨body, hbody⟩ := ok_of_mapM_ok hmap (record_of_mem h he)
  have hin := (mem_mapM_ok hmap body).mpr ⟨_, record_of_mem h he, hbody⟩
  obtain ⟨r', hr', hbody'⟩ := (mem_mapM_ok hmap' body).mp hin
  obtain ⟨e', he', rfl⟩ := edgeRecords_cases h' hr'
  have htext := utf8Encode_inj _ _ _ hbody hbody'
  obtain ⟨hsource, htarget, hkind⟩ := edgeText_inj (hsep.ids e he).1 (hsep'.ids e' he').1 htext
  have heq : e = e' := by
    obtain ⟨s, t, k⟩ := e
    obtain ⟨s', t', k'⟩ := e'
    exact Edge.mk.injEq .. ▸ ⟨hsource, htarget, hkind⟩
  exact heq ▸ he'

theorem filterMap_congr_inv {α β : Type} {f f' : α → Option β} {xs : List α}
    (hf : ∀ x ∈ xs, (f x).isSome) (hf' : ∀ x ∈ xs, (f' x).isSome)
    (h : xs.filterMap f = xs.filterMap f') : ∀ x ∈ xs, f x = f' x := by
  induction xs with
  | nil => exact fun _ hx => absurd hx List.not_mem_nil
  | cons x xs ih =>
    obtain ⟨y, hy⟩ := Option.isSome_iff_exists.mp (hf x List.mem_cons_self)
    obtain ⟨y', hy'⟩ := Option.isSome_iff_exists.mp (hf' x List.mem_cons_self)
    rw [List.filterMap_cons_some hy, List.filterMap_cons_some hy'] at h
    obtain ⟨rfl, hrest⟩ := List.cons.inj h
    intro z hz
    rcases List.mem_cons.mp hz with rfl | hz
    · rw [hy, hy']
    · exact ih (fun w hw => hf w (List.mem_cons_of_mem _ hw))
        (fun w hw => hf' w (List.mem_cons_of_mem _ hw)) hrest z hz

theorem isSome_get? (g : ProvenanceGraph) {x : Str} (hx : x ∈ sortedNames g.nodes.keys) :
    (g.nodes.get? x).isSome := by
  have hx : x ∈ g.nodes.keys := (List.mem_insertionSort _).mp hx
  rw [Option.isSome_iff_ne_none]
  exact fun h => (Dict.get?_eq_none_iff g.nodes x).mp h hx

theorem length_nodeSequence (g : ProvenanceGraph) : g.nodeSequence.length = g.nodes.keys.length := by
  have hall : ∀ xs : List Str, (∀ x ∈ xs, (g.nodes.get? x).isSome) →
      (xs.filterMap g.nodes.get?).length = xs.length := by
    intro xs hxs
    induction xs with
    | nil => rfl
    | cons x xs ih =>
      obtain ⟨node, hnode⟩ := Option.isSome_iff_exists.mp (hxs x List.mem_cons_self)
      rw [List.filterMap_cons_some hnode, List.length_cons, List.length_cons,
        ih fun y hy => hxs y (List.mem_cons_of_mem _ hy)]
  exact (hall _ fun x hx => g.isSome_get? hx).trans (List.length_insertionSort _ _)

def Connected (g : ProvenanceGraph) : Prop :=
  ∀ x ∈ g.nodes.keys, ∃ e ∈ g.outRecords, e.source = x ∨ e.target = x

theorem nodes_eq_of_connected (h' : NodesInv g') (hseq : g.nodeSequence = g'.nodeSequence)
    (hedges : ∀ e ∈ g.outRecords, e ∈ g'.outRecords) (hconn : g.Connected) (x : Str) :
    g.nodes.get? x = g'.nodes.get? x := by
  have hsub : g.nodes.keys ⊆ g'.nodes.keys := by
    intro y hy
    obtain ⟨e, he, hend⟩ := hconn y hy
    obtain ⟨z, hz⟩ := (mem_records g'.outEdges e).mp (hedges e he)
    obtain ⟨hs, ht⟩ := h'.endpoints z e hz
    rcases hend with rfl | rfl
    · exact hs
    · exact ht
  have hlen : g'.nodes.keys.length ≤ g.nodes.keys.length := by
    rw [← length_nodeSequence g, ← length_nodeSequence g', hseq]
  have hperm : g.nodes.keys.Perm g'.nodes.keys :=
    (List.Nodup.subperm g.nodes.nodup hsub).perm_of_length_le hlen
  have hsorted := sortedNames_eq_of_perm hperm
  by_cases hx : x ∈ g.nodes.keys
  · have hx : x ∈ sortedNames g.nodes.keys := (List.mem_insertionSort _).mpr hx
    unfold nodeSequence at hseq
    rw [← hsorted] at hseq
    exact filterMap_congr_inv (fun y hy => g.isSome_get? hy)
      (fun y hy => g'.isSome_get? (hsorted ▸ hy)) hseq x hx
  · rw [(Dict.get?_eq_none_iff g.nodes x).mpr hx,
      (Dict.get?_eq_none_iff g'.nodes x).mpr fun hx' => hx (hperm.mem_iff.mpr hx')]

/-- Two graphs with one fingerprint have the same nodes in the order of their
ids and the same edges, and the same node under every id where each one is an
end of an edge. -/
theorem fingerprint_binds (ops ops' : List GraphOp) (hsep : Separable (empty.run ops))
    (hsep' : Separable (empty.run ops')) (fp : Str) (hfp : (empty.run ops).fingerprint = .ok fp)
    (hfp' : (empty.run ops').fingerprint = .ok fp)
    (hinj : Set.InjOn sha256 {x | (empty.run ops).fingerprintInput = .ok x ∨
      (empty.run ops').fingerprintInput = .ok x}) :
    (empty.run ops).nodeSequence = (empty.run ops').nodeSequence ∧
      (∀ e, e ∈ (empty.run ops).outRecords ↔ e ∈ (empty.run ops').outRecords) ∧
      ((empty.run ops).Connected →
        ∀ x, (empty.run ops).nodes.get? x = (empty.run ops').nodes.get? x) := by
  have h := nodesInv_empty.run ops
  have h' := nodesInv_empty.run ops'
  generalize empty.run ops = g at *
  generalize empty.run ops' = g' at *
  obtain ⟨b, hb, hhex⟩ := bind_ok hfp
  obtain ⟨b', hb', hhex'⟩ := bind_ok hfp'
  have hdigest : sha256 b = sha256 b' := by
    have hbytes := hex_inj _ _ ((Except.ok.inj hhex).trans (Except.ok.inj hhex').symm)
    exact Digest.ext_bytes _ _ hbytes
  have hbytes : b = b' := hinj (.inl hb) (.inr hb') hdigest
  subst hbytes
  obtain ⟨bodies, hall, hblocks⟩ := fingerprintInput_blocks hb
  obtain ⟨bodies', hall', hblocks'⟩ := fingerprintInput_blocks hb'
  obtain ⟨hnodes, rfl⟩ := bodies_eq h h' hsep hsep' hall hall' (hblocks.symm.trans hblocks')
  have hseq := nodeSequence_eq h h' hsep hsep' hnodes
  have hto : ∀ e ∈ g.outRecords, e ∈ g'.outRecords := fun e he =>
    outRecords_subset h h' hsep hsep' hall hall' he
  have hfrom : ∀ e ∈ g'.outRecords, e ∈ g.outRecords := fun e he =>
    outRecords_subset h' h hsep' hsep hall' hall he
  exact ⟨hseq, fun e => ⟨hto e, hfrom e⟩, fun hconn x => nodes_eq_of_connected h' hseq hto hconn x⟩

/-- The secret and the call, in the other order. -/
def secretFlowCallFirst : List GraphOp :=
  [.addCall (txt "send") (some (txt "c")) [] true, .addData (txt "payroll") secretLabel (some (txt "d")) [],
    .addEdge (txt "d") (txt "c") .inputTo]

theorem separable_of_lists {nodes : List (Str × Node)} {edges : List Edge}
    (hnodes : g.nodes.items = nodes) (hedges : g.outRecords = edges)
    (hnames : ∀ entry ∈ nodes, Plain entry.2.name ∧ (0 : CodePoint) ∉ entry.2.name)
    (hids : ∀ e ∈ edges, ¬ [cp '-', cp '>'] <:+: e.source ∧ (0 : CodePoint) ∉ e.source ∧
      (0 : CodePoint) ∉ e.target) : Separable g :=
  ⟨fun x node hx => hnames (x, node) (hnodes ▸ (Dict.get?_eq_some_iff g.nodes x node).mp hx),
    fun e he => hids e (hedges ▸ he)⟩

theorem fingerprint_binds_secretFlow :
    (empty.run secretFlow).Connected ∧ ∀ x,
      (empty.run secretFlow).nodes.get? x = (empty.run secretFlowCallFirst).nodes.get? x := by
  have hconn : (empty.run secretFlow).Connected := by
    unfold Connected
    decide
  have hinput : (empty.run secretFlow).fingerprintInput = (empty.run secretFlowCallFirst).fingerprintInput := by
    decide
  have hfp : (empty.run secretFlow).fingerprint = (empty.run secretFlowCallFirst).fingerprint := by
    unfold fingerprint
    rw [hinput]
  obtain ⟨fp, hok⟩ : ∃ fp, (empty.run secretFlow).fingerprint = .ok fp :=
    ((graphInv_empty.run (graphInv_empty.safeRun_of_freshRun secretFlow_fresh)).1.fingerprint_ok
      (by decide)).imp fun _ h => h.1
  refine ⟨hconn, (fingerprint_binds secretFlow secretFlowCallFirst
    (separable_of_lists rfl rfl (by decide) (by decide))
    (separable_of_lists rfl rfl (by decide) (by decide)) fp hok (hfp ▸ hok) ?_).2.2 hconn⟩
  intro b hb b' hb' _
  have hone : ∀ b, (empty.run secretFlow).fingerprintInput = .ok b ∨
      (empty.run secretFlowCallFirst).fingerprintInput = .ok b →
      (empty.run secretFlow).fingerprintInput = .ok b := fun b hb => hb.elim id fun hb => hinput.trans hb
  exact Except.ok.inj ((hone b hb).symm.trans (hone b' hb'))

def payrollUnder (id : String) : List GraphOp :=
  [.addData (txt "payroll") secretLabel (some (txt id)) []]

/-- The id of a node without edges is not hashed. -/
theorem renamed_node_same_fingerprint :
    (empty.run (payrollUnder "a")).fingerprintInput = (empty.run (payrollUnder "b")).fingerprintInput ∧
      (empty.run (payrollUnder "a")).fingerprint = (empty.run (payrollUnder "b")).fingerprint ∧
      (empty.run (payrollUnder "a")).fingerprint.isOk = true ∧
      (empty.run (payrollUnder "a")).nodes.keys = [txt "a"] ∧
      (empty.run (payrollUnder "b")).nodes.keys = [txt "b"] := by
  decide

end ProvenanceGraph

end TexGovernance.Ifc
