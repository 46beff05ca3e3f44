import TexGovernance.Interchange.WitnessRuns
import Mathlib.Data.Finset.Card

/-!
# A quorum of cosignatures does not equivocate

A schedule delivers `add_checkpoint` calls to honest witnesses in any interleaving. What one
witness signed for one origin and size has one root, and two quorums of one roster share an
honest witness.
-/

namespace TexGovernance.Interchange
open PyStr PyBytes PyCodec Sha256 TexGovernance.Ecosystem

theorem exists_common_not_faulty {α : Type} [DecidableEq α] (U A B F : Finset α) (hA : A ⊆ U)
    (hB : B ⊆ U) (h : U.card + F.card < A.card + B.card) : ∃ x, x ∈ A ∧ x ∈ B ∧ x ∉ F := by
  have hunion : (A ∪ B).card ≤ U.card := Finset.card_le_card (Finset.union_subset hA hB)
  have hsum := Finset.card_union_add_card_inter A B
  have hlt : F.card < (A ∩ B).card := by omega
  obtain ⟨x, hx, hxF⟩ := Finset.exists_mem_notMem_of_card_lt_card hlt
  exact ⟨x, (Finset.mem_inter.mp hx).1, (Finset.mem_inter.mp hx).2, hxF⟩

theorem newline_of_utf8Encode (s : Str) (b : Bytes) (h : utf8Encode s = .ok b)
    (hmem : (0x0a : Byte) ∈ b) : newline ∈ s := by
  obtain ⟨c, hc, hval⟩ := ascii_of_utf8Encode (by decide : 0x0a < 0x80) h hmem
  have hnewline : c = newline := Fin.ext hval
  exact hnewline ▸ hc

theorem cosignatureMessage_parts (t : ℕ) (note : Str) (message : Bytes)
    (h : cosignatureMessage t note = .ok message) :
    ∃ digits noteBytes, (0x0a : Byte) ∉ digits ∧ utf8Encode note = .ok noteBytes ∧
      message = cosigHeader ++ timeText ++ (digits ++ 0x0a :: noteBytes) := by
  unfold cosignatureMessage at h
  cases hd : decimalText t with
  | error e =>
    rw [hd] at h
    cases h
  | ok digits =>
    cases hb : utf8Encode digits with
    | error e =>
      rw [hd] at h
      simp only [bind, Except.bind, hb] at h
      cases h
    | ok digitBytes =>
      cases hn : utf8Encode note with
      | error e =>
        rw [hd] at h
        simp only [bind, Except.bind, hb, hn] at h
        cases h
      | ok noteBytes =>
        rw [hd] at h
        simp only [bind, Except.bind, hb, hn] at h
        refine ⟨digitBytes, noteBytes, ?_, rfl, ?_⟩
        · intro hmem
          exact newline_not_mem_decimalText t digits hd (newline_of_utf8Encode digits _ hb hmem)
        · rw [← Except.ok.inj h]
          simp

theorem after_first_eq {α : Type} (a : α) (xs xs' ys ys' : List α) (h : a ∉ xs) (h' : a ∉ xs')
    (heq : xs ++ a :: ys = xs' ++ a :: ys') : ys = ys' := by
  induction xs generalizing xs' with
  | nil =>
    cases xs' with
    | nil => exact (List.cons.inj heq).2
    | cons x xs' =>
      have hx : a = x := (List.cons.inj heq).1
      exact absurd (by rw [hx]; exact List.mem_cons_self) h'
  | cons x xs ih =>
    cases xs' with
    | nil =>
      have hx : x = a := (List.cons.inj heq).1
      exact absurd (by rw [hx]; exact List.mem_cons_self) h
    | cons x' xs' =>
      exact ih xs' (fun hm => h (List.mem_cons_of_mem _ hm))
        (fun hm => h' (List.mem_cons_of_mem _ hm)) (List.cons.inj heq).2

theorem cosignatureMessage_inj (t u : ℕ) (note note' : Str) (message : Bytes)
    (h : cosignatureMessage t note = .ok message) (h' : cosignatureMessage u note' = .ok message) :
    note = note' := by
  obtain ⟨digits, noteBytes, hd, hn, hm⟩ := cosignatureMessage_parts t note message h
  obtain ⟨digits', noteBytes', hd', hn', hm'⟩ := cosignatureMessage_parts u note' message h'
  have hcancel := List.append_cancel_left (hm.symm.trans hm')
  have hbytes := after_first_eq 0x0a digits digits' noteBytes noteBytes' hd hd' hcancel
  rw [← hbytes] at hn'
  exact utf8Encode_inj note note' noteBytes hn hn'

section System

variable (ed25519Verify : Bytes → Bytes → Bytes → Bool)

structure NodeState where
  latest : Latest
  signed : List (ℕ × Str)

def NodeState.init : NodeState := ⟨noLatest, []⟩

/-- What a call makes the witness sign, whether or not `_cosign` then raises. -/
def callSigns (w : Witness) (latest : Latest) (c : Call) : List (ℕ × Str) :=
  match receive ed25519Verify w c.body with
  | .ok (.ok s) =>
    match checkLatest (latest s.checkpoint.origin) s with
    | .ok none =>
      match cosignatureMessage (max 1 c.clock).toNat s.noteText with
      | .ok _ => [((max 1 c.clock).toNat, s.noteText)]
      | .error _ => []
    | _ => []
  | _ => []

def deliver (w : Witness) (st : NodeState) (c : Call) : NodeState :=
  ⟨(addCheckpoint ed25519Verify w st.latest c.clock c.body).1,
    st.signed ++ callSigns ed25519Verify w st.latest c⟩

def systemAfter (ws : List Witness) : (ℕ → NodeState) → List (ℕ × Call) → ℕ → NodeState
  | st, [] => st
  | st, (i, c) :: schedule =>
    systemAfter ws (match ws[i]? with
      | some w => fun j => if j = i then deliver ed25519Verify w (st i) c else st j
      | none => st) schedule

structure NodeInv (st : NodeState) : Prop where
  recorded : ∀ n ∈ st.signed, ∃ cp e, Checkpoint.parse n.2 = .ok cp ∧
    st.latest cp.origin = some e ∧ Extends Set.univ (cp.treeSize, cp.rootHash) e
  agree : ∀ n1 ∈ st.signed, ∀ n2 ∈ st.signed, ∀ cp1 cp2, Checkpoint.parse n1.2 = .ok cp1 →
    Checkpoint.parse n2.2 = .ok cp2 → cp1.origin = cp2.origin → cp1.treeSize = cp2.treeSize →
    cp1.rootHash = cp2.rootHash

omit ed25519Verify in
theorem NodeInv.init : NodeInv NodeState.init := by
  constructor
  · intro n hn
    cases hn
  · intro n1 hn1
    cases hn1

omit ed25519Verify in
theorem bodyNote_parse (body note : Str) (cp : Checkpoint) (h : bodyNote body = some (note, cp)) :
    Checkpoint.parse note = .ok cp := by
  unfold bodyNote at h
  split at h
  · split at h
    · next text _ _ =>
      cases hp : Checkpoint.parse text with
      | error e =>
        rw [hp] at h
        cases h
      | ok c =>
        rw [hp] at h
        obtain ⟨h1, h2⟩ := Prod.mk.inj (Option.some.inj h)
        rw [← h1, ← h2, hp]
    · cases h
  · cases h

theorem callSigns_admitted (w : Witness) (latest : Latest) (c : Call) (n : ℕ × Str)
    (hn : n ∈ callSigns ed25519Verify w latest c) :
    ∃ s, receive ed25519Verify w c.body = .ok (.ok s) ∧
      checkLatest (latest s.checkpoint.origin) s = .ok none ∧ n.2 = s.noteText ∧
      Checkpoint.parse n.2 = .ok s.checkpoint ∧
      (addCheckpoint ed25519Verify w latest c.clock c.body).1 = record latest s.checkpoint := by
  unfold callSigns at hn
  cases hrec : receive ed25519Verify w c.body with
  | error e =>
    rw [hrec] at hn
    cases hn
  | ok res =>
    cases res with
    | error r =>
      rw [hrec] at hn
      cases hn
    | ok s =>
      rw [hrec] at hn
      simp only at hn
      split at hn
      · next hadm =>
        split at hn
        · have hparse := bodyNote_parse c.body _ _ (receive_note ed25519Verify w c.body s hrec)
          rw [List.mem_singleton.mp hn]
          refine ⟨s, rfl, hadm, rfl, hparse, ?_⟩
          unfold addCheckpoint
          rw [hrec]
          simp only [hadm]
        · cases hn
      · cases hn

theorem NodeInv.deliver (w : Witness) (st : NodeState) (c : Call) (h : NodeInv st) :
    NodeInv (deliver ed25519Verify w st c) := by
  have hold : ∀ n ∈ st.signed, ∀ s, checkLatest (st.latest s.checkpoint.origin) s = .ok none →
      ∀ cp, Checkpoint.parse n.2 = .ok cp → cp.origin = s.checkpoint.origin →
      Extends Set.univ (cp.treeSize, cp.rootHash)
        (s.checkpoint.treeSize, s.checkpoint.rootHash) := by
    intro n hn s hadm cp hcp horigin
    obtain ⟨cp', e, hcp', he, hext⟩ := h.recorded n hn
    rw [hcp] at hcp'
    rw [← Except.ok.inj hcp'] at he hext
    rw [← horigin, he] at hadm
    exact Extends.trans _ _ e _ hext
      (checkLatest_extends Set.univ e.1 e.2 s hadm fun _ _ x _ => Set.mem_univ x)
  constructor
  · intro n hn
    rcases List.mem_append.mp hn with hn | hn
    · obtain ⟨cp, e, hcp, he, hext⟩ := h.recorded n hn
      obtain ⟨e', he', hext'⟩ := addCheckpoint_extends ed25519Verify w Set.univ st.latest c
        (fun x _ => Set.mem_univ x) cp.origin e he
      exact ⟨cp, e', hcp, he', Extends.trans _ _ _ _ hext hext'⟩
    · obtain ⟨s, -, -, -, hparse, hnew⟩ := callSigns_admitted ed25519Verify w st.latest c n hn
      refine ⟨s.checkpoint, _, hparse, ?_, Extends.refl _ _⟩
      unfold Interchange.deliver
      simp only [hnew, record, if_true]
  · intro n1 hn1 n2 hn2 cp1 cp2 hp1 hp2 horigin hsize
    rcases List.mem_append.mp hn1 with hn1 | hn1
    · rcases List.mem_append.mp hn2 with hn2 | hn2
      · exact h.agree n1 hn1 n2 hn2 cp1 cp2 hp1 hp2 horigin hsize
      · obtain ⟨s, -, hadm, -, hparse, -⟩ := callSigns_admitted ed25519Verify w st.latest c n2 hn2
        rw [hp2] at hparse
        have hcp := Except.ok.inj hparse
        rw [hcp] at horigin hsize ⊢
        exact (hold n1 hn1 s hadm cp1 hp1 horigin).same_root hsize
    · obtain ⟨s, hrec, hadm, -, hparse, -⟩ := callSigns_admitted ed25519Verify w st.latest c n1 hn1
      rw [hp1] at hparse
      have hcp := Except.ok.inj hparse
      rcases List.mem_append.mp hn2 with hn2 | hn2
      · rw [hcp] at horigin hsize ⊢
        exact ((hold n2 hn2 s hadm cp2 hp2 horigin.symm).same_root hsize.symm).symm
      · obtain ⟨s', hrec', -, -, hparse', -⟩ := callSigns_admitted ed25519Verify w st.latest c n2 hn2
        rw [hrec] at hrec'
        rw [hp2, ← Except.ok.inj (Except.ok.inj hrec')] at hparse'
        rw [hcp, Except.ok.inj hparse']

theorem systemAfter_inv (ws : List Witness) (schedule : List (ℕ × Call)) (st : ℕ → NodeState)
    (h : ∀ i, NodeInv (st i)) (i : ℕ) : NodeInv (systemAfter ed25519Verify ws st schedule i) := by
  induction schedule generalizing st with
  | nil => exact h i
  | cons d schedule ih =>
    obtain ⟨k, c⟩ := d
    refine ih _ ?_
    intro j
    cases hk : ws[k]? with
    | none => exact h j
    | some w =>
      by_cases hj : j = k
      · simp only [hj, if_true]
        exact NodeInv.deliver ed25519Verify w (st k) c (h k)
      · simp only [hj, if_false]
        exact h j

theorem verifyCosignatureLine_inv (line note : Str) (d : WitnessDescriptor)
    (h : verifyCosignatureLine ed25519Verify line note d = .ok true) :
    ∃ c message, parseCosignatureLine line = some c ∧
      cosignatureMessage c.timestamp note = .ok message ∧
      ed25519Verify d.publicKeyRaw message c.signature = true := by
  unfold verifyCosignatureLine at h
  cases hc : parseCosignatureLine line with
  | none =>
    rw [hc] at h
    cases h
  | some c =>
    rw [hc] at h
    simp only at h
    by_cases hname : c.name ≠ d.name
    · rw [if_pos hname] at h
      cases h
    · rw [if_neg hname] at h
      cases hk : d.keyId with
      | error e =>
        rw [hk] at h
        cases h
      | ok keyId =>
        rw [hk] at h
        simp only at h
        by_cases hid : c.keyId ≠ keyId
        · rw [if_pos hid] at h
          cases h
        · rw [if_neg hid] at h
          by_cases htime : c.timestamp = 0
          · rw [if_pos htime] at h
            cases h
          · rw [if_neg htime] at h
            cases hm : cosignatureMessage c.timestamp note with
            | error e =>
              rw [hm] at h
              cases h
            | ok message =>
              rw [hm] at h
              exact ⟨c, message, rfl, hm, Except.ok.inj h⟩

theorem firstCosigner_some (line note : Str) (valid : List Str)
    (dict : List (Str × WitnessDescriptor)) (name : Str)
    (h : firstCosigner ed25519Verify line note valid dict = .ok (some name)) :
    name ∉ valid ∧ ∃ d, (name, d) ∈ dict ∧
      verifyCosignatureLine ed25519Verify line note d = .ok true := by
  induction dict with
  | nil => cases h
  | cons e dict ih =>
    obtain ⟨n, d⟩ := e
    unfold firstCosigner at h
    by_cases hv : n ∈ valid
    · rw [if_pos hv] at h
      obtain ⟨hname, d', hd', hver⟩ := ih h
      exact ⟨hname, d', List.mem_cons_of_mem _ hd', hver⟩
    · rw [if_neg hv] at h
      cases hver : verifyCosignatureLine ed25519Verify line note d with
      | error e =>
        rw [hver] at h
        cases h
      | ok b =>
        rw [hver] at h
        cases b with
        | true =>
          have hn : n = name := Option.some.inj (Except.ok.inj h)
          rw [← hn]
          exact ⟨hv, d, List.mem_cons_self, hver⟩
        | false =>
          obtain ⟨hname, d', hd', hver'⟩ := ih h
          exact ⟨hname, d', List.mem_cons_of_mem _ hd', hver'⟩

theorem validCosigners_spec (note : Str) (dict : List (Str × WitnessDescriptor))
    (valid lines out : List Str) (hnodup : valid.Nodup)
    (h : validCosigners ed25519Verify note dict valid lines = .ok out) :
    out.Nodup ∧ ∀ name ∈ out, name ∈ valid ∨ ∃ d line, (name, d) ∈ dict ∧ line ∈ lines ∧
      verifyCosignatureLine ed25519Verify line note d = .ok true := by
  induction lines generalizing valid with
  | nil =>
    unfold validCosigners at h
    rw [← Except.ok.inj h]
    exact ⟨hnodup, fun name hname => Or.inl hname⟩
  | cons line lines ih =>
    unfold validCosigners at h
    cases hf : firstCosigner ed25519Verify line note valid dict with
    | error e =>
      rw [hf] at h
      cases h
    | ok res =>
      rw [hf] at h
      cases res with
      | none =>
        obtain ⟨hout, hev⟩ := ih valid hnodup h
        refine ⟨hout, fun name hname => ?_⟩
        rcases hev name hname with hv | ⟨d, l, hd, hl, hver⟩
        · exact Or.inl hv
        · exact Or.inr ⟨d, l, hd, List.mem_cons_of_mem _ hl, hver⟩
      | some new =>
        obtain ⟨hnew, d, hd, hver⟩ := firstCosigner_some ed25519Verify line note valid dict new hf
        have hnodup' : (valid ++ [new]).Nodup := by
          rw [List.nodup_append]
          refine ⟨hnodup, List.nodup_singleton new, ?_⟩
          intro a ha b hb hab
          rw [List.mem_singleton.mp hb] at hab
          exact hnew (hab ▸ ha)
        obtain ⟨hout, hev⟩ := ih (valid ++ [new]) hnodup' h
        refine ⟨hout, fun name hname => ?_⟩
        rcases hev name hname with hv | ⟨d', l, hd', hl, hver'⟩
        · rcases List.mem_append.mp hv with hv | hv
          · exact Or.inl hv
          · rw [List.mem_singleton.mp hv]
            exact Or.inr ⟨d, line, hd, List.mem_cons_self, hver⟩
        · exact Or.inr ⟨d', l, hd', List.mem_cons_of_mem _ hl, hver'⟩

omit ed25519Verify in
theorem byName_of_nodup (roster : List WitnessDescriptor)
    (h : (roster.map WitnessDescriptor.name).Nodup) :
    byName roster = roster.map fun d => (d.name, d) := by
  have key : ∀ (roster : List WitnessDescriptor) (acc : List (Str × WitnessDescriptor)),
      (roster.map WitnessDescriptor.name).Nodup →
      (∀ d ∈ roster, ∀ e ∈ acc, e.1 ≠ d.name) →
      roster.foldl (fun dict d =>
        if dict.any fun e => e.1 = d.name then
          dict.map fun e => if e.1 = d.name then (d.name, d) else e
        else dict ++ [(d.name, d)]) acc = acc ++ roster.map fun d => (d.name, d) := by
    intro roster
    induction roster with
    | nil =>
      intro acc _ _
      simp
    | cons d roster ih =>
      intro acc hnodup hacc
      rw [List.map_cons, List.nodup_cons] at hnodup
      have hnot : (acc.any fun e => e.1 = d.name) = false := by
        rw [List.any_eq_false]
        intro e he
        simpa using hacc d List.mem_cons_self e he
      rw [List.foldl_cons, hnot]
      simp only [Bool.false_eq_true, if_false]
      rw [ih _ hnodup.2, List.map_cons, List.append_assoc, List.singleton_append]
      intro d' hd' e he
      rcases List.mem_append.mp he with he | he
      · exact hacc d' (List.mem_cons_of_mem _ hd') e he
      · rw [List.mem_singleton.mp he]
        intro heq
        simp only at heq
        rw [heq] at hnodup
        exact hnodup.1 (List.mem_map_of_mem hd')
  exact key roster [] h fun d _ e he => by cases he

theorem quorum_evidence (X : CosignedCheckpoint) (logVerifier : NoteVerifier)
    (roster : List WitnessDescriptor) (q : ℤ) (v : CheckpointVerification) (cp : Checkpoint)
    (hnames : (roster.map WitnessDescriptor.name).Nodup)
    (hv : verifyCosignedCheckpoint ed25519Verify X logVerifier roster q = .ok v)
    (hq : v.quorumMet = true) (hcp : v.checkpoint = some cp) :
    ∃ note sigs, splitSignedNote X.signedNote = .ok (note, sigs) ∧
      Checkpoint.parse note = .ok cp ∧ ∃ names : List Str, names.Nodup ∧ q ≤ names.length ∧
      ∀ name ∈ names, ∃ d ∈ roster, d.name = name ∧ ∃ line ∈ X.cosignatureLines,
        verifyCosignatureLine ed25519Verify line note d = .ok true := by
  unfold verifyCosignedCheckpoint at hv
  split_ifs at hv with h1
  cases hsplit : splitSignedNote X.signedNote with
  | error e =>
    rw [hsplit] at hv
    rw [← Except.ok.inj hv] at hq
    cases hq
  | ok note =>
    rw [hsplit] at hv
    simp only at hv
    cases hparse : Checkpoint.parse note.1 with
    | error e =>
      rw [hparse] at hv
      rw [← Except.ok.inj hv] at hq
      cases hq
    | ok checkpoint =>
      rw [hparse] at hv
      simp only at hv
      split at hv
      · cases hv
      · rw [← Except.ok.inj hv] at hq
        cases hq
      · cases hval : validCosigners ed25519Verify note.1 (byName roster) [] X.cosignatureLines with
        | error e =>
          rw [hval] at hv
          cases hv
        | ok valid =>
          rw [hval] at hv
          simp only at hv
          rw [← Except.ok.inj hv] at hq hcp
          obtain ⟨hnodup, hev⟩ := validCosigners_spec ed25519Verify note.1 (byName roster) []
            X.cosignatureLines valid List.nodup_nil hval
          refine ⟨note.1, note.2, rfl, by rw [← Option.some.inj hcp, hparse], valid, hnodup,
            of_decide_eq_true hq, fun name hname => ?_⟩
          rcases hev name hname with hnil | ⟨d, line, hd, hline, hver⟩
          · cases hnil
          · rw [byName_of_nodup roster hnames, List.mem_map] at hd
            obtain ⟨d', hd', heq⟩ := hd
            obtain ⟨hn, hdd⟩ := Prod.mk.inj heq
            exact ⟨d, hdd ▸ hd', hdd ▸ hn, line, hline, hver⟩

def presented (X : CosignedCheckpoint) : List (Bytes × Bytes) :=
  match splitSignedNote X.signedNote with
  | .error _ => []
  | .ok (note, _) =>
    X.cosignatureLines.filterMap fun line =>
      (parseCosignatureLine line).bind fun c =>
        (cosignatureMessage c.timestamp note).toOption.map fun m => (m, c.signature)

def Unforged (ws : List Witness) (st : ℕ → NodeState) (pairs : List (Bytes × Bytes)) : Prop :=
  ∀ p ∈ pairs, ∀ i w, ws[i]? = some w → ed25519Verify w.publicRaw p.1 p.2 = true →
    ∃ n ∈ (st i).signed, cosignatureMessage n.1 n.2 = .ok p.1

theorem honest_signed (ws : List Witness) (st : ℕ → NodeState) (X : CosignedCheckpoint)
    (pairs : List (Bytes × Bytes)) (hsub : ∀ p ∈ presented X, p ∈ pairs)
    (hunf : Unforged ed25519Verify ws st pairs) (note : Str) (sigs : List Str)
    (hsplit : splitSignedNote X.signedNote = .ok (note, sigs)) (i : ℕ) (w : Witness)
    (hw : ws[i]? = some w) (line : Str) (hline : line ∈ X.cosignatureLines)
    (hver : verifyCosignatureLine ed25519Verify line note w.descriptor = .ok true) :
    ∃ n ∈ (st i).signed, n.2 = note := by
  obtain ⟨c, message, hc, hm, hsig⟩ := verifyCosignatureLine_inv ed25519Verify line note _ hver
  have hmem : (message, c.signature) ∈ presented X := by
    unfold presented
    rw [hsplit]
    refine List.mem_filterMap.mpr ⟨line, hline, ?_⟩
    rw [hc, Option.bind_some, hm]
    rfl
  obtain ⟨n, hn, hnm⟩ := hunf _ (hsub _ hmem) i w hw hsig
  exact ⟨n, hn, cosignatureMessage_inj n.1 c.timestamp n.2 note message hnm hm⟩

theorem quorum_non_equivocation (ws : List Witness) (schedule : List (ℕ × Call))
    (roster : List WitnessDescriptor) (f : ℕ) (q : ℤ) (logVerifier : NoteVerifier)
    (A B : CosignedCheckpoint) (vA vB : CheckpointVerification) (cpA cpB : Checkpoint)
    (hnames : (roster.map WitnessDescriptor.name).Nodup)
    (hfaulty : (roster.filter fun d => d ∉ ws.map Witness.descriptor).length ≤ f)
    (hq : (roster.length : ℤ) + f < 2 * q)
    (hunf : Unforged ed25519Verify ws
      (systemAfter ed25519Verify ws (fun _ => NodeState.init) schedule)
      (presented A ++ presented B))
    (hA : verifyCosignedCheckpoint ed25519Verify A logVerifier roster q = .ok vA)
    (hB : verifyCosignedCheckpoint ed25519Verify B logVerifier roster q = .ok vB)
    (hqA : vA.quorumMet = true) (hqB : vB.quorumMet = true)
    (hcA : vA.checkpoint = some cpA) (hcB : vB.checkpoint = some cpB)
    (horigin : cpA.origin = cpB.origin) (hsize : cpA.treeSize = cpB.treeSize) :
    cpA.rootHash = cpB.rootHash := by
  obtain ⟨noteA, sigsA, hsplitA, hparseA, namesA, hnodupA, hlenA, hevA⟩ :=
    quorum_evidence ed25519Verify A logVerifier roster q vA cpA hnames hA hqA hcA
  obtain ⟨noteB, sigsB, hsplitB, hparseB, namesB, hnodupB, hlenB, hevB⟩ :=
    quorum_evidence ed25519Verify B logVerifier roster q vB cpB hnames hB hqB hcB
  -- the two quorums share a name that an honest witness runs under
  have hsubset : ∀ names : List Str, (∀ name ∈ names, ∃ d ∈ roster, d.name = name) →
      names.toFinset ⊆ (roster.map WitnessDescriptor.name).toFinset := by
    intro names hall name hname
    obtain ⟨d, hd, hdn⟩ := hall name (List.mem_toFinset.mp hname)
    exact List.mem_toFinset.mpr (List.mem_map.mpr ⟨d, hd, hdn⟩)
  have hcardU : (roster.map WitnessDescriptor.name).toFinset.card = roster.length := by
    rw [List.toFinset_card_of_nodup hnames, List.length_map]
  have hcardF : ((roster.filter fun d => d ∉ ws.map Witness.descriptor).map
      WitnessDescriptor.name).toFinset.card ≤ f := by
    refine (List.toFinset_card_le _).trans ?_
    rw [List.length_map]
    exact hfaulty
  have hcardA := List.toFinset_card_of_nodup hnodupA
  have hcardB := List.toFinset_card_of_nodup hnodupB
  obtain ⟨name, hnA, hnB, hnF⟩ := exists_common_not_faulty _ namesA.toFinset namesB.toFinset
    ((roster.filter fun d => d ∉ ws.map Witness.descriptor).map WitnessDescriptor.name).toFinset
    (hsubset namesA fun name hn => let ⟨d, hd, hdn, _⟩ := hevA name hn; ⟨d, hd, hdn⟩)
    (hsubset namesB fun name hn => let ⟨d, hd, hdn, _⟩ := hevB name hn; ⟨d, hd, hdn⟩)
    (by
      have hsum : (roster.length : ℤ) + f < namesA.length + namesB.length := by omega
      rw [hcardU, hcardA, hcardB]
      omega)
  obtain ⟨d, hd, hdn, lineA, hlineA, hverA⟩ := hevA name (List.mem_toFinset.mp hnA)
  obtain ⟨d', hd', hdn', lineB, hlineB, hverB⟩ := hevB name (List.mem_toFinset.mp hnB)
  have hdd : d' = d := List.inj_on_of_nodup_map hnames hd' hd (hdn'.trans hdn.symm)
  rw [hdd] at hverB
  have hhonest : d ∈ ws.map Witness.descriptor := by
    by_contra hnot
    refine hnF (List.mem_toFinset.mpr (List.mem_map.mpr ⟨d, List.mem_filter.mpr ⟨hd, ?_⟩, hdn⟩))
    exact decide_eq_true hnot
  obtain ⟨w, hw, hwd⟩ := List.mem_map.mp hhonest
  obtain ⟨i, hi⟩ := List.mem_iff_getElem?.mp hw
  rw [← hwd] at hverA hverB
  obtain ⟨nA, hnsA, hnoteA⟩ := honest_signed ed25519Verify ws _ A _
    (fun p hp => List.mem_append_left _ hp) hunf noteA sigsA hsplitA i w hi lineA hlineA hverA
  obtain ⟨nB, hnsB, hnoteB⟩ := honest_signed ed25519Verify ws _ B _
    (fun p hp => List.mem_append_right _ hp) hunf noteB sigsB hsplitB i w hi lineB hlineB hverB
  have hinv := systemAfter_inv ed25519Verify ws schedule (fun _ => NodeState.init)
    (fun _ => NodeInv.init) i
  exact hinv.agree nA hnsA nB hnsB cpA cpB (by rw [hnoteA]; exact hparseA)
    (by rw [hnoteB]; exact hparseB) horigin hsize

end System

def repeatCall : Call := sampleCall 2 1 [] firstNote

def sampleSchedule : List (ℕ × Call) := [(0, firstCall), (0, repeatCall)]

def sampleCosigned (clock : ℤ) : CosignedCheckpoint :=
  ⟨(sampleSigner.signNote firstNote).toOption.getD [],
    (cosign sampleWitness clock firstNote).toOption.toList⟩

def sampleVerification : CheckpointVerification :=
  ⟨some firstCheckpoint, true, [lit ['w']], 1, true, false⟩

theorem sample_checked :
    (∀ p ∈ presented (sampleCosigned 1) ++ presented (sampleCosigned 2),
      ∃ n ∈ (systemAfter sampleVerify [sampleWitness] (fun _ => NodeState.init)
        sampleSchedule 0).signed, cosignatureMessage n.1 n.2 = .ok p.1) ∧
    (∀ clock ∈ [(1 : ℤ), 2], verifyCosignedCheckpoint sampleVerify (sampleCosigned clock)
      ⟨lit ['l', 'o', 'g'], logKey, by decide⟩ [sampleWitness.descriptor] 1 =
      .ok sampleVerification) ∧
    sampleCosigned 1 ≠ sampleCosigned 2 := by
  decide

theorem sample_unforged : Unforged sampleVerify [sampleWitness]
    (systemAfter sampleVerify [sampleWitness] (fun _ => NodeState.init) sampleSchedule)
    (presented (sampleCosigned 1) ++ presented (sampleCosigned 2)) := by
  intro p hp i w hw _
  have hi : i = 0 := by
    have hlt := (List.getElem?_eq_some_iff.mp hw).1
    simp only [List.length_singleton] at hlt
    omega
  rw [hi]
  exact sample_checked.1 p hp

theorem quorum_non_equivocation_sample :
    sampleCosigned 1 ≠ sampleCosigned 2 ∧ firstCheckpoint.rootHash = firstCheckpoint.rootHash :=
  ⟨sample_checked.2.2,
    quorum_non_equivocation sampleVerify [sampleWitness] sampleSchedule [sampleWitness.descriptor] 0
      1 ⟨lit ['l', 'o', 'g'], logKey, by decide⟩ (sampleCosigned 1) (sampleCosigned 2)
      sampleVerification sampleVerification firstCheckpoint firstCheckpoint (by decide)
      (by decide) (by decide) sample_unforged (sample_checked.2.1 1 (by simp))
      (sample_checked.2.1 2 (by simp)) rfl rfl rfl rfl rfl rfl⟩

end TexGovernance.Interchange
