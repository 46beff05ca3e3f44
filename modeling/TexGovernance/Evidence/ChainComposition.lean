import TexGovernance.Evidence.Chain
import TexGovernance.Lib.HashChain

/-!
# Verifying a chain by its segments

Both verifiers accept what is linked from a hash, or from nothing.
-/

namespace TexGovernance.Evidence
open PyStr PyBytes PyCodec PyJson PyRepr Sha256 JsonDoc JsonLoads HashChain

variable {Id Time : Type} {jsonLoads : Str → Except LoadFailure JsonValue}

structure Sound (jsonLoads : Str → Except LoadFailure JsonValue) (record : EvidenceRecord Id Time) :
    Prop where
  plain : Plain record.payloadJson.val
  payloadSha256 : record.payloadSha256 = hexDigest (utf8 record.payloadJson.val)
  recordHash : record.recordHash = hexDigest (utf8 (linkText record.payloadSha256 record.previousHash))
  payloadJson : ∃ members, jsonLoads record.payloadJson.val = .ok (.obj members)

def LinkedFrom (jsonLoads : Str → Except LoadFailure JsonValue) :
    Option Sha256Hex → List (EvidenceRecord Id Time) → Prop
  | _, [] => True
  | previous, record :: rest =>
    Sound jsonLoads record ∧ record.previousHash = previous ∧
      LinkedFrom jsonLoads (some record.recordHash) rest

def lastHashFrom (start : Option Sha256Hex) (records : List (EvidenceRecord Id Time)) :
    Option Sha256Hex :=
  records.foldl (fun _ record => some record.recordHash) start

def lastRecordHash (records : List (EvidenceRecord Id Time)) : Option Sha256Hex :=
  records.getLast?.map EvidenceRecord.recordHash

theorem lastHashFrom_of_ne_nil (start : Option Sha256Hex) {records : List (EvidenceRecord Id Time)}
    (h : records ≠ []) : lastHashFrom start records = lastRecordHash records := by
  cases records using List.reverseRecOn with
  | nil => exact absurd rfl h
  | append_singleton records record =>
    unfold lastHashFrom lastRecordHash
    rw [List.foldl_append, List.getLast?_concat]
    rfl

theorem linkedFrom_append (previous : Option Sha256Hex) (records more : List (EvidenceRecord Id Time)) :
    LinkedFrom jsonLoads previous (records ++ more) ↔
      LinkedFrom jsonLoads previous records ∧
        LinkedFrom jsonLoads (lastHashFrom previous records) more := by
  induction records generalizing previous with
  | nil => exact (and_iff_right trivial).symm
  | cons record rest ih =>
    change (_ ∧ _ ∧ LinkedFrom jsonLoads _ (rest ++ more)) ↔ (_ ∧ _ ∧ _) ∧ _
    rw [ih, and_assoc, and_assoc]
    rfl

theorem verifyRecordIntegrity_eq_nil (record : EvidenceRecord Id Time) (index : ℕ) :
    verifyRecordIntegrity jsonLoads record index = [] ↔ Sound jsonLoads record := by
  have hpayload : payloadHashIssues record index = [] ↔ Plain record.payloadJson.val ∧
      record.payloadSha256 = hexDigest (utf8 record.payloadJson.val) := by
    unfold payloadHashIssues
    cases hdigest : sha256Hex record.payloadJson.val with
    | error e =>
      refine iff_of_false (List.cons_ne_nil _ _) fun h => ?_
      rw [sha256Hex_ok_iff.mpr ⟨h.1, rfl⟩] at hdigest
      cases hdigest
    | ok expected =>
      obtain ⟨hplain, rfl⟩ := sha256Hex_ok_iff.mp hdigest
      simp [hplain]
  have hrecord : recordHashIssues record index = [] ↔
      record.recordHash = hexDigest (utf8 (linkText record.payloadSha256 record.previousHash)) := by
    unfold recordHashIssues
    rw [buildRecordHash_eq]
    simp
  have hjson : payloadJsonIssues jsonLoads record index = [] ↔
      ∃ members, jsonLoads record.payloadJson.val = .ok (.obj members) := by
    unfold payloadJsonIssues
    cases jsonLoads record.payloadJson.val with
    | error e => cases e <;> simp
    | ok value => cases value <;> simp
  unfold verifyRecordIntegrity
  rw [List.append_eq_nil_iff, List.append_eq_nil_iff, hpayload, hrecord, hjson]
  exact ⟨fun h => ⟨h.1.1.1, h.1.1.2, h.1.2, h.2⟩,
    fun h => ⟨⟨⟨h.plain, h.payloadSha256⟩, h.recordHash⟩, h.payloadJson⟩⟩

theorem verifyChainLink_eq_nil (previous : Option (EvidenceRecord Id Time))
    (candidate : EvidenceRecord Id Time) (index : ℕ) :
    verifyChainLink previous candidate index = [] ↔
      candidate.previousHash = previous.map EvidenceRecord.recordHash := by
  cases previous with
  | none => simp [verifyChainLink]
  | some previous => simp [verifyChainLink]

theorem verifyWitnessLink_eq_nil (witness : Option Sha256Hex) (first : EvidenceRecord Id Time) :
    verifyWitnessLink witness first = [] ↔ first.previousHash = witness := by
  unfold verifyWitnessLink
  cases witness <;> cases first.previousHash <;> simp [eq_comm]

theorem chainIssues_eq_nil (previous : Option (EvidenceRecord Id Time)) (index : ℕ)
    (records : List (EvidenceRecord Id Time)) :
    chainIssues jsonLoads previous index records = [] ↔
      LinkedFrom jsonLoads (previous.map EvidenceRecord.recordHash) records := by
  induction records generalizing previous index with
  | nil => exact iff_of_true rfl trivial
  | cons record rest ih =>
    rw [chainIssues, List.append_eq_nil_iff, List.append_eq_nil_iff, ih,
      verifyRecordIntegrity_eq_nil, verifyChainLink_eq_nil, and_assoc]
    rfl

theorem verifyEvidenceChain_isValid (records : List (EvidenceRecord Id Time)) :
    (verifyEvidenceChain jsonLoads records).isValid = true ↔ LinkedFrom jsonLoads none records := by
  unfold verifyEvidenceChain
  cases records with
  | nil => exact iff_of_true rfl trivial
  | cons record rest =>
    change (chainIssues jsonLoads none 0 (record :: rest)).isEmpty = true ↔ _
    rw [List.isEmpty_iff]
    exact chainIssues_eq_nil none 0 _

def SliceValid (jsonLoads : Str → Except LoadFailure JsonValue)
    (records : List (EvidenceRecord Id Time)) (priorLinkWitness : Option Str) : Prop :=
  ∃ result, verifyEvidenceChainSlice jsonLoads records priorLinkWitness = .ok result ∧
    result.isValid = true

theorem sliceValid_iff (records : List (EvidenceRecord Id Time)) (previous : Option Sha256Hex) :
    SliceValid jsonLoads records (previous.map Subtype.val) ↔ LinkedFrom jsonLoads previous records := by
  have hwitness : (previous.map Subtype.val).mapM normalizeHash = .ok previous := by
    cases previous with
    | none => rfl
    | some h =>
      change (normalizeHash h.val >>= fun b => pure (some b)) = _
      rw [normalizeHash_val]
      rfl
  unfold SliceValid verifyEvidenceChainSlice
  rw [hwitness]
  cases records with
  | nil => exact iff_of_true ⟨_, rfl, rfl⟩ trivial
  | cons first rest =>
    change (∃ result, Except.ok (⟨(verifyRecordIntegrity jsonLoads first 0 ++
      verifyWitnessLink previous first ++ chainIssues jsonLoads (some first) 1 rest).isEmpty, _, _⟩ :
        ChainVerificationResult) = .ok result ∧ _) ↔ _
    simp only [Except.ok.injEq, exists_eq_left', List.isEmpty_iff, List.append_eq_nil_iff,
      verifyRecordIntegrity_eq_nil, verifyWitnessLink_eq_nil, chainIssues_eq_nil, and_assoc]
    rfl

def SegmentsValid (jsonLoads : Str → Except LoadFailure JsonValue) :
    Option Sha256Hex → List (List (EvidenceRecord Id Time)) → Prop
  | _, [] => True
  | previous, segment :: rest =>
    SliceValid jsonLoads segment (previous.map Subtype.val) ∧
      SegmentsValid jsonLoads (lastRecordHash segment) rest

theorem segmentsValid_iff (segments : List (List (EvidenceRecord Id Time)))
    (hne : ∀ segment ∈ segments, segment ≠ []) (previous : Option Sha256Hex) :
    SegmentsValid jsonLoads previous segments ↔ LinkedFrom jsonLoads previous segments.flatten := by
  induction segments generalizing previous with
  | nil => exact iff_of_true trivial trivial
  | cons segment rest ih =>
    obtain ⟨hsegment, hrest⟩ := List.forall_mem_cons.mp hne
    rw [List.flatten_cons, linkedFrom_append, lastHashFrom_of_ne_nil previous hsegment, ← ih hrest,
      ← sliceValid_iff]
    rfl

def payloadLink (previous : Option Sha256Hex) (payloadJson : Str) : Sha256Hex :=
  hexDigest (utf8 (linkText (hexDigest (utf8 payloadJson)) previous))

def recordInputs (record : EvidenceRecord Id Time) : List Bytes :=
  [utf8 record.payloadJson.val, utf8 (linkText record.payloadSha256 record.previousHash)]

/-- What the verification of a valid chain hashes. -/
def hashInputs (records : List (EvidenceRecord Id Time)) : List Bytes := records.flatMap recordInputs

theorem linkText_inj {payloadSha256 payloadSha256' : Sha256Hex}
    {previousHash previousHash' : Option Sha256Hex}
    (h : linkText payloadSha256 previousHash = linkText payloadSha256' previousHash') :
    payloadSha256 = payloadSha256' ∧ previousHash = previousHash' := by
  have hread := congrArg (JsonLoads.loads 1) h
  unfold linkText at hread
  rw [loads_writeObject 0 (List.cons_ne_nil _ _), loads_writeObject 0 (List.cons_ne_nil _ _)] at hread
  · simp only [List.map_cons, List.map_nil, Except.ok.injEq, JsonValue.obj.injEq, List.cons.injEq,
      Prod.mk.injEq, true_and, and_true, valueOf, JsonValue.str.injEq] at hread
    refine ⟨Subtype.ext hread.1, ?_⟩
    cases previousHash <;> cases previousHash'
    · rfl
    · cases hread.2
    · cases hread.2
    · exact congrArg some (Subtype.ext (JsonValue.str.inj hread.2))
  all_goals
    simp only [List.forall_mem_cons, List.not_mem_nil, false_imp_iff, implies_true, and_true]
    refine ⟨trivial, ?_⟩
    split <;> trivial

theorem linkedFrom_links {previous : Option Sha256Hex} {records : List (EvidenceRecord Id Time)}
    (h : LinkedFrom jsonLoads previous records) :
    tipFrom payloadLink previous (records.map fun r => r.payloadJson.val) =
        lastHashFrom previous records ∧
      ∀ p ∈ linksFrom payloadLink previous (records.map fun r => r.payloadJson.val),
        Plain p.2 ∧ utf8 p.2 ∈ hashInputs records ∧
          utf8 (linkText (hexDigest (utf8 p.2)) p.1) ∈ hashInputs records := by
  induction records generalizing previous with
  | nil => exact ⟨rfl, fun _ hp => absurd hp List.not_mem_nil⟩
  | cons record rest ih =>
    obtain ⟨hsound, hprevious, hrest⟩ := h
    obtain ⟨htip, hlinks⟩ := ih hrest
    have hhash : payloadLink previous record.payloadJson.val = record.recordHash := by
      rw [hsound.recordHash, hsound.payloadSha256, hprevious]
      rfl
    have hstep : lastHashFrom previous (record :: rest) = lastHashFrom (some record.recordHash) rest :=
      rfl
    refine ⟨?_, ?_⟩
    · rw [hstep, ← htip, ← hhash]
      rfl
    · rw [List.map_cons, linksFrom, hhash, List.forall_mem_cons]
      unfold hashInputs
      simp only [List.flatMap_cons, List.mem_append]
      refine ⟨⟨hsound.plain, .inl List.mem_cons_self, .inl ?_⟩, fun p hp => ?_⟩
      · rw [← hsound.payloadSha256, ← hprevious]
        exact List.mem_cons_of_mem _ List.mem_cons_self
      · obtain ⟨hplain, hpayload, hlink⟩ := hlinks p hp
        exact ⟨hplain, .inr hpayload, .inr hlink⟩

theorem payloadLink_injOn {S : Set Bytes} (hS : Set.InjOn sha256 S) {P : Set (Option Sha256Hex × Str)}
    (hP : ∀ p ∈ P, Plain p.2 ∧ utf8 p.2 ∈ S ∧ utf8 (linkText (hexDigest (utf8 p.2)) p.1) ∈ S) :
    Set.InjOn (fun p : Option Sha256Hex × Str => payloadLink p.1 p.2) P := by
  intro p hp q hq h
  obtain ⟨hplain, hpayload, hlink⟩ := hP p hp
  obtain ⟨hplain', hpayload', hlink'⟩ := hP q hq
  have htext : linkText (hexDigest (utf8 p.2)) p.1 = linkText (hexDigest (utf8 q.2)) q.1 :=
    utf8_inj (plain_linkText _ _) (plain_linkText _ _) (hexDigest_injOn hS hlink hlink' h)
  obtain ⟨hdigest, hprevious⟩ := linkText_inj htext
  exact Prod.ext hprevious (utf8_inj hplain hplain' (hexDigest_injOn hS hpayload hpayload' hdigest))

structure SameContents (r r' : EvidenceRecord Id Time) : Prop where
  payloadJson : r.payloadJson = r'.payloadJson
  payloadSha256 : r.payloadSha256 = r'.payloadSha256
  previousHash : r.previousHash = r'.previousHash
  recordHash : r.recordHash = r'.recordHash

theorem sameContents_of_payloads {previous : Option Sha256Hex}
    {records records' : List (EvidenceRecord Id Time)} (h : LinkedFrom jsonLoads previous records)
    (h' : LinkedFrom jsonLoads previous records')
    (hpayloads : (records.map fun r => r.payloadJson.val) = records'.map fun r => r.payloadJson.val) :
    List.Forall₂ SameContents records records' := by
  induction records generalizing previous records' with
  | nil =>
    rw [List.map_eq_nil_iff.mp hpayloads.symm]
    exact .nil
  | cons record rest ih =>
    cases records' with
    | nil => cases hpayloads
    | cons record' rest' =>
      obtain ⟨hsound, hprevious, hrest⟩ := h
      obtain ⟨hsound', hprevious', hrest'⟩ := h'
      obtain ⟨hpayload, hmore⟩ := List.cons.inj hpayloads
      have hpayloadJson : record.payloadJson = record'.payloadJson := Subtype.ext hpayload
      have hsha : record.payloadSha256 = record'.payloadSha256 := by
        rw [hsound.payloadSha256, hsound'.payloadSha256, hpayloadJson]
      have hlink : record.previousHash = record'.previousHash := hprevious.trans hprevious'.symm
      have hhash : record.recordHash = record'.recordHash := by
        rw [hsound.recordHash, hsound'.recordHash, hsha, hlink]
      rw [← hhash] at hrest'
      exact .cons ⟨hpayloadJson, hsha, hlink, hhash⟩ (ih hrest hrest' hmore)

theorem linked_determined {records records' : List (EvidenceRecord Id Time)}
    (hinj : Set.InjOn sha256 {x | x ∈ hashInputs records ∨ x ∈ hashInputs records'})
    (h : LinkedFrom jsonLoads none records) (h' : LinkedFrom jsonLoads none records')
    (hlast : lastRecordHash records = lastRecordHash records') :
    List.Forall₂ SameContents records records' := by
  have hfold : ∀ rs : List (EvidenceRecord Id Time), lastHashFrom none rs = lastRecordHash rs := by
    intro rs
    by_cases hne : rs = []
    · rw [hne]
      rfl
    · exact lastHashFrom_of_ne_nil none hne
  obtain ⟨htip, hlinks⟩ := linkedFrom_links h
  obtain ⟨htip', hlinks'⟩ := linkedFrom_links h'
  refine sameContents_of_payloads h h' (tip_inj payloadLink _ _ (payloadLink_injOn hinj ?_) ?_)
  · rintro p (hp | hp)
    · obtain ⟨hplain, hpayload, hlink⟩ := hlinks p hp
      exact ⟨hplain, .inl hpayload, .inl hlink⟩
    · obtain ⟨hplain, hpayload, hlink⟩ := hlinks' p hp
      exact ⟨hplain, .inr hpayload, .inr hlink⟩
  · unfold tip
    rw [htip, htip', hfold, hfold, hlast]

/-- A chain is valid exactly when its segments are, each behind the last hash of the
one before it, and the last hash of a valid chain determines its contents. -/
theorem evidence_chain_composes (jsonLoads : Str → Except LoadFailure JsonValue) :
    (∀ segments : List (List (EvidenceRecord Id Time)), (∀ segment ∈ segments, segment ≠ []) →
      ((verifyEvidenceChain jsonLoads segments.flatten).isValid = true ↔
        SegmentsValid jsonLoads none segments)) ∧
    (∀ records records' : List (EvidenceRecord Id Time),
      Set.InjOn sha256 {x | x ∈ hashInputs records ∨ x ∈ hashInputs records'} →
      (verifyEvidenceChain jsonLoads records).isValid = true →
      (verifyEvidenceChain jsonLoads records').isValid = true →
      lastRecordHash records = lastRecordHash records' →
      records.length = records'.length ∧ List.Forall₂ SameContents records records') := by
  refine ⟨fun segments hne => ?_, fun records records' hinj h h' hlast => ?_⟩
  · rw [verifyEvidenceChain_isValid, segmentsValid_iff segments hne]
  · rw [verifyEvidenceChain_isValid] at h h'
    have hsame := linked_determined hinj h h' hlast
    exact ⟨hsame.length_eq, hsame⟩

def sampleLoads (text : Str) : Except LoadFailure JsonValue :=
  match JsonLoads.loads 2 text with
  | .ok value => .ok value
  | .error _ => .error .jsonDecodeError

def sampleRecord (id : ℕ) (previousHash : Option Sha256Hex) (payloadJson : FieldText 2 none) :
    EvidenceRecord ℕ ℕ where
  evidenceId := id
  decisionId := 0
  requestId := 0
  recordType := ⟨txt "decision", by decide⟩
  payloadJson := payloadJson
  payloadSha256 := hexDigest (utf8 payloadJson.val)
  previousHash := previousHash
  recordHash := payloadLink previousHash payloadJson.val
  policyVersion := ⟨txt "v1", by decide⟩
  recordedAt := id

theorem sampleRecord_sound (id : ℕ) (previousHash : Option Sha256Hex) {payloadJson : FieldText 2 none}
    (hplain : Plain payloadJson.val) {members : List (Str × JsonValue)}
    (hload : sampleLoads payloadJson.val = .ok (.obj members)) :
    Sound sampleLoads (sampleRecord id previousHash payloadJson) :=
  ⟨hplain, rfl, rfl, members, hload⟩

def samplePayloads : FieldText 2 none × FieldText 2 none :=
  (⟨lit ['\x7b', '\x7d'], by decide⟩, ⟨lit ['\x7b', '\x22', 'n', '\x22', ':', '1', '\x7d'], by decide⟩)

/-- Two records of which the second follows the first. -/
def sampleChain (id : ℕ) : List (EvidenceRecord ℕ ℕ) :=
  let first := sampleRecord id none samplePayloads.1
  [first, sampleRecord (id + 1) (some first.recordHash) samplePayloads.2]

theorem sampleChain_linked (id : ℕ) : LinkedFrom sampleLoads none (sampleChain id) := by
  have hempty : sampleLoads samplePayloads.1.val = .ok (.obj []) := rfl
  have hone : sampleLoads samplePayloads.2.val = .ok (.obj [(txt "n", .int 1)]) := rfl
  exact ⟨sampleRecord_sound _ _ (by decide) hempty, rfl, sampleRecord_sound _ _ (by decide) hone, rfl, trivial⟩

set_option maxRecDepth 2000 in
theorem evidence_chain_composes_sample :
    ((verifyEvidenceChain sampleLoads (sampleChain 1)).isValid = true ↔
      SegmentsValid sampleLoads none ((sampleChain 1).map fun record => [record])) ∧
    List.Forall₂ SameContents (sampleChain 1) (sampleChain 5) := by
  have hvalid : ∀ id, (verifyEvidenceChain sampleLoads (sampleChain id)).isValid = true :=
    fun id => (verifyEvidenceChain_isValid _).mpr (sampleChain_linked id)
  have hnodup : ((hashInputs (sampleChain 1)).map sha256).Nodup := by decide
  have hinj : Set.InjOn sha256
      {x | x ∈ hashInputs (sampleChain 1) ∨ x ∈ hashInputs (sampleChain 5)} := by
    have hsame : hashInputs (sampleChain 5) = hashInputs (sampleChain 1) := by
      simp only [hashInputs, sampleChain, sampleRecord, List.flatMap_cons, List.flatMap_nil,
        recordInputs]
    rw [hsame]
    simp only [or_self]
    exact injOn_of_nodup _ hnodup
  have hone : ∀ segment ∈ (sampleChain 1).map fun record => [record], segment ≠ [] := by
    intro segment hsegment
    obtain ⟨record, -, rfl⟩ := List.mem_map.mp hsegment
    exact List.cons_ne_nil _ _
  have hlast : lastRecordHash (sampleChain 1) = lastRecordHash (sampleChain 5) := by
    simp only [lastRecordHash, sampleChain, sampleRecord, List.getLast?_cons_cons,
      List.getLast?_singleton, Option.map_some]
  have hchain : ((sampleChain 1).map fun record => [record]).flatten = sampleChain 1 := by
    simp only [sampleChain, List.map_cons, List.map_nil, List.flatten_cons, List.flatten_nil,
      List.append_nil, List.cons_append, List.nil_append]
  have hsegments := (evidence_chain_composes sampleLoads).1 _ hone
  rw [hchain] at hsegments
  exact ⟨hsegments,
    ((evidence_chain_composes sampleLoads).2 _ _ hinj (hvalid 1) (hvalid 5) hlast).2⟩

end TexGovernance.Evidence
