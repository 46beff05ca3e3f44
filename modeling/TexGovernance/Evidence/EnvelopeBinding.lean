import TexGovernance.Evidence.RecordLines
import TexGovernance.Evidence.TornWrites

/-!
# What the chain binds of a record

The hash of a record covers its payload and its predecessor, and nothing else of the envelope.
-/

namespace TexGovernance.Evidence
open PyStr PyBytes PyCodec PyRepr PyDict Sha256 JsonDoc JsonLoads TextFile
open PyValue (Interpreter Raised Members isText)

variable {Id Time : Type} {p : Platform Id Time} {jsonLoads : Str → Except LoadFailure JsonValue}

theorem Sound.congr {record record' : EvidenceRecord Id Time} (h : Sound jsonLoads record)
    (hsame : SameContents record record') : Sound jsonLoads record' := by
  obtain ⟨hpayload, hsha, hprevious, hhash⟩ := hsame
  obtain ⟨hplain, hdigest, hrecord, hjson⟩ := h
  rw [hpayload] at hplain hdigest hjson
  rw [hsha] at hdigest hrecord
  rw [hprevious, hhash] at hrecord
  exact ⟨hplain, hdigest, hrecord, hjson⟩

variable {records records' : List (EvidenceRecord Id Time)}

theorem linkedFrom_congr {previous : Option Sha256Hex}
    (h : LinkedFrom jsonLoads previous records) (hsame : List.Forall₂ SameContents records records') :
    LinkedFrom jsonLoads previous records' := by
  induction hsame generalizing previous with
  | nil => trivial
  | cons hrecord _ ih =>
    obtain ⟨hsound, hprevious, hrest⟩ := h
    rw [hrecord.recordHash] at hrest
    exact ⟨hsound.congr hrecord, by rw [← hrecord.previousHash, hprevious], ih hrest⟩

theorem valid_iff_sameContents
    (hinj : Set.InjOn sha256 {x | x ∈ hashInputs records ∨ x ∈ hashInputs records'})
    (h : (verifyEvidenceChain jsonLoads records).isValid = true)
    (hlast : lastRecordHash records = lastRecordHash records') :
    (verifyEvidenceChain jsonLoads records').isValid = true ↔
      List.Forall₂ SameContents records records' := by
  rw [verifyEvidenceChain_isValid] at h ⊢
  exact ⟨fun h' => linked_determined hinj h h' hlast, fun hsame => linkedFrom_congr h hsame⟩

def Platform.logText (p : Platform Id Time) (records : List (EvidenceRecord Id Time)) : Str :=
  records.flatMap fun record => p.line record ++ [cp '\n']

theorem splitLines_logText (records : List (EvidenceRecord Id Time)) :
    splitLines (p.logText records) = records.map p.line := by
  induction records with
  | nil => rfl
  | cons record rest ih =>
    change splitLines (p.line record ++ [cp '\n'] ++ p.logText rest) = _
    rw [splitLines_append (terminated_concat _), splitLines_line _ (noBreak_line record), ih]
    rfl

/-- The file holds the records, as the recorder writes them. -/
def Platform.Holds (p : Platform Id Time) (records : List (EvidenceRecord Id Time)) (content : Bytes) :
    Prop :=
  utf8Encode (p.logText records) = .ok content

theorem Platform.Holds.readAll {records : List (EvidenceRecord Id Time)} {content : Bytes}
    (h : p.Holds records content) (drawn : ℕ → Id × Time) : p.readAll drawn (some content) = .ok records := by
  rw [readAll_decoded drawn (utf8Decode_encode h), splitLines_logText]
  exact readLines_map drawn 1 records

structure SameEnvelope (r r' : EvidenceRecord Id Time) : Prop where
  recordType : r.recordType = r'.recordType
  decisionId : r.decisionId = r'.decisionId

theorem loads_of_jsonLoads {text : Str} {v : JsonValue} (h : p.jsonLoads text = .ok v) :
    p.loads text = .ok v := by
  unfold Platform.jsonLoads at h
  split at h
  · next w hw =>
    rw [hw, Except.ok.inj h]
  · cases h
  · cases h

theorem decodePayload_sound {record : EvidenceRecord Id Time} (h : Sound p.jsonLoads record) :
    ∃ members, p.decodePayload record = .ok members := by
  obtain ⟨members, hmembers⟩ := h.payloadJson
  refine ⟨members, ?_⟩
  unfold Platform.decodePayload
  rw [loads_of_jsonLoads hmembers]

theorem isViolation_sound {record : EvidenceRecord Id Time} (h : Sound p.jsonLoads record)
    (decisionId contractId : Option Str) : ∃ found, p.isViolation decisionId contractId record = .ok found := by
  obtain ⟨members, hmembers⟩ := decodePayload_sound h
  unfold Platform.isViolation
  split
  · exact ⟨_, rfl⟩
  · split
    · exact ⟨_, rfl⟩
    · cases contractId with
      | none => exact ⟨_, rfl⟩
      | some contract =>
        rw [hmembers]
        exact ⟨_, rfl⟩

theorem isViolation_congr {record record' : EvidenceRecord Id Time} (hsame : SameContents record record')
    (henvelope : SameEnvelope record record') (decisionId contractId : Option Str) :
    p.isViolation decisionId contractId record = p.isViolation decisionId contractId record' := by
  unfold Platform.isViolation Platform.decodePayload
  rw [hsame.payloadJson, henvelope.recordType, henvelope.decisionId]

theorem violationsIn_cons {record : EvidenceRecord Id Time} {rest found : List (EvidenceRecord Id Time)}
    {decisionId contractId : Option Str} {b : Bool}
    (hrecord : p.isViolation decisionId contractId record = .ok b)
    (hrest : p.violationsIn decisionId contractId rest = .ok found) :
    p.violationsIn decisionId contractId (record :: rest) = .ok (if b then record :: found else found) := by
  rw [Platform.violationsIn, hrecord, hrest]
  rfl

theorem violationsIn_congr {previous : Option Sha256Hex}
    (h : LinkedFrom p.jsonLoads previous records) (hsame : List.Forall₂ SameContents records records')
    (henvelope : List.Forall₂ SameEnvelope records records') (decisionId contractId : Option Str) :
    ∃ found found', p.violationsIn decisionId contractId records = .ok found ∧
      p.violationsIn decisionId contractId records' = .ok found' ∧
      List.Forall₂ SameContents found found' := by
  induction hsame generalizing previous with
  | nil => exact ⟨[], [], rfl, rfl, .nil⟩
  | cons hrecord _ ih =>
    obtain ⟨hsound, -, hrest⟩ := h
    obtain ⟨hhead, htail⟩ := List.forall₂_cons.mp henvelope
    obtain ⟨found, found', hfound, hfound', hboth⟩ := ih hrest htail
    obtain ⟨b, hb⟩ := isViolation_sound hsound decisionId contractId
    have hb' := (isViolation_congr hrecord hhead decisionId contractId).symm.trans hb
    refine ⟨_, _, violationsIn_cons hb hfound, violationsIn_cons hb' hfound', ?_⟩
    cases b with
    | false => exact hboth
    | true => exact .cons hrecord hboth

def Platform.envelopeOf (p : Platform Id Time) (record : EvidenceRecord Id Time) : Members :=
  (p.modelDump record).map fun m => (m.1, valueOf m.2)

theorem get_envelopeOf (record : EvidenceRecord Id Time) : ∀ m ∈ p.modelDump record,
    PyValue.get m.1 (p.envelopeOf record) = valueOf m.2 := by
  intro m hm
  have hnames : ((p.envelopeOf record).map Prod.fst).Nodup := by
    rw [Platform.envelopeOf, List.map_map]
    change ((p.modelDump record).map Prod.fst).Nodup
    rw [fst_modelDump]
    decide
  have hget : PyValue.get? m.1 (p.envelopeOf record) = some (valueOf m.2) :=
    (PyValue.get?_eq_some_iff hnames).mpr (List.mem_map_of_mem hm)
  unfold PyValue.get PyValue.getOr
  rw [hget]
  rfl

theorem get_envelope_fields (record : EvidenceRecord Id Time) :
    PyValue.get (txt "record_type") (p.envelopeOf record) = .str record.recordType.val ∧
      PyValue.get (txt "decision_id") (p.envelopeOf record) = .str (p.uuidText record.decisionId) ∧
      PyValue.get (txt "payload_json") (p.envelopeOf record) = .str record.payloadJson.val := by
  have hget := get_envelopeOf (p := p) record
  unfold Platform.modelDump at hget
  simp only [List.forall_mem_cons, List.not_mem_nil, false_imp_iff, implies_true, and_true] at hget
  obtain ⟨hdecision, -, hpayload, -, -, -, -, htype, -, -⟩ := hget
  exact ⟨htype, hdecision, hpayload⟩

variable (py : Interpreter)

theorem resolvedOn_congr {record record' : EvidenceRecord Id Time} (hsame : SameContents record record')
    (henvelope : SameEnvelope record record') :
    p.resolvedOn py (p.line record) = p.resolvedOn py (p.line record') := by
  obtain ⟨htype, hdecision, hpayload⟩ := get_envelope_fields (p := p) record
  obtain ⟨htype', hdecision', hpayload'⟩ := get_envelope_fields (p := p) record'
  have hloads : p.loads (p.line record) = .ok (.obj (p.envelopeOf record)) := loads_line record
  have hloads' : p.loads (p.line record') = .ok (.obj (p.envelopeOf record')) := loads_line record'
  unfold Platform.resolvedOn Platform.payloadDecisionId
  simp only [hloads, hloads', htype, htype', hdecision, hdecision', hpayload, hpayload',
    henvelope.recordType, henvelope.decisionId, hsame.payloadJson]

theorem resolvedIn_congr (hsame : List.Forall₂ SameContents records records')
    (henvelope : List.Forall₂ SameEnvelope records records') :
    p.resolvedIn py (records.map p.line) = p.resolvedIn py (records'.map p.line) := by
  induction hsame with
  | nil => rfl
  | @cons record record' rest rest' hrecord _ ih =>
    obtain ⟨hhead, htail⟩ := List.forall₂_cons.mp henvelope
    have hne : ∀ r : EvidenceRecord Id Time, strip (p.line r) ≠ [] := by
      intro r
      rw [strip_line]
      exact line_ne_nil r
    rw [List.map_cons, List.map_cons, Platform.resolvedIn, Platform.resolvedIn, if_neg (hne record),
      if_neg (hne record'), strip_line, strip_line, ih htail, resolvedOn_congr py hrecord hhead]

theorem ensureResolvedIds_holds {records : List (EvidenceRecord Id Time)} {content : Bytes}
    (h : p.Holds records content) (durable : Finset Str) {r : Recorder Id Time}
    (hfile : r.file = some content) (hindex : r.resolvedIds = none) :
    (p.ensureResolvedIds py durable r).map Prod.fst =
      (p.resolvedIn py (records.map p.line)).map fun found => durable ∪ found := by
  unfold Platform.ensureResolvedIds
  rw [hindex, hfile]
  simp only
  rw [utf8Decode_encode h, PyValue.raising_ok]
  change ((p.resolvedIn py (splitLines (p.logText records)) >>= fun found => _).map Prod.fst) = _
  rw [splitLines_logText]
  cases p.resolvedIn py (records.map p.line) with
  | error e => rfl
  | ok found => rfl

theorem resolvedDecisionIds_congr (hsame : List.Forall₂ SameContents records records')
    (henvelope : List.Forall₂ SameEnvelope records records') {content content' : Bytes}
    (h : p.Holds records content) (h' : p.Holds records' content') (durable : Finset Str)
    (candidateIds : Option (List Str)) {r r' : Recorder Id Time} (hfile : r.file = some content)
    (hindex : r.resolvedIds = none) (hfile' : r'.file = some content') (hindex' : r'.resolvedIds = none) :
    (p.resolvedDecisionIds py durable candidateIds r).map Prod.fst =
      (p.resolvedDecisionIds py durable candidateIds r').map Prod.fst := by
  have hids : (p.ensureResolvedIds py durable r).map Prod.fst =
      (p.ensureResolvedIds py durable r').map Prod.fst := by
    rw [ensureResolvedIds_holds py h durable hfile hindex,
      ensureResolvedIds_holds py h' durable hfile' hindex', resolvedIn_congr py hsame henvelope]
  have hchosen : ∀ (candidates : List Str) (r : Recorder Id Time),
      (p.resolvedDecisionIds py durable (some candidates) r).map Prod.fst =
        if candidates = [] then .ok ∅
        else ((p.ensureResolvedIds py durable r).map Prod.fst).map fun ids => candidates.toFinset ∩ ids := by
    intro candidates r
    cases candidates with
    | nil => rfl
    | cons c cs =>
      rw [if_neg (List.cons_ne_nil c cs)]
      unfold Platform.resolvedDecisionIds
      cases p.ensureResolvedIds py durable r with
      | error e => rfl
      | ok found => rfl
  cases candidateIds with
  | none => exact hids
  | some candidates => rw [hchosen, hchosen, hids]

/-- The payload names the type and the decision of its envelope, as every payload does that
the recorder's own methods build. -/
def Platform.Repeats (p : Platform Id Time) (record : EvidenceRecord Id Time) : Prop :=
  ∃ members, p.loads record.payloadJson.val = .ok (.obj members) ∧
    PyValue.get (txt "record_type") members = .str record.recordType.val ∧
    PyValue.get (txt "decision_id") members = .str (p.uuidText record.decisionId)

theorem uuidText_inj {id id' : Id} (h : p.uuidText id = p.uuidText id') : id = id' := by
  have hback := p.uuid_back id
  rw [h, p.uuid_back] at hback
  exact (Option.some.inj hback).symm

theorem sameEnvelope_of_repeats {r r' : EvidenceRecord Id Time} (hsame : SameContents r r')
    (h : p.Repeats r) (h' : p.Repeats r') : SameEnvelope r r' := by
  obtain ⟨members, hloads, htype, hdecision⟩ := h
  obtain ⟨members', hloads', htype', hdecision'⟩ := h'
  rw [hsame.payloadJson, hloads'] at hloads
  cases hloads
  rw [htype'] at htype
  rw [hdecision'] at hdecision
  exact ⟨Subtype.ext (JsonValue.str.inj htype).symm, uuidText_inj (JsonValue.str.inj hdecision).symm⟩

theorem sameEnvelopes_of_repeats
    (hsame : List.Forall₂ SameContents records records') (h : ∀ r ∈ records, p.Repeats r)
    (h' : ∀ r ∈ records', p.Repeats r) : List.Forall₂ SameEnvelope records records' := by
  induction hsame with
  | nil => exact .nil
  | cons hrecord _ ih =>
    obtain ⟨hhead, htail⟩ := List.forall_mem_cons.mp h
    obtain ⟨hhead', htail'⟩ := List.forall_mem_cons.mp h'
    exact .cons (sameEnvelope_of_repeats hrecord hhead hhead') (ih htail htail')

/-- A chain with the last hash of a valid one is valid exactly when it holds the same payloads,
links and hashes. Two valid chains with one last
hash answer the readers alike where their envelopes agree in type and decision, as they do
where every payload repeats these of its envelope. -/
theorem chain_binds_payloads (p : Platform Id Time) (py : Interpreter) :
    (∀ records records' : List (EvidenceRecord Id Time),
      Set.InjOn sha256 {x | x ∈ hashInputs records ∨ x ∈ hashInputs records'} →
      (verifyEvidenceChain p.jsonLoads records).isValid = true →
      lastRecordHash records = lastRecordHash records' →
      ((verifyEvidenceChain p.jsonLoads records').isValid = true ↔
        List.Forall₂ SameContents records records')) ∧
    (∀ (records records' : List (EvidenceRecord Id Time)) (content content' : Bytes),
      Set.InjOn sha256 {x | x ∈ hashInputs records ∨ x ∈ hashInputs records'} →
      (verifyEvidenceChain p.jsonLoads records).isValid = true →
      (verifyEvidenceChain p.jsonLoads records').isValid = true →
      lastRecordHash records = lastRecordHash records' →
      p.Holds records content → p.Holds records' content' →
      List.Forall₂ SameEnvelope records records' →
      (∀ drawn decisionId contractId, ∃ found found',
        p.readContractViolations drawn (some content) decisionId contractId = .ok found ∧
        p.readContractViolations drawn (some content') decisionId contractId = .ok found' ∧
        List.Forall₂ SameContents found found') ∧
      ∀ durable candidateIds (r r' : Recorder Id Time), r.file = some content → r.resolvedIds = none →
        r'.file = some content' → r'.resolvedIds = none →
        (p.resolvedDecisionIds py durable candidateIds r).map Prod.fst =
          (p.resolvedDecisionIds py durable candidateIds r').map Prod.fst) ∧
    (∀ records records' : List (EvidenceRecord Id Time), List.Forall₂ SameContents records records' →
      (∀ r ∈ records, p.Repeats r) → (∀ r ∈ records', p.Repeats r) →
      List.Forall₂ SameEnvelope records records') := by
  refine ⟨fun records records' hinj h hlast => valid_iff_sameContents hinj h hlast, ?_,
    fun records records' hsame h h' => sameEnvelopes_of_repeats hsame h h'⟩
  intro records records' content content' hinj h h' hlast hholds hholds' henvelope
  have hsame := (valid_iff_sameContents hinj h hlast).mp h'
  rw [verifyEvidenceChain_isValid] at h
  refine ⟨fun drawn decisionId contractId => ?_, fun durable candidateIds r r' hfile hindex hfile' hindex' =>
    resolvedDecisionIds_congr py hsame henvelope hholds hholds' durable candidateIds hfile hindex hfile'
      hindex'⟩
  obtain ⟨found, found', hfound, hfound', hboth⟩ := violationsIn_congr h hsame henvelope decisionId contractId
  refine ⟨found, found', ?_, ?_, hboth⟩
  · unfold Platform.readContractViolations
    rw [hholds.readAll]
    exact congrArg (Except.mapError QueryFailure.payload) hfound
  · unfold Platform.readContractViolations
    rw [hholds'.readAll]
    exact congrArg (Except.mapError QueryFailure.payload) hfound'

def sampleNames : Members :=
  [(txt "decision_id", .str sampleUuid), (txt "record_type", .str (txt "decision"))]

def sampleNamesText : FieldText 2 none :=
  ⟨JsonText.dumps JsonText.keepChars (.obj sampleNames), strip_dumps _, by decide, by decide, nofun⟩

def sampleEntry (recordType policyVersion : FieldText 1 (some 100)) : EvidenceRecord Unit Unit where
  evidenceId := ()
  decisionId := ()
  requestId := ()
  recordType := recordType
  payloadJson := sampleNamesText
  payloadSha256 := hexDigest (utf8 sampleNamesText.val)
  previousHash := none
  recordHash := payloadLink none sampleNamesText.val
  policyVersion := policyVersion
  recordedAt := ()

theorem loads_sampleNames : samplePlatform.loads sampleNamesText.val = .ok (.obj sampleNames) := by
  have htame : JsonText.Tame (samplePlatform.frames + 1) (.obj sampleNames) := by
    refine .obj ?_
    simp only [sampleNames, List.forall_mem_cons, JsonText.Tame.str, true_and]
    exact List.forall_mem_nil _
  exact JsonText.loads_keepChars htame

theorem plain_sampleNames : Plain sampleNamesText.val := by
  refine (JsonText.plain_write_iff _).mpr ?_
  change ∀ s ∈ [txt "decision_id", sampleUuid, txt "record_type", txt "decision"], Plain s
  simp only [List.forall_mem_cons, sampleUuid, plain_txt, true_and]
  exact List.forall_mem_nil _

theorem sampleEntry_linked (recordType policyVersion : FieldText 1 (some 100)) :
    LinkedFrom samplePlatform.jsonLoads none [sampleEntry recordType policyVersion] := by
  have hjson : samplePlatform.jsonLoads sampleNamesText.val = .ok (.obj sampleNames) := by
    unfold Platform.jsonLoads
    rw [loads_sampleNames]
  exact ⟨⟨plain_sampleNames, rfl, rfl, _, hjson⟩, rfl, trivial⟩

theorem decisionType_fits : strip (txt "decision") = txt "decision" ∧ txt "decision" ≠ [] ∧
    1 ≤ (txt "decision").length ∧ ∀ n ∈ some 100, (txt "decision").length ≤ n := by
  decide

def decisionType : FieldText 1 (some 100) := ⟨txt "decision", decisionType_fits⟩

def resolutionType : FieldText 1 (some 100) := ⟨txt "human_resolution", by decide⟩

def firstPolicy : FieldText 1 (some 100) := ⟨txt "1", by decide⟩

def secondPolicy : FieldText 1 (some 100) := ⟨txt "2", by decide⟩

theorem sampleEntry_repeats (policyVersion : FieldText 1 (some 100)) :
    samplePlatform.Repeats (sampleEntry decisionType policyVersion) :=
  ⟨sampleNames, loads_sampleNames, rfl, rfl⟩

def sampleContent (recordType policyVersion : FieldText 1 (some 100)) : Bytes :=
  utf8 (samplePlatform.logText [sampleEntry recordType policyVersion])

theorem sampleContent_holds {recordType policyVersion : FieldText 1 (some 100)}
    (htype : Plain recordType.val) (hpolicy : Plain policyVersion.val) :
    samplePlatform.Holds [sampleEntry recordType policyVersion] (sampleContent recordType policyVersion) := by
  refine utf8Encode_eq ?_
  change Plain ((_ ++ [cp '\n']) ++ [])
  rw [List.append_nil]
  exact (plain_line htype plain_sampleNames hpolicy).append (plain_singleton (isSurrogate_cp _))

set_option maxRecDepth 2000 in
theorem sampleEntry_injOn (recordType policyVersion policyVersion' : FieldText 1 (some 100)) :
    Set.InjOn sha256 {x | x ∈ hashInputs [sampleEntry recordType policyVersion] ∨
      x ∈ hashInputs [sampleEntry recordType policyVersion']} := by
  have hnodup : ([utf8 sampleNamesText.val,
      utf8 (linkText (hexDigest (utf8 sampleNamesText.val)) none)].map sha256).Nodup := by
    decide
  have hinputs : ∀ version, hashInputs [sampleEntry recordType version] = [utf8 sampleNamesText.val,
      utf8 (linkText (hexDigest (utf8 sampleNamesText.val)) none)] := fun _ => rfl
  rw [hinputs, hinputs]
  simp only [or_self]
  exact injOn_of_nodup _ hnodup

/-- The chain binds a payload that repeats its envelope, and the readers of two such logs
agree. -/
theorem chain_binds_payloads_sample :
    List.Forall₂ SameContents [sampleEntry decisionType firstPolicy] [sampleEntry decisionType secondPolicy] ∧
    ∃ found found', samplePlatform.readContractViolations (fun _ => ((), ()))
        (some (sampleContent decisionType firstPolicy)) none none = .ok found ∧
      samplePlatform.readContractViolations (fun _ => ((), ()))
        (some (sampleContent decisionType secondPolicy)) none none = .ok found' ∧
      List.Forall₂ SameContents found found' := by
  have hvalid : ∀ version, (verifyEvidenceChain samplePlatform.jsonLoads
      [sampleEntry decisionType version]).isValid = true := fun version =>
    (verifyEvidenceChain_isValid _).mpr (sampleEntry_linked decisionType version)
  have hinj := sampleEntry_injOn decisionType firstPolicy secondPolicy
  have hrepeats : ∀ version, ∀ r ∈ [sampleEntry decisionType version], samplePlatform.Repeats r :=
    fun version => List.forall_mem_singleton.mpr (sampleEntry_repeats version)
  obtain ⟨hbinds, hreaders, henvelopes⟩ := chain_binds_payloads samplePlatform PyValue.plainInterpreter
  have hsame := (hbinds _ _ hinj (hvalid firstPolicy) rfl).mp (hvalid secondPolicy)
  have hanswers := hreaders _ _ _ _ hinj (hvalid firstPolicy) (hvalid secondPolicy) rfl
    (sampleContent_holds (plain_txt _) (plain_txt _)) (sampleContent_holds (plain_txt _) (plain_txt _))
    (henvelopes _ _ hsame (hrepeats firstPolicy) (hrepeats secondPolicy))
  exact ⟨hsame, hanswers.1 _ none none⟩

theorem resolvedIn_entry (recordType policyVersion : FieldText 1 (some 100)) :
    samplePlatform.resolvedIn PyValue.plainInterpreter
        [samplePlatform.line (sampleEntry recordType policyVersion)] =
      .ok (if recordType.val = txt "human_resolution" then {sampleUuid} else ∅) := by
  obtain ⟨htype, hdecision, -⟩ :=
    get_envelope_fields (p := samplePlatform) (sampleEntry recordType policyVersion)
  have hloads : samplePlatform.loads (samplePlatform.line (sampleEntry recordType policyVersion)) =
      .ok (.obj (samplePlatform.envelopeOf (sampleEntry recordType policyVersion))) := loads_line _
  have hnamed : textOrEmpty PyValue.plainInterpreter (.str sampleUuid) = .ok sampleUuid := rfl
  have hon : samplePlatform.resolvedOn PyValue.plainInterpreter
      (samplePlatform.line (sampleEntry recordType policyVersion)) =
      .ok (if recordType.val = txt "human_resolution" then some sampleUuid else none) := by
    unfold Platform.resolvedOn
    rw [hloads]
    simp only [htype, hdecision]
    change (if decide (recordType.val = txt "human_resolution") = false then .ok none
      else textOrEmpty PyValue.plainInterpreter (.str sampleUuid) >>= _) = _
    rw [hnamed]
    by_cases h : recordType.val = txt "human_resolution"
    · rw [if_neg (by simp [h]), if_pos h]
      rfl
    · rw [if_pos (by simp [h]), if_neg h]
  rw [Platform.resolvedIn, if_neg (by rw [strip_line]; exact line_ne_nil _), strip_line, hon]
  split <;> rfl

/-- A recorder that has just been started on the log of one entry. -/
def sampleRecorder (recordType : FieldText 1 (some 100)) : Recorder Unit Unit :=
  ⟨some (sampleContent recordType firstPolicy), none, none, []⟩

theorem resolved_entry (recordType : FieldText 1 (some 100)) (hplain : Plain recordType.val) :
    (samplePlatform.resolvedDecisionIds PyValue.plainInterpreter ∅ none (sampleRecorder recordType)).map
        Prod.fst =
      .ok (if recordType.val = txt "human_resolution" then {sampleUuid} else ∅) := by
  have hids := ensureResolvedIds_holds PyValue.plainInterpreter
    (sampleContent_holds hplain (plain_txt "1" : Plain firstPolicy.val)) ∅
    (r := sampleRecorder recordType) rfl rfl
  change (samplePlatform.ensureResolvedIds PyValue.plainInterpreter ∅ (sampleRecorder recordType)).map
    Prod.fst = _
  rw [hids, List.map_singleton, resolvedIn_entry]
  split <;> rfl

/-- A decision that is turned into its own resolution: both chains are valid and end in one
hash, and only the second hides the decision. -/
theorem envelope_unbound :
    (verifyEvidenceChain samplePlatform.jsonLoads [sampleEntry decisionType firstPolicy]).isValid = true ∧
    (verifyEvidenceChain samplePlatform.jsonLoads [sampleEntry resolutionType firstPolicy]).isValid = true ∧
    lastRecordHash [sampleEntry decisionType firstPolicy] =
      lastRecordHash [sampleEntry resolutionType firstPolicy] ∧
    decisionType ≠ resolutionType ∧
    (samplePlatform.resolvedDecisionIds PyValue.plainInterpreter ∅ none (sampleRecorder decisionType)).map
        Prod.fst = .ok ∅ ∧
    (samplePlatform.resolvedDecisionIds PyValue.plainInterpreter ∅ none (sampleRecorder resolutionType)).map
        Prod.fst = .ok {sampleUuid} := by
  have hdecision : decisionType.val ≠ txt "human_resolution" := by decide
  refine ⟨(verifyEvidenceChain_isValid _).mpr (sampleEntry_linked _ _),
    (verifyEvidenceChain_isValid _).mpr (sampleEntry_linked _ _), rfl,
    fun h => hdecision (congrArg Subtype.val h), ?_, ?_⟩
  · rw [resolved_entry decisionType (plain_txt _), if_neg hdecision]
  · rw [resolved_entry resolutionType (plain_txt _)]
    rfl

end TexGovernance.Evidence
