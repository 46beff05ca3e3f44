import TexGovernance.Evidence.EnvelopeBinding

/-!
# The index of resolved decisions

The index of `resolved_decision_ids` is built from the file at the first lookup and grows with the
arguments of later appends.
-/

namespace TexGovernance.Evidence
open PyStr PyBytes PyCodec PyRepr PyDict Sha256 JsonDoc JsonLoads TextFile Actions
open PyValue (Interpreter Raised isText)

variable {Id Time : Type} (p : Platform Id Time) (py : Interpreter)

/-- `_durable_resolved_ids`, for what the reader of the mirror returns or raises; `none` is a
mirror without one. -/
def durableResolvedIds (reader : Option (Except Raised (List Str))) : Finset Str :=
  match reader with
  | some (.ok ids) => (ids.filter fun id => id ≠ []).toFinset
  | _ => ∅

/-- The decisions that the resolutions among the records name. -/
def Platform.sealedIds (records : List (EvidenceRecord Id Time)) : Finset Str :=
  ((records.filter fun record => record.recordType.val = txt "human_resolution").map
    fun record => p.uuidText record.decisionId).toFinset

inductive IndexEvent (Id Time : Type) where
  | append (call : AppendCall Id Time) (fate : WriteFate)
  | lookup (candidateIds : Option (List Str))

def indexStep (durable : Finset Str) (r : Recorder Id Time) : IndexEvent Id Time → Recorder Id Time
  | .append call fate => after (p.append call fate) r
  | .lookup candidateIds =>
    match p.resolvedDecisionIds py durable candidateIds r with
    | .ok (_, r') => r'
    | .error _ => r

def Indexable (r : Recorder Id Time) : IndexEvent Id Time → Prop
  | .append call fate => (∀ count, fate ≠ .stops count) ∧
      (r.resolvedIds ≠ none → strip call.recordType = txt "human_resolution" →
        ∀ id, p.uuid call.decisionId = .ok id →
          call.recordType = txt "human_resolution" ∧ p.idText call.decisionId = some (p.uuidText id))
  | .lookup _ => True

def IndexableRun (durable : Finset Str) : Recorder Id Time → List (IndexEvent Id Time) → Prop
  | _, [] => True
  | r, e :: rest => Indexable p r e ∧ IndexableRun durable (indexStep p py durable r e) rest

variable {p} {py}

theorem resolvedOn_line (huuid : ∀ id, p.uuidText id ≠ []) (record : EvidenceRecord Id Time) :
    p.resolvedOn py (p.line record) = .ok
      (if record.recordType.val = txt "human_resolution" then some (p.uuidText record.decisionId) else none) := by
  obtain ⟨htype, hdecision, -⟩ := get_envelope_fields (p := p) record
  have hloads : p.loads (p.line record) = .ok (.obj (p.envelopeOf record)) := loads_line record
  have hnamed : textOrEmpty py (.str (p.uuidText record.decisionId)) = .ok (p.uuidText record.decisionId) := by
    unfold textOrEmpty PyValue.orEmpty PyValue.truthy
    rw [if_pos (by simp [huuid])]
    rfl
  unfold Platform.resolvedOn
  rw [hloads]
  simp only [htype, hdecision]
  change (if decide (record.recordType.val = txt "human_resolution") = false then .ok none
    else textOrEmpty py (.str (p.uuidText record.decisionId)) >>= _) = _
  rw [hnamed]
  by_cases h : record.recordType.val = txt "human_resolution"
  · rw [if_neg (by simp [h]), if_pos h]
    simp only [bind, Except.bind, if_pos (huuid record.decisionId)]
    simp [pure, Except.pure, huuid]
  · rw [if_pos (by simp [h]), if_neg h]

theorem resolvedIn_lines (huuid : ∀ id, p.uuidText id ≠ []) (records : List (EvidenceRecord Id Time)) :
    p.resolvedIn py (records.map p.line) = .ok (p.sealedIds records) := by
  induction records with
  | nil => rfl
  | cons record records ih =>
    rw [List.map_cons, Platform.resolvedIn, if_neg (by rw [strip_line]; exact line_ne_nil _), strip_line,
      resolvedOn_line huuid, ih]
    unfold Platform.sealedIds
    refine congrArg Except.ok ?_
    by_cases h : record.recordType.val = txt "human_resolution"
    · simp [h, Option.toFinset_some]
    · simp [h]

theorem nextRecord_decision {call : AppendCall Id Time} {previousHash : Option Sha256Hex}
    {record : EvidenceRecord Id Time} (h : p.nextRecord call previousHash = .ok record) :
    p.uuid call.decisionId = .ok record.decisionId := by
  obtain ⟨payloadJson, -, h⟩ := Pipeline.bind_ok h
  obtain ⟨payloadSha256, -, h⟩ := Pipeline.bind_ok h
  obtain ⟨recordHash, -, h⟩ := Pipeline.bind_ok h
  obtain ⟨decisionId, hdecision, h⟩ := Pipeline.bind_ok h
  obtain ⟨requestId, -, h⟩ := Pipeline.bind_ok h
  obtain ⟨recordType, -, h⟩ := Pipeline.bind_ok h
  obtain ⟨payloadField, -, h⟩ := Pipeline.bind_ok h
  obtain ⟨policyVersion, -, h⟩ := Pipeline.bind_ok h
  rw [hdecision, ← Except.ok.inj h]

def indexAfter (p : Platform Id Time) (call : AppendCall Id Time) (index : Option (Finset Str)) :
    Option (Finset Str) :=
  if call.recordType = txt "human_resolution" then
    index.map fun ids => ids ∪ (p.idText call.decisionId).toFinset
  else index

theorem writeLine_index {line : Str} {fate : WriteFate} {r r' : Recorder Id Time} {e : PyErr}
    (h : writeLine line fate r = .error e r') : r'.resolvedIds = r.resolvedIds := by
  unfold writeLine at h
  split at h
  · cases h
    rfl
  · cases h
    rfl
  · cases h
  · cases h
    rfl

theorem append_index (call : AppendCall Id Time) (fate : WriteFate) (r : Recorder Id Time) :
    match p.append call fate r with
    | .ok _ r' => r'.resolvedIds = indexAfter p call r.resolvedIds
    | .error _ r' => r'.resolvedIds = r.resolvedIds := by
  unfold Platform.append
  rw [bind_ok (show (get : RecorderAction Id Time _) r = .ok r r from rfl)]
  cases hnext : p.nextRecord call r.lastRecordHash with
  | error e => rfl
  | ok record =>
    rw [bind_ok (show (ofExcept (.ok record) : RecorderAction Id Time _) r = .ok record r from rfl)]
    cases hwrite : writeLine (p.line record) fate r with
    | error e r' =>
      rw [bind_error hwrite]
      exact writeLine_index hwrite
    | ok a r' =>
      have hsame : r'.resolvedIds = r.resolvedIds := by
        unfold writeLine at hwrite
        split at hwrite
        · cases hwrite
        · cases hwrite
        · cases hwrite
          rfl
        · cases hwrite
      rw [bind_ok hwrite]
      unfold indexAfter
      by_cases htype : call.recordType = txt "human_resolution"
      · cases hmirror : call.mirrorRaises with
        | false =>
          simp only [if_pos htype, ← hsame]
          rfl
        | true =>
          simp only [if_pos htype, ← hsame]
          rfl
      · cases hmirror : call.mirrorRaises with
        | false =>
          simp only [if_neg htype, ← hsame]
          rfl
        | true =>
          simp only [if_neg htype, ← hsame]
          rfl

theorem append_index_ok {call : AppendCall Id Time} {fate : WriteFate} {r r' : Recorder Id Time}
    {record : EvidenceRecord Id Time} (h : p.append call fate r = .ok record r') :
    r'.resolvedIds = indexAfter p call r.resolvedIds := by
  have hindex := append_index (p := p) call fate r
  rw [h] at hindex
  exact hindex

structure IndexInv (p : Platform Id Time) (durable : Finset Str) (r : Recorder Id Time)
    (records : List (EvidenceRecord Id Time)) : Prop where
  holds : p.Holds records (r.file.getD [])
  index : ∀ ids ∈ r.resolvedIds, ids = durable ∪ p.sealedIds records

variable {records : List (EvidenceRecord Id Time)}

theorem Platform.Holds.snoc {content : Bytes}
    (h : p.Holds records content) {record : EvidenceRecord Id Time} (hplain : Plain (p.line record)) :
    p.Holds (records ++ [record]) (content ++ utf8 (p.line record ++ [cp '\n'])) := by
  have hline := utf8Encode_eq (hplain.append (plain_singleton (isSurrogate_cp '\n')))
  have htext : p.logText (records ++ [record]) = p.logText records ++ (p.line record ++ [cp '\n']) := by
    unfold Platform.logText
    rw [List.flatMap_append, List.flatMap_singleton]
  unfold Platform.Holds
  rw [htext]
  exact utf8Encode_append h hline

theorem sealedIds_snoc (records : List (EvidenceRecord Id Time)) (record : EvidenceRecord Id Time) :
    p.sealedIds (records ++ [record]) = p.sealedIds records ∪
      if record.recordType.val = txt "human_resolution" then {p.uuidText record.decisionId} else ∅ := by
  unfold Platform.sealedIds
  by_cases h : record.recordType.val = txt "human_resolution"
  · simp [h]
  · simp [h]

theorem records_of_none (h : p.Holds records []) : records = [] := by
  have htext : p.logText records = [] := utf8Encode_inj _ _ _ h rfl
  cases records with
  | nil => rfl
  | cons record records => simp [Platform.logText] at htext

variable {r : Recorder Id Time} {durable : Finset Str}

theorem IndexInv.ensure (py : Interpreter) (huuid : ∀ id, p.uuidText id ≠ [])
    (h : IndexInv p durable r records) :
    ∃ r', p.ensureResolvedIds py durable r = .ok (durable ∪ p.sealedIds records, r') ∧
      IndexInv p durable r' records := by
  cases hindex : r.resolvedIds with
  | some ids =>
    refine ⟨r, ?_, h⟩
    unfold Platform.ensureResolvedIds
    rw [hindex, ← h.index ids hindex]
  | none =>
    refine ⟨{ r with resolvedIds := some (durable ∪ p.sealedIds records) }, ?_, h.holds, fun ids hids => ?_⟩
    · unfold Platform.ensureResolvedIds
      rw [hindex]
      simp only
      cases hfile : r.file with
      | none =>
        have hholds := h.holds
        rw [hfile] at hholds
        rw [records_of_none hholds]
        rfl
      | some content =>
        have hholds := h.holds
        rw [hfile, Option.getD_some] at hholds
        simp only
        rw [utf8Decode_encode hholds, PyValue.raising_ok]
        change (p.resolvedIn py (splitLines (p.logText records)) >>= fun found => _) = _
        rw [splitLines_logText, resolvedIn_lines huuid]
        rfl
    · exact (Option.some.inj hids).symm

theorem IndexInv.append (h : IndexInv p durable r records)
    {call : AppendCall Id Time} {fate : WriteFate} (hindexable : Indexable p r (.append call fate)) :
    ∃ records', IndexInv p durable (after (p.append call fate) r) records' := by
  obtain ⟨hwhole, hcanonical⟩ := hindexable
  have hindex := append_index (p := p) call fate r
  have hend := append_end (p := p) call fate r
  unfold after
  generalize p.append call fate r = result at hindex hend
  cases hend with
  | nothing hfile _ =>
    refine ⟨records, by rw [hfile]; exact h.holds, fun ids hids => h.index ids ?_⟩
    rwa [← hindex]
  | stopped count hfate => exact absurd hfate (hwhole count)
  | @returned record r' _ hnext hplain hfile _ =>
    refine ⟨records ++ [record], ?_, fun ids hids => ?_⟩
    · rw [hfile]
      exact h.holds.snoc hplain
    · simp only at hindex
      rw [hindex] at hids
      obtain ⟨-, -, htype, -⟩ := nextRecord_ok hnext
      have hdecision := nextRecord_decision hnext
      rw [sealedIds_snoc, htype]
      unfold indexAfter at hids
      by_cases hraw : call.recordType = txt "human_resolution"
      · rw [if_pos hraw] at hids
        obtain ⟨old, hold, rfl⟩ := Option.map_eq_some_iff.mp hids
        have hstrip : strip call.recordType = txt "human_resolution" := by
          rw [hraw]
          decide
        obtain ⟨-, htext⟩ := hcanonical (by rw [hold]; exact nofun) hstrip _ hdecision
        rw [htext, h.index old hold, if_pos hstrip, Finset.union_assoc]
        rfl
      · rw [if_neg hraw] at hids
        have hstrip : strip call.recordType ≠ txt "human_resolution" := fun hstrip =>
          hraw (hcanonical (by rw [show r.resolvedIds = some ids from hids]; exact nofun) hstrip _ hdecision).1
        rw [h.index ids hids, if_neg hstrip, Finset.union_empty]

theorem IndexInv.step (py : Interpreter) (huuid : ∀ id, p.uuidText id ≠ [])
    (h : IndexInv p durable r records)
    {e : IndexEvent Id Time} (hindexable : Indexable p r e) :
    ∃ records', IndexInv p durable (indexStep p py durable r e) records' := by
  cases e with
  | append call fate => exact h.append hindexable
  | lookup candidateIds =>
    obtain ⟨r', hensure, hinv⟩ := h.ensure py huuid
    unfold indexStep Platform.resolvedDecisionIds
    cases candidateIds with
    | none => exact ⟨records, by simp only [hensure]; exact hinv⟩
    | some candidates =>
      cases candidates with
      | nil => exact ⟨records, h⟩
      | cons c cs => exact ⟨records, by simp only [hensure]; exact hinv⟩

theorem IndexInv.run (py : Interpreter) (huuid : ∀ id, p.uuidText id ≠ [])
    (events : List (IndexEvent Id Time))
    (h : IndexInv p durable r records) (hrun : IndexableRun p py durable r events) :
    ∃ records', IndexInv p durable (events.foldl (indexStep p py durable) r) records' := by
  induction events generalizing r records with
  | nil => exact ⟨records, h⟩
  | cons e events ih =>
    obtain ⟨records', hnext⟩ := h.step py huuid hrun.1
    exact ih hnext hrun.2

theorem IndexInv.lookup (py : Interpreter) (huuid : ∀ id, p.uuidText id ≠ [])
    (h : IndexInv p durable r records)
    (candidateIds : Option (List Str)) :
    (p.resolvedDecisionIds py durable candidateIds r).map Prod.fst = .ok
      (match candidateIds with
        | none => durable ∪ p.sealedIds records
        | some candidates => candidates.toFinset ∩ (durable ∪ p.sealedIds records)) := by
  obtain ⟨r', hensure, -⟩ := h.ensure py huuid
  unfold Platform.resolvedDecisionIds
  cases candidateIds with
  | none =>
    simp only [hensure]
    rfl
  | some candidates =>
    cases candidates with
    | nil => simp [Except.map]
    | cons c cs =>
      simp only [hensure]
      rfl

/-- On a recorder with no index yet, whose file is a log of records: after a run
whose appends are indexable every lookup says what the records of the file say. -/
theorem resolved_index_exact (p : Platform Id Time) (py : Interpreter) (huuid : ∀ id, p.uuidText id ≠ [])
    (reader : Option (Except Raised (List Str))) {r : Recorder Id Time}
    {records : List (EvidenceRecord Id Time)} (hfile : p.Holds records (r.file.getD []))
    (hindex : r.resolvedIds = none) (events : List (IndexEvent Id Time))
    (hrun : IndexableRun p py (durableResolvedIds reader) r events) :
    ∃ records', p.Holds records'
        ((events.foldl (indexStep p py (durableResolvedIds reader)) r).file.getD []) ∧
      ∀ candidateIds, (p.resolvedDecisionIds py (durableResolvedIds reader) candidateIds
          (events.foldl (indexStep p py (durableResolvedIds reader)) r)).map Prod.fst = .ok
        (match candidateIds with
          | none => durableResolvedIds reader ∪ p.sealedIds records'
          | some candidates => candidates.toFinset ∩ (durableResolvedIds reader ∪ p.sealedIds records')) := by
  have hstart : IndexInv p (durableResolvedIds reader) r records :=
    ⟨hfile, fun ids hids => by rw [hindex] at hids; cases hids⟩
  obtain ⟨records', hinv⟩ := hstart.run py huuid events hrun
  exact ⟨records', hinv.holds, hinv.lookup py huuid⟩

def urnUuid : Str := txt "urn:uuid:" ++ sampleUuid

/-- As `samplePlatform`, but the identifier is also read from its URN. -/
def urnPlatform : Platform Unit Unit :=
  { samplePlatform with
    uuidOf := fun s => if s = sampleUuid ∨ s = urnUuid then some () else none
    uuid_back := fun _ => if_pos (.inl rfl) }

def resolveCall (decisionId : IdValue Unit) : AppendCall Unit Unit :=
  { sampleCall with decisionId, recordType := txt "human_resolution" }

def newRecorder : Recorder Unit Unit := ⟨none, none, none, []⟩

def resolveRun (decisionId : IdValue Unit) : List (IndexEvent Unit Unit) :=
  [.lookup none, .append (resolveCall decisionId) .done]

theorem resolved_index_sample :
    ∃ records, urnPlatform.Holds records (((resolveRun (.uuid ())).foldl
        (indexStep urnPlatform PyValue.plainInterpreter ∅) newRecorder).file.getD []) ∧
      ∀ candidateIds, (urnPlatform.resolvedDecisionIds PyValue.plainInterpreter ∅ candidateIds
          ((resolveRun (.uuid ())).foldl (indexStep urnPlatform PyValue.plainInterpreter ∅)
            newRecorder)).map Prod.fst = .ok
        (match candidateIds with
          | none => ∅ ∪ urnPlatform.sealedIds records
          | some candidates => candidates.toFinset ∩ (∅ ∪ urnPlatform.sealedIds records)) :=
  resolved_index_exact urnPlatform PyValue.plainInterpreter (fun _ => (by decide : sampleUuid ≠ [])) none
    (show urnPlatform.Holds [] [] from rfl) (r := newRecorder) rfl (resolveRun (.uuid ()))
    ⟨trivial, ⟨fun _ => nofun, fun _ _ id _ => ⟨rfl, rfl⟩⟩, trivial⟩

/-- The index is built on the empty file, the resolution names its decision by
its URN: the file then has the decision, and the lookup misses it. -/
theorem urn_resolution_missed : ∃ record,
    urnPlatform.readAll (fun _ => ((), ())) ((resolveRun (.text urnUuid)).foldl
        (indexStep urnPlatform PyValue.plainInterpreter ∅) newRecorder).file = .ok [record] ∧
    urnPlatform.sealedIds [record] = {sampleUuid} ∧
    (urnPlatform.resolvedDecisionIds PyValue.plainInterpreter ∅ (some [sampleUuid])
        ((resolveRun (.text urnUuid)).foldl (indexStep urnPlatform PyValue.plainInterpreter ∅)
          newRecorder)).map Prod.fst = .ok ∅ := by
  have hread : urnPlatform.uuid (.text urnUuid) = .ok () := by
    have hurn : urnPlatform.uuidOf urnUuid = some () := by
      change (if urnUuid = sampleUuid ∨ urnUuid = urnUuid then some () else none) = some ()
      exact if_pos (.inr rfl)
    simp only [Platform.uuid, hurn]
  obtain ⟨recordType, htype⟩ : ∃ t, requiredText 1 (some 100) (txt "human_resolution") = .ok t :=
    ⟨_, dif_pos (by decide)⟩
  obtain ⟨policyVersion, hversion⟩ : ∃ t, requiredText 1 (some 100) (txt "1") = .ok t :=
    ⟨_, dif_pos (by decide)⟩
  obtain ⟨record, hnext⟩ := bareCall_next urnPlatform (resolveCall (.text urnUuid)) rfl rfl hread
    (rfl : urnPlatform.uuid (.uuid ()) = .ok ()) htype hversion none
  obtain ⟨hsound, -, hrecordType, hpolicyVersion⟩ := nextRecord_ok hnext
  have htypeVal : record.recordType.val = txt "human_resolution" := by
    rw [hrecordType]
    decide
  have hplain : Plain (urnPlatform.line record) := by
    refine plain_line ?_ hsound.plain ?_
    · rw [htypeVal]
      exact plain_txt _
    · rw [hpolicyVersion]
      exact plain_strip (plain_txt _)
  -- the lookup leaves an empty index, which the append then extends
  obtain ⟨built, hbuilt⟩ : ∃ built : Recorder Unit Unit, built = { newRecorder with resolvedIds := some ∅ } :=
    ⟨_, rfl⟩
  have hnext' : urnPlatform.nextRecord (resolveCall (.text urnUuid)) built.lastRecordHash = .ok record := by
    rw [hbuilt]
    exact hnext
  obtain ⟨r', happend, hfile, -⟩ := append_done hnext' hplain
  have hindex := append_index_ok happend
  have hlookup : indexStep urnPlatform PyValue.plainInterpreter ∅ newRecorder (.lookup none) = built := by
    rw [hbuilt]
    unfold indexStep Platform.resolvedDecisionIds Platform.ensureResolvedIds
    rfl
  have hrun : (resolveRun (.text urnUuid)).foldl
      (indexStep urnPlatform PyValue.plainInterpreter ∅) newRecorder = r' := by
    rw [resolveRun, List.foldl_cons, hlookup, List.foldl_cons, List.foldl_nil, indexStep]
    exact after_of_ok happend
  have hindex' : r'.resolvedIds = some {urnUuid} := by
    rw [hbuilt] at hindex
    exact hindex
  refine ⟨record, ?_, ?_, ?_⟩
  · rw [hrun, hfile, hbuilt]
    exact (Platform.Holds.snoc (show urnPlatform.Holds [] [] from rfl) hplain).readAll _
  · unfold Platform.sealedIds
    simp [htypeVal]
    rfl
  · rw [hrun]
    unfold Platform.resolvedDecisionIds Platform.ensureResolvedIds
    rw [hindex']
    have hempty : [sampleUuid].toFinset ∩ {urnUuid} = ∅ := by decide
    exact congrArg Except.ok hempty

end TexGovernance.Evidence
