import TexGovernance.Evidence.Recorder

/-!
# The readers and the lines of the evidence log

`read_contract_violations`, `resolved_decision_ids` and `decode_payload` of
`evidence/recorder.py`.
-/

namespace TexGovernance.Evidence
open PyStr PyBytes PyCodec PyDict JsonLoads TextFile
open PyValue (Interpreter Raised Members isText)

variable {Id Time : Type} (p : Platform Id Time) (py : Interpreter)

/-- `decode_payload`; its `ValueError` is one for what is no JSON and for what is no object. -/
def Platform.decodePayload (record : EvidenceRecord Id Time) : Except Raised Members :=
  match p.loads record.payloadJson.val with
  | .ok (.obj members) => .ok members
  | .ok _ => .error (.py .valueError)
  | .error e => .error (.py e)

/-- Whether a record passes the filters of `read_contract_violations`. -/
def Platform.isViolation (decisionId contractId : Option Str) (record : EvidenceRecord Id Time) :
    Except Raised Bool :=
  if record.recordType.val ≠ txt "contract_violation" then .ok false
  else if ∃ d ∈ decisionId, p.uuidText record.decisionId ≠ d then .ok false
  else
    match contractId with
    | none => .ok true
    | some contract =>
      match p.decodePayload record with
      | .error (.py .valueError) => .ok false
      | .error e => .error e
      | .ok payload => .ok (isText (PyValue.get (txt "contract_id") payload) contract)

/-- The records of a log that `read_contract_violations` returns. -/
def Platform.violationsIn (decisionId contractId : Option Str) :
    List (EvidenceRecord Id Time) → Except Raised (List (EvidenceRecord Id Time))
  | [] => .ok []
  | record :: rest => do
    let found ← p.isViolation decisionId contractId record
    let more ← Platform.violationsIn decisionId contractId rest
    return if found then record :: more else more

inductive QueryFailure where
  | log (failure : ReadFailure)
  | payload (e : Raised)

def Platform.readContractViolations (drawn : ℕ → Id × Time) (file : Option Bytes)
    (decisionId contractId : Option Str) : Except QueryFailure (List (EvidenceRecord Id Time)) := do
  let records ← (p.readAll drawn file).mapError .log
  (p.violationsIn decisionId contractId records).mapError .payload

/-- `str(value or "")`. -/
def textOrEmpty (v : JsonValue) : Except Raised Str := PyValue.str py (PyValue.orEmpty py v)

def Platform.payloadDecisionId (envelope : Members) : Except Raised Str :=
  let source := PyValue.get (txt "payload_json") envelope
  match if PyValue.truthy py source then source else .str (txt "\x7b\x7d") with
  | .str text =>
    match p.loads text with
    | .ok (.obj payload) => textOrEmpty py (PyValue.get (txt "decision_id") payload)
    | .ok _ => .error .typeError
    | .error .valueError => .ok []
    | .error e => .error (.py e)
  | _ => .error .typeError

def Platform.resolvedOn (line : Str) : Except Raised (Option Str) :=
  match p.loads line with
  | .error .valueError => .ok none
  | .error e => .error (.py e)
  | .ok (.obj envelope) =>
    if isText (PyValue.get (txt "record_type") envelope) (txt "human_resolution") = false then .ok none
    else do
      let named ← textOrEmpty py (PyValue.get (txt "decision_id") envelope)
      let decision ← if named ≠ [] then pure named else p.payloadDecisionId py envelope
      return if decision = [] then none else some decision
  | .ok _ => .error .typeError

def Platform.resolvedIn : List Str → Except Raised (Finset Str)
  | [] => .ok ∅
  | rawLine :: rest => do
    let decision ← if strip rawLine = [] then pure none else p.resolvedOn py (strip rawLine)
    let more ← Platform.resolvedIn rest
    return decision.toFinset ∪ more

/-- `_ensure_resolved_ids_cache`; `durable` is what the mirror gives. -/
def Platform.ensureResolvedIds (durable : Finset Str) (r : Recorder Id Time) :
    Except Raised (Finset Str × Recorder Id Time) :=
  match r.resolvedIds with
  | some ids => .ok (ids, r)
  | none => do
    let found ← match r.file with
      | none => pure ∅
      | some content => do
        let text ← PyValue.raising (utf8Decode content)
        p.resolvedIn py (splitLines text)
    let ids := durable ∪ found
    return (ids, { r with resolvedIds := some ids })

/-- `resolved_decision_ids`, for the texts of the candidates. -/
def Platform.resolvedDecisionIds (durable : Finset Str) (candidateIds : Option (List Str))
    (r : Recorder Id Time) : Except Raised (Finset Str × Recorder Id Time) :=
  match candidateIds with
  | some [] => .ok (∅, r)
  | none => p.ensureResolvedIds py durable r
  | some candidates => do
    let (ids, r) ← p.ensureResolvedIds py durable r
    return (candidates.toFinset ∩ ids, r)

end TexGovernance.Evidence

namespace TexGovernance.Evidence
open PyStr PyBytes PyCodec PyRepr PyDict Sha256 JsonDoc JsonLoads TextFile
open JsonText (Tame ReadsBack keepChars sortKeys)
open PyValue (shortInts)

variable {Id Time : Type} {p : Platform Id Time}

theorem requiredText_val {low : ℕ} {high : Option ℕ} (s : FieldText low high) :
    requiredText low high s.val = .ok s := by
  obtain ⟨s, hstrip, hne, hlow, hhigh⟩ := s
  unfold requiredText
  simp only [hstrip]
  exact dif_pos ⟨hne, hlow, hhigh⟩

theorem requiredText_ok {low : ℕ} {high : Option ℕ} {value : Str} {s : FieldText low high}
    (h : requiredText low high value = .ok s) : s.val = strip value := by
  unfold requiredText at h
  split at h
  · rw [← Except.ok.inj h]
  · cases h

theorem optionalHash_scalar (o : Option Sha256Hex) :
    optionalHash (some (valueOf (hashScalar o))) = .ok o := by
  cases o with
  | none => rfl
  | some h =>
    change some <$> normalizeHash h.val = _
    rw [normalizeHash_val]
    rfl

theorem fst_modelDump (record : EvidenceRecord Id Time) :
    (p.modelDump record).map Prod.fst = recordFields := rfl

theorem get?_modelDump (record : EvidenceRecord Id Time) : ∀ m ∈ p.modelDump record,
    (Dict.ofItems ((p.modelDump record).map fun m => (m.1, valueOf m.2))).get? m.1 =
      some (valueOf m.2) := by
  have hnames : ((p.modelDump record).map Prod.fst).Nodup := by
    rw [fst_modelDump]
    decide
  exact fun m hm => Dict.get?_ofItems_of_nodup (by rw [List.map_map]; exact hnames)
    (List.mem_map_of_mem hm)

theorem modelValidate_modelDump (record : EvidenceRecord Id Time) (newId : Id) (now : Time) :
    p.modelValidate newId now
      (.obj ((p.modelDump record).map fun m => (m.1, valueOf m.2))) = .ok record := by
  have hknown : ¬∃ k ∈ (Dict.ofItems
      ((p.modelDump record).map fun m => (m.1, valueOf m.2))).keys, k ∉ recordFields := by
    rintro ⟨k, hk, hunknown⟩
    have hmem := Dict.mem_keys_ofItems hk
    rw [List.map_map] at hmem
    exact hunknown (by rw [← fst_modelDump (p := p) record]; exact hmem)
  have hget := get?_modelDump (p := p) record
  unfold Platform.modelValidate
  simp only [if_neg hknown]
  generalize Dict.ofItems ((p.modelDump record).map fun m => (m.1, valueOf m.2)) = data at hget
  unfold Platform.modelDump at hget
  simp only [List.forall_mem_cons, List.not_mem_nil, false_imp_iff, implies_true, and_true] at hget
  obtain ⟨hdecision, hevidence, hpayload, hpayloadSha, hpolicy, hprevious, hrecordHash, htype, hat,
    hrequest⟩ := hget
  have hvalue : ∀ s, valueOf (.str s) = .str s := fun _ => rfl
  have htext : ∀ s, textOf (some (.str s)) = .ok s := fun _ => rfl
  have huuid : ∀ id, p.uuid (.text (p.uuidText id)) = .ok id := fun id => by
    simp only [Platform.uuid, p.uuid_back]
  have hok : ∀ {α β : Type} (a : α) (f : α → Except PyErr β), (Except.ok a >>= f) = f a :=
    fun _ _ => rfl
  simp only [hdecision, hevidence, hpayload, hpayloadSha, hpolicy, hprevious, hrecordHash, htype, hat,
    hrequest, hvalue, htext, hok, huuid, requiredText_val, normalizeHash_val, optionalHash_scalar,
    p.time_back]
  rfl

theorem short_modelDump (record : EvidenceRecord Id Time) : ∀ m ∈ p.modelDump record,
    Short m.2 := by
  unfold Platform.modelDump
  simp only [List.forall_mem_cons, List.not_mem_nil, false_imp_iff, implies_true, and_true]
  refine ⟨trivial, trivial, trivial, trivial, trivial, ?_, trivial, trivial, trivial, trivial⟩
  cases record.previousHash with
  | none => trivial
  | some h => trivial

theorem loads_line (record : EvidenceRecord Id Time) : p.loads (p.line record) =
    .ok (.obj ((p.modelDump record).map fun m => (m.1, valueOf m.2))) :=
  loads_writeObject p.frames (List.cons_ne_nil _ _) (short_modelDump record)

theorem strip_line (record : EvidenceRecord Id Time) :
    strip (p.line record) = p.line record := strip_writeObject _

theorem line_ne_nil (record : EvidenceRecord Id Time) : p.line record ≠ [] :=
  List.cons_ne_nil _ _

theorem noBreak_line (record : EvidenceRecord Id Time) : NoBreak (p.line record) := by
  intro c hc
  have hprint : 0x20 ≤ c.val := printable_writeObject _ c hc
  constructor
  · rintro rfl
    exact absurd hprint (by decide)
  · rintro rfl
    exact absurd hprint (by decide)

theorem readLines_map (drawn : ℕ → Id × Time) (lineNumber : ℕ)
    (records : List (EvidenceRecord Id Time)) :
    p.readLines drawn lineNumber (records.map p.line) = .ok records := by
  induction records generalizing lineNumber with
  | nil => rfl
  | cons record rest ih =>
    have hne : strip (p.line record) ≠ [] := by
      rw [strip_line]
      exact line_ne_nil record
    have hrest := ih (lineNumber + 1)
    rw [List.map_cons, Platform.readLines, if_neg hne, strip_line, loads_line]
    simp only [bind, Except.bind, modelValidate_modelDump, hrest]
    rfl

theorem lastNonEmptyLine_map (records : List (EvidenceRecord Id Time)) :
    lastNonEmptyLine (records.map p.line) = records.getLast?.map p.line := by
  unfold lastNonEmptyLine
  induction records using List.reverseRecOn with
  | nil => rfl
  | append_singleton records record ih =>
    have hne : strip (p.line record) ≠ [] := by
      rw [strip_line]
      exact line_ne_nil record
    rw [List.map_append, List.foldl_append, List.getLast?_concat, List.map_singleton, List.foldl_cons,
      List.foldl_nil, if_neg hne, strip_line]
    rfl

inductive FloatsRead : JsonValue → Prop
  | null : FloatsRead .null
  | bool (b : Bool) : FloatsRead (.bool b)
  | int (z : ℤ) : FloatsRead (.int z)
  | float {text : Str} (h : ReadsBack text) : FloatsRead (.float text)
  | str (s : Str) : FloatsRead (.str s)
  | arr {items : List JsonValue} (h : ∀ x ∈ items, FloatsRead x) : FloatsRead (.arr items)
  | obj {members : List (Str × JsonValue)} (h : ∀ m ∈ members, FloatsRead m.2) : FloatsRead (.obj members)

theorem nesting_items {items : List JsonValue} {depth : ℕ} (h : nestingItems items ≤ depth) :
    ∀ x ∈ items, nesting x ≤ depth := by
  induction items with
  | nil => exact List.forall_mem_nil _
  | cons x xs ih =>
    rw [nestingItems, max_le_iff] at h
    exact List.forall_mem_cons.mpr ⟨h.1, ih h.2⟩

theorem nesting_members {members : List (Str × JsonValue)} {depth : ℕ}
    (h : nestingMembers members ≤ depth) : ∀ m ∈ members, nesting m.2 ≤ depth := by
  induction members with
  | nil => exact List.forall_mem_nil _
  | cons m ms ih =>
    rw [nestingMembers, max_le_iff] at h
    exact List.forall_mem_cons.mpr ⟨h.1, ih h.2⟩

theorem short_items {items : List JsonValue} (h : PyValue.shortItems items = true) :
    ∀ x ∈ items, shortInts x = true := by
  induction items with
  | nil => exact List.forall_mem_nil _
  | cons x xs ih =>
    rw [PyValue.shortItems, Bool.and_eq_true] at h
    exact List.forall_mem_cons.mpr ⟨h.1, ih h.2⟩

theorem short_members {members : List (Str × JsonValue)} (h : PyValue.shortMembers members = true) :
    ∀ m ∈ members, shortInts m.2 = true := by
  induction members with
  | nil => exact List.forall_mem_nil _
  | cons m ms ih =>
    rw [PyValue.shortMembers, Bool.and_eq_true] at h
    exact List.forall_mem_cons.mpr ⟨h.1, ih h.2⟩

theorem FloatsRead.tame {v : JsonValue} (h : FloatsRead v) {depth : ℕ} (hshort : shortInts v = true)
    (hdepth : nesting v ≤ depth) : Tame depth v := by
  induction h generalizing depth with
  | null => exact .null
  | bool b => exact .bool b
  | int z => exact .int (of_decide_eq_true hshort)
  | float h => exact .float h
  | str s => exact .str s
  | @arr items _ ih =>
    obtain ⟨depth, rfl⟩ := Nat.exists_eq_add_of_le' (show 1 ≤ depth from le_trans (by simp [nesting]) hdepth)
    have hitems := nesting_items (Nat.le_of_succ_le_succ hdepth)
    exact .arr fun x hx => ih x hx (short_items hshort x hx) (hitems x hx)
  | @obj members _ ih =>
    obtain ⟨depth, rfl⟩ := Nat.exists_eq_add_of_le' (show 1 ≤ depth from le_trans (by simp [nesting]) hdepth)
    have hmembers := nesting_members (Nat.le_of_succ_le_succ hdepth)
    exact .obj fun m hm => ih m hm (short_members hshort m hm) (hmembers m hm)

theorem mem_ofItems {items : List (Str × JsonValue)} {m : Str × JsonValue}
    (h : m ∈ (Dict.ofItems items).items) : m ∈ items :=
  Dict.mem_of_get?_ofItems ((Dict.get?_eq_some_iff _ m.1 m.2).mpr h)

mutual

theorem floatsRead_makeJsonSafe : ∀ v : PayloadValue, FloatsRead (makeJsonSafe v)
  | .none => .null
  | .bool b => .bool b
  | .int z => .int z
  | .float text => .float text.property
  | .str s => .str s
  | .text s => .str s
  | .member value shown => by
    rw [makeJsonSafe]
    cases value with
    | bool b => exact .bool b
    | int z => exact .int z
    | float text => exact .float text.property
    | str s => exact .str s
    | _ => exact .str shown
  | .model dump => by
    rw [makeJsonSafe]
    exact floatsRead_makeJsonSafe dump
  | .dict items => by
    rw [makeJsonSafe]
    exact .obj fun m hm => floatsRead_safeMembers items m (mem_ofItems hm)
  | .list items => by
    rw [makeJsonSafe]
    exact .arr (floatsRead_safeItems items)

theorem floatsRead_safeItems : ∀ items : List PayloadValue, ∀ x ∈ safeItems items, FloatsRead x
  | [] => List.forall_mem_nil _
  | x :: xs => by
    rw [safeItems]
    exact List.forall_mem_cons.mpr ⟨floatsRead_makeJsonSafe x, floatsRead_safeItems xs⟩

theorem floatsRead_safeMembers : ∀ items : List (Str × PayloadValue),
    ∀ m ∈ safeMembers items, FloatsRead m.2
  | [] => List.forall_mem_nil _
  | (_, x) :: xs => by
    rw [safeMembers]
    exact List.forall_mem_cons.mpr ⟨floatsRead_makeJsonSafe x, floatsRead_safeMembers xs⟩

end

theorem floatsRead_set {payload : Dict Str JsonValue} (h : ∀ m ∈ payload.items, FloatsRead m.2)
    (k : Str) {v : JsonValue} (hv : FloatsRead v) : ∀ m ∈ (payload.set k v).items, FloatsRead m.2 := by
  rintro ⟨k', w⟩ hm
  have hget := (Dict.get?_eq_some_iff _ _ _).mpr hm
  rw [Dict.get?_set] at hget
  split at hget
  · rw [← Option.some.inj hget]
    exact hv
  · exact h _ ((Dict.get?_eq_some_iff _ _ _).mp hget)

theorem floatsRead_signPayload (signer : Option ChainSigner) (signedAt : Str)
    {payload : Dict Str JsonValue} (h : ∀ m ∈ payload.items, FloatsRead m.2) :
    ∀ m ∈ (p.signPayload signer signedAt payload).items, FloatsRead m.2 := by
  unfold Platform.signPayload
  cases signer with
  | none => exact h
  | some signer =>
    simp only
    split
    · next block hblock =>
      refine floatsRead_set h _ (.obj fun m hm => ?_)
      obtain ⟨e, -, rfl⟩ := List.mem_map.mp hm
      exact .str e.2
    · exact h

theorem writeMembers_last (members : List (Str × JsonValue)) :
    ∃ t, JsonText.writeMembers keepChars members = t ++ [cp '\x7d'] := by
  induction members with
  | nil => exact ⟨[], rfl⟩
  | cons m rest ih =>
    obtain ⟨t, ht⟩ := ih
    exact ⟨cp ',' :: (keepChars.quote m.1 ++ cp ':' :: (JsonText.write keepChars m.2 ++ t)), by
      rw [JsonText.writeMembers, ht]
      simp⟩

theorem strip_braces (t : Str) : strip (cp '\x7b' :: (t ++ [cp '\x7d'])) = cp '\x7b' :: (t ++ [cp '\x7d']) := by
  have hopen : ¬isspace (cp '\x7b') = true := by decide
  have hclose : ¬isspace (cp '\x7d') = true := by decide
  rw [strip, List.dropWhile_cons_of_neg hopen, ← List.cons_append,
    List.rdropWhile_concat_neg _ _ _ hclose]

theorem strip_dumps (members : List (Str × JsonValue)) :
    strip (JsonText.dumps keepChars (.obj members)) = JsonText.dumps keepChars (.obj members) := by
  obtain ⟨t, ht⟩ : ∃ t, JsonText.dumps keepChars (.obj members) = cp '\x7b' :: (t ++ [cp '\x7d']) := by
    unfold JsonText.dumps
    rw [sortKeys]
    cases JsonText.byName (JsonText.sortMembers members) with
    | nil => exact ⟨[], rfl⟩
    | cons m rest =>
      obtain ⟨t, ht⟩ := writeMembers_last rest
      exact ⟨keepChars.quote m.1 ++ cp ':' :: (JsonText.write keepChars m.2 ++ t), by
        rw [JsonText.write, ht]
        simp⟩
  rw [ht, strip_braces]

theorem jsonLoads_dumps {members : List (Str × JsonValue)}
    (htame : Tame (p.frames + 1) (.obj members)) :
    ∃ sorted, p.jsonLoads (JsonText.dumps keepChars (.obj members)) = .ok (.obj sorted) := by
  refine ⟨JsonText.byName (JsonText.sortMembers members), ?_⟩
  have hloads : p.loads (JsonText.dumps keepChars (.obj members)) =
      .ok (sortKeys (.obj members)) := JsonText.loads_keepChars (PyValue.tame_sortKeys htame)
  unfold Platform.jsonLoads
  rw [hloads, sortKeys]

theorem nextRecord_ok {call : AppendCall Id Time} {previousHash : Option Sha256Hex}
    {record : EvidenceRecord Id Time} (h : p.nextRecord call previousHash = .ok record) :
    Sound p.jsonLoads record ∧ record.previousHash = previousHash ∧
      record.recordType.val = strip call.recordType ∧
      record.policyVersion.val = strip call.policyVersion := by
  obtain ⟨payloadJson, hjson, h⟩ := Pipeline.bind_ok h
  obtain ⟨payloadSha256, hpayload, h⟩ := Pipeline.bind_ok h
  obtain ⟨recordHash, hrecord, h⟩ := Pipeline.bind_ok h
  obtain ⟨decisionId, -, h⟩ := Pipeline.bind_ok h
  obtain ⟨requestId, -, h⟩ := Pipeline.bind_ok h
  obtain ⟨recordType, htype, h⟩ := Pipeline.bind_ok h
  obtain ⟨payloadField, hfield, h⟩ := Pipeline.bind_ok h
  obtain ⟨policyVersion, hpolicy, h⟩ := Pipeline.bind_ok h
  obtain ⟨hplain, rfl⟩ := sha256Hex_ok_iff.mp hpayload
  rw [buildRecordHash_eq] at hrecord
  have hsafe : ∀ m ∈ (Dict.ofItems (safeMembers call.payload)).items, FloatsRead m.2 :=
    fun m hm => floatsRead_safeMembers call.payload m (mem_ofItems hm)
  have hfloats := floatsRead_signPayload (p := p) call.chainSigner call.signedAt hsafe
  generalize p.signPayload call.chainSigner call.signedAt
    (Dict.ofItems (safeMembers call.payload)) = payload at hjson hfloats
  unfold Platform.stableJson at hjson
  split at hjson
  · cases hjson
  · next hshort =>
    split at hjson
    · next hdepth =>
      rw [Bool.not_eq_false] at hshort
      obtain ⟨sorted, hobject⟩ := jsonLoads_dumps (p := p)
        ((FloatsRead.obj hfloats).tame hshort hdepth)
      have hval : payloadField.val = payloadJson := by
        rw [requiredText_ok hfield, ← Except.ok.inj hjson, strip_dumps]
      rw [← Except.ok.inj h]
      refine ⟨⟨?_, ?_, ?_, sorted, ?_⟩, rfl, requiredText_ok htype, requiredText_ok hpolicy⟩
      · exact hval.symm ▸ hplain
      · change hexDigest (utf8 payloadJson) = hexDigest (utf8 payloadField.val)
        rw [hval]
      · exact (Except.ok.inj hrecord).symm
      · change p.jsonLoads payloadField.val = _
        rw [hval, ← Except.ok.inj hjson]
        exact hobject
    · cases hjson

end TexGovernance.Evidence
