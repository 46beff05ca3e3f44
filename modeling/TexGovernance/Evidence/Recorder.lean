import TexGovernance.Evidence.ChainComposition
import TexGovernance.Lib.Actions
import TexGovernance.Lib.PyDict
import TexGovernance.Lib.PyValue
import TexGovernance.Lib.TextFile
import Mathlib.Data.Finset.Option

/-!
# The evidence recorder

`EvidenceRecorder` of `evidence/recorder.py` on the bytes of its file, and the seal of
`evidence/seal.py`. Writing may fail: of the line and its end a prefix may reach the file
before the call raises.
-/

namespace TexGovernance.Evidence
open PyStr PyBytes PyCodec PyRepr PyDict Sha256 JsonDoc JsonLoads TextFile Actions
open JsonText (Tame ReadsBack keepChars sortKeys)
open PyValue (shortInts)

structure Platform (Id Time : Type) where
  frames : ℕ
  uuidText : Id → Str
  uuidOf : Str → Option Id
  timeText : Time → Str
  timeOf : JsonValue → Option Time
  uuid_back : ∀ id, uuidOf (uuidText id) = some id
  uuid_plain : ∀ id, Plain (uuidText id)
  time_back : ∀ t, timeOf (.str (timeText t)) = some t
  time_plain : ∀ t, Plain (timeText t)

variable {Id Time : Type} (p : Platform Id Time)

def Platform.loads (s : Str) : Except PyErr JsonValue := JsonLoads.loads (p.frames + 1) s

/-- `json.loads` as the verifier of the chain tells its exceptions apart. -/
def Platform.jsonLoads (s : Str) : Except LoadFailure JsonValue :=
  match p.loads s with
  | .ok v => .ok v
  | .error .valueError => .error .jsonDecodeError
  | .error e => .error (.other (className e))

/-- `float.__repr__` of a float; the scanner reads it back. -/
abbrev FloatText := { text : Str // ReadsBack text }

/-- A value in a payload: `text` is a path, a time, or what has only its `str`; an
enumeration member comes with its value and its `str`, a model with its dump, and the keys
of a dictionary are the `str` of its keys. -/
inductive PayloadValue where
  | none
  | bool (b : Bool)
  | int (z : ℤ)
  | float (text : FloatText)
  | str (s : Str)
  | text (s : Str)
  | member (value : PayloadValue) (shown : Str)
  | model (dump : PayloadValue)
  | dict (items : List (Str × PayloadValue))
  | list (items : List PayloadValue)

/-- The values that pass `isinstance(value, (str, int, float, bool))`. -/
def scalarOf : PayloadValue → Option JsonValue
  | .bool b => some (.bool b)
  | .int z => some (.int z)
  | .float text => some (.float text.val)
  | .str s => some (.str s)
  | _ => Option.none

mutual

def makeJsonSafe : PayloadValue → JsonValue
  | .none => .null
  | .bool b => .bool b
  | .int z => .int z
  | .float text => .float text.val
  | .str s => .str s
  | .text s => .str s
  | .member value shown => (scalarOf value).getD (.str shown)
  | .model dump => makeJsonSafe dump
  | .dict items => .obj (Dict.ofItems (safeMembers items)).items
  | .list items => .arr (safeItems items)

def safeItems : List PayloadValue → List JsonValue
  | [] => []
  | x :: xs => makeJsonSafe x :: safeItems xs

def safeMembers : List (Str × PayloadValue) → List (Str × JsonValue)
  | [] => []
  | (k, x) :: xs => (k, makeJsonSafe x) :: safeMembers xs

end

mutual

def nesting : JsonValue → ℕ
  | .arr items => nestingItems items + 1
  | .obj members => nestingMembers members + 1
  | _ => 0

def nestingItems : List JsonValue → ℕ
  | [] => 0
  | x :: xs => max (nesting x) (nestingItems xs)

def nestingMembers : List (Str × JsonValue) → ℕ
  | [] => 0
  | (_, x) :: xs => max (nesting x) (nestingMembers xs)

end

/-- `json.dumps(.., ensure_ascii=False)`: writing shares the recursion limit with reading,
and the limit of `int.__repr__`. -/
def Platform.stableJson (v : JsonValue) : Except PyErr Str :=
  if shortInts v = false then .error .valueError
  else if nesting v ≤ p.frames + 1 then .ok (JsonText.dumps keepChars v)
  else .error .other

def pqSignatureField : Str := txt "pq_signature"

def layoutVersion : Str := txt "1"

structure ChainSigner where
  algorithm : Str
  keyId : Str
  publicKey : Bytes
  sign : Bytes → Except PyErr Bytes

def Platform.signingDigest (payload : Dict Str JsonValue) : Except PyErr Bytes := do
  let canonical ← p.stableJson (.obj (payload.items.filter fun e => e.1 ≠ pqSignatureField))
  let bytes ← utf8Encode canonical
  return (sha256 bytes).bytes

/-- The block of a seal made at `signedAt`. -/
def ChainSigner.signPayload (signer : ChainSigner) (signedAt : Str) (payload : Dict Str JsonValue) :
    Except PyErr (List (Str × Str)) := do
  let digest ← p.signingDigest payload
  let signature ← signer.sign digest
  return [(txt "layout", layoutVersion), (txt "algorithm", signer.algorithm),
    (txt "key_id", signer.keyId), (txt "signature_b64", b64encode signature),
    (txt "public_key_b64", b64encode signer.publicKey), (txt "signed_digest_sha256", hex digest),
    (txt "signed_at", signedAt)]

def Platform.signPayload (signer : Option ChainSigner) (signedAt : Str)
    (payload : Dict Str JsonValue) : Dict Str JsonValue :=
  match signer with
  | none => payload
  | some signer =>
    match signer.signPayload p signedAt payload with
    | .ok block => payload.set pqSignatureField (.obj (block.map fun m => (m.1, .str m.2)))
    | .error _ => payload

/-- `normalize_required_text` and the bounds of the field. -/
def requiredText (low : ℕ) (high : Option ℕ) (value : Str) : Except PyErr (FieldText low high) :=
  if h : strip value ≠ [] ∧ low ≤ (strip value).length ∧ ∀ n ∈ high, (strip value).length ≤ n then
    .ok ⟨strip value, strip_strip value, h⟩
  else .error .valueError

inductive IdValue (Id : Type) where
  | none
  | uuid (id : Id)
  | text (s : Str)

/-- pydantic's `UUID`. -/
def Platform.uuid : IdValue Id → Except PyErr Id
  | .none => .error .valueError
  | .uuid id => .ok id
  | .text s =>
    match p.uuidOf s with
    | some id => .ok id
    | Option.none => .error .valueError

/-- `str(decision_id)`, of what is not `None`. -/
def Platform.idText : IdValue Id → Option Str
  | .none => Option.none
  | .uuid id => some (p.uuidText id)
  | .text s => some s

def hashScalar : Option Sha256Hex → Scalar
  | none => .null
  | some h => .str h.val

/-- `_stable_json(record.model_dump(mode="json"))`; the names are sorted. -/
def Platform.modelDump (record : EvidenceRecord Id Time) : List (Str × Scalar) :=
  [(txt "decision_id", .str (p.uuidText record.decisionId)),
    (txt "evidence_id", .str (p.uuidText record.evidenceId)),
    (txt "payload_json", .str record.payloadJson.val),
    (txt "payload_sha256", .str record.payloadSha256.val),
    (txt "policy_version", .str record.policyVersion.val),
    (txt "previous_hash", hashScalar record.previousHash),
    (txt "record_hash", .str record.recordHash.val),
    (txt "record_type", .str record.recordType.val),
    (txt "recorded_at", .str (p.timeText record.recordedAt)),
    (txt "request_id", .str (p.uuidText record.requestId))]

def Platform.line (record : EvidenceRecord Id Time) : Str := writeObject (p.modelDump record)

def recordFields : List Str :=
  [txt "decision_id", txt "evidence_id", txt "payload_json", txt "payload_sha256",
    txt "policy_version", txt "previous_hash", txt "record_hash", txt "record_type",
    txt "recorded_at", txt "request_id"]

def textOf : Option JsonValue → Except PyErr Str
  | some (.str s) => .ok s
  | _ => .error .valueError

def optionalHash : Option JsonValue → Except PyErr (Option Sha256Hex)
  | none => .ok none
  | some .null => .ok none
  | some (.str s) => some <$> normalizeHash s
  | some _ => .error .valueError

/-- `EvidenceRecord.model_validate`; an identifier or a time that is missing is drawn. -/
def Platform.modelValidate (newId : Id) (now : Time) : JsonValue → Except PyErr (EvidenceRecord Id Time)
  | .obj members => do
    let data := Dict.ofItems members
    if ∃ k ∈ data.keys, k ∉ recordFields then throw .valueError
    let evidenceId ← match data.get? (txt "evidence_id") with
      | none => .ok newId
      | some v => textOf (some v) >>= fun s => p.uuid (.text s)
    let decisionId ← textOf (data.get? (txt "decision_id")) >>= fun s => p.uuid (.text s)
    let requestId ← textOf (data.get? (txt "request_id")) >>= fun s => p.uuid (.text s)
    let recordType ← textOf (data.get? (txt "record_type")) >>= requiredText 1 (some 100)
    let payloadJson ← textOf (data.get? (txt "payload_json")) >>= requiredText 2 none
    let payloadSha256 ← textOf (data.get? (txt "payload_sha256")) >>= normalizeHash
    let previousHash ← optionalHash (data.get? (txt "previous_hash"))
    let recordHash ← textOf (data.get? (txt "record_hash")) >>= normalizeHash
    let policyVersion ← textOf (data.get? (txt "policy_version")) >>= requiredText 1 (some 100)
    let recordedAt ← match data.get? (txt "recorded_at") with
      | none => .ok now
      | some v =>
        match p.timeOf v with
        | some t => .ok t
        | none => .error .valueError
    return { evidenceId, decisionId, requestId, recordType, payloadJson, payloadSha256, previousHash,
             recordHash, policyVersion, recordedAt }
  | _ => .error .valueError

/-- The arguments of `_append`, and what the call finds: a fresh identifier, the time, the
signer, and whether the mirror raises. -/
structure AppendCall (Id Time : Type) where
  decisionId : IdValue Id
  requestId : IdValue Id
  recordType : Str
  policyVersion : Str
  payload : List (Str × PayloadValue)
  evidenceId : Id
  recordedAt : Time
  chainSigner : Option ChainSigner
  signedAt : Str
  mirrorRaises : Bool

def Platform.nextRecord (call : AppendCall Id Time) (previousHash : Option Sha256Hex) :
    Except PyErr (EvidenceRecord Id Time) := do
  let safePayload := p.signPayload call.chainSigner call.signedAt
    (Dict.ofItems (safeMembers call.payload))
  let payloadJson ← p.stableJson (.obj safePayload.items)
  let payloadSha256 ← sha256Hex payloadJson
  let recordHash ← buildRecordHash payloadSha256 previousHash
  let decisionId ← p.uuid call.decisionId
  let requestId ← p.uuid call.requestId
  let recordType ← requiredText 1 (some 100) call.recordType
  let payloadField ← requiredText 2 none payloadJson
  let policyVersion ← requiredText 1 (some 100) call.policyVersion
  return { evidenceId := call.evidenceId, decisionId, requestId, recordType,
           payloadJson := payloadField, payloadSha256, previousHash, recordHash, policyVersion,
           recordedAt := call.recordedAt }

structure Recorder (Id Time : Type) where
  file : Option Bytes
  lastRecordHash : Option Sha256Hex
  resolvedIds : Option (Finset Str)
  unmirrored : List Id

abbrev RecorderAction (Id Time α : Type) := EStateM PyErr (Recorder Id Time) α

def ofExcept {α : Type} : Except PyErr α → RecorderAction Id Time α
  | .ok a => pure a
  | .error e => throw e

inductive WriteFate where
  | done
  | refused
  | stops (count : ℕ)
  deriving DecidableEq

def writeLine (line : Str) (fate : WriteFate) : RecorderAction Id Time Unit := fun r =>
  match fate, utf8Encode (line ++ [cp '\n']) with
  | .refused, _ => .error .other r
  | _, .error e => .error e { r with file := some (r.file.getD []) }
  | .done, .ok bytes => .ok () { r with file := some (r.file.getD [] ++ bytes) }
  | .stops count, .ok bytes =>
    .error .other { r with file := some (r.file.getD [] ++ bytes.take count) }

def Platform.append (call : AppendCall Id Time) (fate : WriteFate) :
    RecorderAction Id Time (EvidenceRecord Id Time) := do
  let r ← get
  let record ← ofExcept (p.nextRecord call r.lastRecordHash)
  writeLine (p.line record) fate
  modify fun r => { r with lastRecordHash := some record.recordHash }
  if call.recordType = txt "human_resolution" then
    let decided := (p.idText call.decisionId).toFinset
    modify fun r => { r with resolvedIds := r.resolvedIds.map fun ids => ids ∪ decided }
  -- the mirror is written last, and what it raises is logged
  if call.mirrorRaises then
    modify fun r => { r with unmirrored := r.unmirrored ++ [record.evidenceId] }
  return record

inductive ReadFailure where
  | invalidJson (lineNumber : ℕ)
  | invalidRecord (lineNumber : ℕ)
  | raised (e : PyErr)
  deriving DecidableEq

/-- The loop over the lines; `drawn` is what a line without its own would draw. -/
def Platform.readLines (drawn : ℕ → Id × Time) : ℕ → List Str →
    Except ReadFailure (List (EvidenceRecord Id Time))
  | _, [] => .ok []
  | lineNumber, rawLine :: rest =>
    if strip rawLine = [] then Platform.readLines drawn (lineNumber + 1) rest
    else do
      let payload ← match p.loads (strip rawLine) with
        | .ok v => .ok v
        | .error .valueError => .error (.invalidJson lineNumber)
        | .error e => .error (.raised e)
      let record ← match p.modelValidate (drawn lineNumber).1 (drawn lineNumber).2 payload with
        | .ok record => .ok record
        | .error _ => .error (.invalidRecord lineNumber)
      let records ← Platform.readLines drawn (lineNumber + 1) rest
      return record :: records

def Platform.readAll (drawn : ℕ → Id × Time) (file : Option Bytes) :
    Except ReadFailure (List (EvidenceRecord Id Time)) :=
  match file with
  | none => .ok []
  | some content => do
    let text ← (utf8Decode content).mapError .raised
    p.readLines drawn 1 (splitLines text)

def lastNonEmptyLine (lines : List Str) : Option Str :=
  lines.foldl (fun last rawLine => if strip rawLine = [] then last else some (strip rawLine)) none

def lastLineOf (file : Option Bytes) : Except PyErr (Option Str) :=
  match file with
  | none => .ok none
  | some content => do
    let text ← utf8Decode content
    return lastNonEmptyLine (splitLines text)

def Platform.loadLastRecordHash (drawn : Id × Time) (file : Option Bytes) :
    Except PyErr (Option Sha256Hex) := do
  match ← lastLineOf file with
  | none => return none
  | some line =>
    match p.loads line >>= p.modelValidate drawn.1 drawn.2 with
    | .ok record => return some record.recordHash
    | .error _ => throw .valueError

/-- `EvidenceRecorder(path)`. -/
def Platform.start (drawn : Id × Time) (file : Option Bytes) : Except PyErr (Recorder Id Time) := do
  let lastRecordHash ← p.loadLastRecordHash drawn file
  return { file, lastRecordHash, resolvedIds := none, unmirrored := [] }

end TexGovernance.Evidence
