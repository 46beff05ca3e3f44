import TexGovernance.Lib.JsonDoc
import TexGovernance.Lib.JsonLoads
import TexGovernance.Lib.Sha2

/-!
# The evidence chain

`EvidenceRecord` of `domain/evidence.py` and the two verifiers of
`evidence/chain.py`. Identifiers and times are of any type; `json.loads` is a
parameter, with the exceptions that the verifiers tell apart.
-/

namespace TexGovernance.Evidence
open PyStr PyBytes PyCodec PyJson PyRepr Sha256 JsonDoc JsonLoads

def isLowerHex (c : CodePoint) : Bool := inRanges [(0x30, 0x39), (0x61, 0x66)] c

def IsSha256Hex (s : Str) : Prop := s.length = 64 ∧ ∀ c ∈ s, isLowerHex c = true

instance (s : Str) : Decidable (IsSha256Hex s) := inferInstanceAs (Decidable (_ ∧ _))

abbrev Sha256Hex := { s : Str // IsSha256Hex s }

/-- `str.lower` on ASCII; no other character becomes a hexadecimal digit by it. -/
def lowerChar (c : CodePoint) : CodePoint :=
  if 0x41 ≤ c.val ∧ c.val ≤ 0x5a then Fin.ofNat 0x110000 (c.val + 0x20) else c

/-- What the validators of a hash and `_normalize_witness` do. -/
def normalizeHash (value : Str) : Except PyErr Sha256Hex :=
  let normalized := (strip value).map lowerChar
  if h : IsSha256Hex normalized then .ok ⟨normalized, h⟩ else .error .valueError

theorem isspace_lowerHex {c : CodePoint} (h : isLowerHex c = true) : isspace c = false := by
  simp only [isLowerHex, isspace, inRanges, List.any_cons, List.any_nil, Bool.or_false,
    Bool.or_eq_true, Bool.and_eq_true, decide_eq_true_eq, Bool.or_eq_false_iff,
    Bool.and_eq_false_iff, decide_eq_false_iff_not] at h ⊢
  omega

theorem lowerChar_lowerHex {c : CodePoint} (h : isLowerHex c = true) : lowerChar c = c := by
  simp only [isLowerHex, inRanges, List.any_cons, List.any_nil, Bool.or_false, Bool.or_eq_true,
    Bool.and_eq_true, decide_eq_true_eq] at h
  exact if_neg (by omega)

theorem normalizeHash_val (h : Sha256Hex) : normalizeHash h.val = .ok h := by
  obtain ⟨s, hs⟩ := h
  have hstrip : strip s = s := strip_of_noSpace fun c hc => isspace_lowerHex (hs.2 c hc)
  have hlower : s.map lowerChar = s := by
    rw [List.map_congr_left fun c hc => lowerChar_lowerHex (hs.2 c hc)]
    exact List.map_id' s
  unfold normalizeHash
  simp only [hstrip, hlower]
  exact dif_pos hs

theorem isLowerHex_hexDigit (n : ℕ) (h : n < 16) : isLowerHex (hexDigit n) = true := by
  interval_cases n <;> rfl

theorem isLowerHex_hex (bs : Bytes) : ∀ c ∈ hex bs, isLowerHex c = true := by
  induction bs with
  | nil => exact List.forall_mem_nil _
  | cons b bs ih =>
    rw [hex, List.forall_mem_cons, List.forall_mem_cons]
    exact ⟨isLowerHex_hexDigit _ (by omega), isLowerHex_hexDigit _ (by omega), ih⟩

/-- `hashlib.sha256(..).hexdigest()`. -/
def hexDigest (bs : Bytes) : Sha256Hex :=
  ⟨hex (sha256 bs).bytes, by rw [hex_length, (sha256 bs).length_eq], isLowerHex_hex _⟩

theorem hexDigest_injOn {S : Set Bytes} (hS : Set.InjOn sha256 S) : Set.InjOn hexDigest S := by
  intro a ha b hb h
  exact hS ha hb (Digest.ext_bytes _ _ (hex_inj _ _ (congrArg Subtype.val h)))

def sha256Hex (value : Str) : Except PyErr Sha256Hex := do
  let bytes ← utf8Encode value
  return hexDigest bytes

theorem sha256Hex_ok_iff {value : Str} {digest : Sha256Hex} :
    sha256Hex value = .ok digest ↔ Plain value ∧ digest = hexDigest (utf8 value) := by
  unfold sha256Hex
  constructor
  · intro h
    obtain ⟨bytes, hbytes, h⟩ := Pipeline.bind_ok h
    have hplain := plain_of_utf8Encode hbytes
    rw [utf8Encode_eq hplain] at hbytes
    rw [Except.ok.inj hbytes]
    exact ⟨hplain, (Except.ok.inj h).symm⟩
  · rintro ⟨hplain, rfl⟩
    rw [utf8Encode_eq hplain]
    rfl

abbrev FieldText (low : ℕ) (high : Option ℕ) :=
  { s : Str // strip s = s ∧ s ≠ [] ∧ low ≤ s.length ∧ ∀ n ∈ high, s.length ≤ n }

structure EvidenceRecord (Id Time : Type) where
  evidenceId : Id
  decisionId : Id
  requestId : Id
  recordType : FieldText 1 (some 100)
  payloadJson : FieldText 2 none
  payloadSha256 : Sha256Hex
  previousHash : Option Sha256Hex
  recordHash : Sha256Hex
  policyVersion : FieldText 1 (some 100)
  recordedAt : Time

/-- `_stable_json` of the members that a record hash covers. -/
def linkText (payloadSha256 : Sha256Hex) (previousHash : Option Sha256Hex) : Str :=
  writeObject [(txt "payload_sha256", .str payloadSha256.val),
    (txt "previous_hash", match previousHash with
      | none => .null
      | some h => .str h.val)]

def buildRecordHash (payloadSha256 : Sha256Hex) (previousHash : Option Sha256Hex) :
    Except PyErr Sha256Hex :=
  sha256Hex (linkText payloadSha256 previousHash)

theorem plain_sha256Hex (h : Sha256Hex) : Plain h.val := by
  intro c hc
  have hhex := h.property.2 c hc
  simp only [isLowerHex, inRanges, List.any_cons, List.any_nil, Bool.or_false, Bool.or_eq_true,
    Bool.and_eq_true, decide_eq_true_eq] at hhex
  exact isSurrogate_of_lt (by omega)

theorem plain_linkText (payloadSha256 : Sha256Hex) (previousHash : Option Sha256Hex) :
    Plain (linkText payloadSha256 previousHash) := by
  refine plain_writeObject ?_
  simp only [List.forall_mem_cons, List.not_mem_nil, false_imp_iff, implies_true, and_true]
  refine ⟨⟨plain_txt _, plain_sha256Hex _⟩, plain_txt _, ?_⟩
  cases previousHash with
  | none => trivial
  | some h => exact plain_sha256Hex h

theorem buildRecordHash_eq (payloadSha256 : Sha256Hex) (previousHash : Option Sha256Hex) :
    buildRecordHash payloadSha256 previousHash =
      .ok (hexDigest (utf8 (linkText payloadSha256 previousHash))) :=
  sha256Hex_ok_iff.mpr ⟨plain_linkText _ _, rfl⟩

inductive IssueCode where
  | payloadSha256Mismatch
  | payloadSha256VerificationError
  | recordHashMismatch
  | recordHashVerificationError
  | payloadJsonNotObject
  | payloadJsonInvalid
  | payloadJsonVerificationError
  | unexpectedPreviousHash
  | chainLinkMismatch
  | missingPriorLinkWitness
  | priorLinkWitnessMismatch
  deriving DecidableEq

structure ChainVerificationIssue where
  index : ℕ
  recordHash : Option Sha256Hex
  code : IssueCode
  message : Str

structure ChainVerificationResult where
  isValid : Bool
  recordCount : ℕ
  issues : List ChainVerificationIssue

/-- The exceptions of `json.loads`: its own, or one of another class. -/
inductive LoadFailure where
  | jsonDecodeError
  | other (className : Str)

def className : PyErr → Str
  | .valueError => txt "ValueError"
  | .unicodeEncodeError => txt "UnicodeEncodeError"
  | .overflowError => txt "OverflowError"
  | .assertionError => txt "AssertionError"
  | .other => txt "Exception"

variable {Id Time : Type} (jsonLoads : Str → Except LoadFailure JsonValue)

def payloadHashIssues (record : EvidenceRecord Id Time) (index : ℕ) : List ChainVerificationIssue :=
  match sha256Hex record.payloadJson.val with
  | .ok expected =>
    if record.payloadSha256 ≠ expected then
      [⟨index, some record.recordHash, .payloadSha256Mismatch,
        txt "record payload_sha256 does not match the canonical hash of payload_json"⟩]
    else []
  | .error e =>
    [⟨index, some record.recordHash, .payloadSha256VerificationError,
      txt "payload_sha256 verification raised " ++ className e⟩]

def recordHashIssues (record : EvidenceRecord Id Time) (index : ℕ) : List ChainVerificationIssue :=
  match buildRecordHash record.payloadSha256 record.previousHash with
  | .ok expected =>
    if record.recordHash ≠ expected then
      [⟨index, some record.recordHash, .recordHashMismatch,
        txt "record record_hash does not match the canonical hash of payload_sha256 + previous_hash"⟩]
    else []
  | .error e =>
    [⟨index, some record.recordHash, .recordHashVerificationError,
      txt "record hash verification raised " ++ className e⟩]

def payloadJsonIssues (record : EvidenceRecord Id Time) (index : ℕ) : List ChainVerificationIssue :=
  match jsonLoads record.payloadJson.val with
  | .ok (.obj _) => []
  | .ok _ =>
    [⟨index, some record.recordHash, .payloadJsonNotObject,
      txt "record payload_json must decode to a JSON object"⟩]
  | .error .jsonDecodeError =>
    [⟨index, some record.recordHash, .payloadJsonInvalid,
      txt "record payload_json is not valid JSON"⟩]
  | .error (.other name) =>
    [⟨index, some record.recordHash, .payloadJsonVerificationError,
      txt "payload_json verification raised " ++ name⟩]

def verifyRecordIntegrity (record : EvidenceRecord Id Time) (index : ℕ) :
    List ChainVerificationIssue :=
  payloadHashIssues record index ++ recordHashIssues record index ++
    payloadJsonIssues jsonLoads record index

def verifyChainLink (previous : Option (EvidenceRecord Id Time)) (candidate : EvidenceRecord Id Time)
    (index : ℕ) : List ChainVerificationIssue :=
  match previous with
  | none =>
    if candidate.previousHash ≠ none then
      [⟨index, some candidate.recordHash, .unexpectedPreviousHash,
        txt "first record must not contain a previous_hash"⟩]
    else []
  | some previous =>
    if candidate.previousHash ≠ some previous.recordHash then
      [⟨index, some candidate.recordHash, .chainLinkMismatch,
        txt "record previous_hash does not match the prior record's record_hash"⟩]
    else []

def verifyWitnessLink (priorLinkWitness : Option Sha256Hex) (firstRecord : EvidenceRecord Id Time) :
    List ChainVerificationIssue :=
  match priorLinkWitness, firstRecord.previousHash with
  | none, none => []
  | none, some _ =>
    [⟨0, some firstRecord.recordHash, .missingPriorLinkWitness,
      txt "slice does not begin at the chain genesis but no prior_link_witness was supplied; " ++
        txt "pass the predecessor record's record_hash to enable inclusion-proof verification"⟩]
  | some _, none =>
    [⟨0, some firstRecord.recordHash, .unexpectedPreviousHash,
      txt "prior_link_witness was supplied but the first slice record claims to be the chain " ++
        txt "genesis (previous_hash is null)"⟩]
  | some witness, some previous =>
    if witness ≠ previous then
      [⟨0, some firstRecord.recordHash, .priorLinkWitnessMismatch,
        txt "first slice record's previous_hash does not match the supplied prior_link_witness"⟩]
    else []

def chainIssues : Option (EvidenceRecord Id Time) → ℕ → List (EvidenceRecord Id Time) →
    List ChainVerificationIssue
  | _, _, [] => []
  | previous, index, record :: rest =>
    verifyRecordIntegrity jsonLoads record index ++ verifyChainLink previous record index ++
      chainIssues (some record) (index + 1) rest

def verifyEvidenceChain (records : List (EvidenceRecord Id Time)) : ChainVerificationResult :=
  if records.isEmpty then ⟨true, 0, []⟩
  else
    let issues := chainIssues jsonLoads none 0 records
    ⟨issues.isEmpty, records.length, issues⟩

def verifyEvidenceChainSlice (records : List (EvidenceRecord Id Time))
    (priorLinkWitness : Option Str) : Except PyErr ChainVerificationResult := do
  let witness ← priorLinkWitness.mapM normalizeHash
  match records with
  | [] => return ⟨true, 0, []⟩
  | first :: rest =>
    let issues := verifyRecordIntegrity jsonLoads first 0 ++ verifyWitnessLink witness first ++
      chainIssues jsonLoads (some first) 1 rest
    return ⟨issues.isEmpty, records.length, issues⟩

end TexGovernance.Evidence
