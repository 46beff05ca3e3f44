import TexGovernance.Lib.PyDict
import TexGovernance.Lib.PyJson
import TexGovernance.Lib.Sha2

/-!
# The sealed-fact ledger

`SealedFactLedger` (`provenance/ledger.py`) with the facts and records of
`provenance/models.py`: the two ways to append, the replay of the hash chain
and the check for missing sequence numbers. Signing is a parameter; an
identifier or a time is held by the text that is sealed.
-/

namespace TexGovernance.Provenance
open PyStr PyBytes PyCodec PyDict PyJson Sha256

inductive EvidenceMaturity where
  | production
  | researchSolid
  | researchEarly
  | speculative
  deriving DecidableEq

def EvidenceMaturity.value : EvidenceMaturity → Str
  | .production => txt "production"
  | .researchSolid => txt "research_solid"
  | .researchEarly => txt "research_early"
  | .speculative => txt "speculative"

inductive SealedFactKind where
  | attempt
  | decision
  | enforcement
  | drift
  | blame
  | identity
  | answer
  | verdictTranscript
  | precedent
  | plane
  deriving DecidableEq

def SealedFactKind.value : SealedFactKind → Str
  | .attempt => txt "attempt"
  | .decision => txt "decision"
  | .enforcement => txt "enforcement"
  | .drift => txt "drift"
  | .blame => txt "blame"
  | .identity => txt "identity"
  | .answer => txt "answer"
  | .verdictTranscript => txt "verdict_transcript"
  | .precedent => txt "precedent"
  | .plane => txt "plane"

def optionalText : Option Str → PyObj
  | none => .none
  | some s => .str s

structure CombinedEvidence where
  combinationId : Str
  decisionId : Option Str
  combiner : Str
  logEValue : NumberText
  isTrueEValue : Bool
  anytimeValid : Bool
  jointNullHypothesisId : Str
  filtrationId : Str
  maturity : EvidenceMaturity
  componentIds : List Str
  excludedIds : List Str
  nComponents : ℕ
  justification : Option Str
  recordedAt : Str

def CombinedEvidence.canonicalPayload (e : CombinedEvidence) : PyObj :=
  .dict [(txt "combination_id", .str e.combinationId),
    (txt "decision_id", optionalText e.decisionId),
    (txt "combiner", .str e.combiner),
    (txt "log_e_value", .float e.logEValue),
    (txt "is_true_e_value", .bool e.isTrueEValue),
    (txt "anytime_valid", .bool e.anytimeValid),
    (txt "joint_null_hypothesis_id", .str e.jointNullHypothesisId),
    (txt "filtration_id", .str e.filtrationId),
    (txt "maturity", .str e.maturity.value),
    (txt "component_ids", .list (e.componentIds.map .str)),
    (txt "excluded_ids", .list (e.excludedIds.map .str)),
    (txt "n_components", .int e.nComponents),
    (txt "justification", optionalText e.justification),
    (txt "recorded_at", .str e.recordedAt)]

structure SealedFact where
  factId : Str
  kind : SealedFactKind
  subjectId : Option Str
  claim : Str
  evidence : Option CombinedEvidence
  maturity : EvidenceMaturity
  detail : Dict Str PyObj
  createdAt : Str

def SealedFact.canonicalPayload (fact : SealedFact) : PyObj :=
  .dict [(txt "fact_id", .str fact.factId),
    (txt "kind", .str fact.kind.value),
    (txt "subject_id", optionalText fact.subjectId),
    (txt "claim", .str fact.claim),
    (txt "evidence", match fact.evidence with
      | none => .none
      | some e => e.canonicalPayload),
    (txt "maturity", .str fact.maturity.value),
    (txt "detail", .dict fact.detail.items),
    (txt "created_at", .str fact.createdAt)]

structure SealedFactRecord where
  sequence : ℕ
  fact : SealedFact
  payloadSha256 : Str
  previousHash : Option Str
  recordHash : Str
  signatureB64 : Str

def stableJson (x : PyObj) : Except PyErr Str := dumps x

def sha256Hex (text : Str) : Except PyErr Str := do
  let bytes ← utf8Encode text
  return hex (sha256 bytes).bytes

def payloadSha256Of (fact : SealedFact) : Except PyErr Str := do
  let text ← stableJson fact.canonicalPayload
  sha256Hex text

def linkPayload (payloadSha256 : Str) (previousHash : Option Str) : PyObj :=
  .dict [(txt "payload_sha256", .str payloadSha256), (txt "previous_hash", optionalText previousHash)]

def recordHashOf (payloadSha256 : Str) (previousHash : Option Str) : Except PyErr Str := do
  let text ← stableJson (linkPayload payloadSha256 previousHash)
  sha256Hex text

structure SealedFactLedger where
  entries : List SealedFactRecord
  byIdentity : Dict Str (List ℕ)

def SealedFactLedger.fresh : SealedFactLedger := ⟨[], Dict.empty⟩

section Write

variable (sign : Str → Except PyErr Str)

def appendLocked (l : SealedFactLedger) (fact : SealedFact) :
    Except PyErr (SealedFactRecord × SealedFactLedger) := do
  let sequence := l.entries.length
  let previousHash := l.entries.getLast?.map SealedFactRecord.recordHash
  let payloadSha256 ← payloadSha256Of fact
  let recordHash ← recordHashOf payloadSha256 previousHash
  let signatureB64 ← sign recordHash
  let record : SealedFactRecord :=
    ⟨sequence, fact, payloadSha256, previousHash, recordHash, signatureB64⟩
  return (record, { l with entries := l.entries ++ [record] })

def append (l : SealedFactLedger) (fact : SealedFact) :
    Except PyErr (SealedFactRecord × SealedFactLedger) :=
  appendLocked sign l fact

def sequencedFact (fact : SealedFact) (identityKey : Str) (seq : ℤ) : SealedFact :=
  { fact with
    detail := (fact.detail.set (txt "identity_key") (.str identityKey)).set (txt "identity_seq")
      (.int seq) }

def appendSequenced (l : SealedFactLedger) (fact : SealedFact) (identityKey : Str)
    (claimedSeq : Option ℤ) : Except PyErr (SealedFactRecord × SealedFactLedger) := do
  let nextSeq := claimedSeq.getD ((l.byIdentity.get? identityKey).getD []).length
  let (record, l) ← appendLocked sign l (sequencedFact fact identityKey nextSeq)
  let indexed := (l.byIdentity.get? identityKey).getD [] ++ [record.sequence]
  return (record, { l with byIdentity := l.byIdentity.set identityKey indexed })

inductive AppendCall where
  | append (fact : SealedFact)
  | appendSequenced (fact : SealedFact) (identityKey : Str) (claimedSeq : Option ℤ)

def applyCall (l : SealedFactLedger) : AppendCall → Except PyErr (SealedFactRecord × SealedFactLedger)
  | .append fact => append sign l fact
  | .appendSequenced fact identityKey claimedSeq => appendSequenced sign l fact identityKey claimedSeq

def stepCall (l : SealedFactLedger) (c : AppendCall) : SealedFactLedger :=
  match applyCall sign l c with
  | .ok (_, l) => l
  | .error _ => l

def runCalls (l : SealedFactLedger) (calls : List AppendCall) : SealedFactLedger :=
  calls.foldl (stepCall sign) l

def outcomes : SealedFactLedger → List AppendCall → List (Except PyErr SealedFactRecord)
  | _, [] => []
  | l, c :: calls => (applyCall sign l c).map Prod.fst :: outcomes (stepCall sign l c) calls

end Write

structure ChainReport where
  intact : Bool
  checked : ℕ
  breakAt : Option ℕ
  deriving DecidableEq

def verifyFrom : Option Str → ℕ → List SealedFactRecord → Except PyErr ChainReport
  | _, idx, [] => .ok ⟨true, idx, none⟩
  | previousHash, idx, rec :: rest => do
    let payloadSha256 ← payloadSha256Of rec.fact
    let recordHash ← recordHashOf payloadSha256 previousHash
    if rec.previousHash ≠ previousHash ∨ rec.payloadSha256 ≠ payloadSha256 ∨
        rec.recordHash ≠ recordHash then
      return ⟨false, idx, some idx⟩
    else verifyFrom (some rec.recordHash) (idx + 1) rest

def verifyChain (entries : List SealedFactRecord) : Except PyErr ChainReport :=
  verifyFrom none 0 entries

structure GapReport where
  complete : Bool
  identities : ℕ
  sequencedRecords : ℕ
  gaps : Dict Str (List ℤ)
  duplicates : Dict Str (List ℤ)

def sequencedItems (items : List (Option Str × Option ℤ)) : List (Str × ℤ) :=
  items.filterMap fun
    | (some key, some seq) => some (key, seq)
    | _ => none

def groupByIdentity (items : List (Str × ℤ)) : Dict Str (List ℤ) :=
  items.foldl (fun d e => d.set e.1 ((d.get? e.1).getD [] ++ [e.2])) Dict.empty

def missingSeqs (seqs : List ℤ) : List ℤ :=
  match seqs.max? with
  | none => []
  | some top => ((List.range (top + 1).toNat).map Int.ofNat).filter (· ∉ seqs)

def repeatedSeqs (seqs : List ℤ) : List ℤ :=
  (seqs.dedup.filter fun s => 1 < seqs.count s).insertionSort (· ≤ ·)

/-- The entries of a dictionary whose value under `f` is not empty. -/
def nonemptyEntries (f : List ℤ → List ℤ) (d : Dict Str (List ℤ)) : Dict Str (List ℤ) :=
  d.collect fun seqs => if (f seqs).isEmpty then none else some (f seqs)

def identitySequenceGaps (items : List (Option Str × Option ℤ)) : GapReport :=
  let sequenced := sequencedItems items
  let byIdentity := groupByIdentity sequenced
  let gaps := nonemptyEntries missingSeqs byIdentity
  let duplicates := nonemptyEntries repeatedSeqs byIdentity
  { complete := gaps.items.isEmpty && duplicates.items.isEmpty
    identities := byIdentity.items.length
    sequencedRecords := sequenced.length
    gaps := gaps
    duplicates := duplicates }

section Convert

-- `str` and `int` of the objects a detail may hold besides texts and integers
variable (strOf : PyObj → Except PyErr Str) (intOf : PyObj → Except PyErr ℤ)

def keyText : PyObj → Except PyErr Str
  | .str s => .ok s
  | x => strOf x

def seqNumber : PyObj → Except PyErr ℤ
  | .int z => .ok z
  | .bool b => .ok (if b then 1 else 0)
  | x => intOf x

def identityOf (fact : SealedFact) : Except PyErr (Option Str × Option ℤ) :=
  match fact.detail.get? (txt "identity_key"), fact.detail.get? (txt "identity_seq") with
  | none, _ | some .none, _ | _, none | _, some .none => .ok (none, none)
  | some key, some seq => do
    let key ← keyText strOf key
    let seq ← seqNumber intOf seq
    return (some key, some seq)

def verifyNoGaps (entries : List SealedFactRecord) : Except PyErr GapReport := do
  let items ← entries.mapM fun r => identityOf strOf intOf r.fact
  return identitySequenceGaps items

end Convert

end TexGovernance.Provenance
