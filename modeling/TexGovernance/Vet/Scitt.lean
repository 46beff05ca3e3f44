import TexGovernance.Enforcement.Permit
import TexGovernance.Lib.DuplicateTree
import TexGovernance.Lib.PyDict
import TexGovernance.Pqcrypto.AlgorithmAgility

/-!
# Signed statements and the transparency log (`vet/scitt.py`)

A signed statement has its claims in the signed header and once more as a field. The
transparency service keeps a Merkle tree over the statements and signs receipts.
-/

namespace TexGovernance.Vet
open PyStr PyBytes PyCodec JsonLoads JsonText PyValue PyDict Sha256
open PyRepr (utf8)
open Enforcement (b64url b64urlDecode)
open Pqcrypto

/-- `_canonical_json_bytes`. -/
def canonicalJsonBytes (v : JsonValue) : Except Raised Bytes := (PyValue.dumps asciiOnly v).map utf8

theorem canonicalJsonBytes_ok {v : JsonValue} (h : shortInts v = true) :
    canonicalJsonBytes v = .ok (utf8 (JsonText.dumps asciiOnly v)) := by
  unfold canonicalJsonBytes PyValue.dumps
  rw [if_pos h]
  rfl

structure ScittClaims where
  iss : Str
  sub : Str
  iat : ℤ
  aud : Option Str
  exp : Option ℤ
  nbf : Option ℤ

structure ScittSignedStatement where
  protectedHeaderB64u : Str
  payloadB64u : Str
  signatureB64u : Str
  issuerPublicKeyB64u : Str
  claims : ScittClaims
  payloadDigestHex : Str

def textJson (s : Option Str) : JsonValue := s.elim .null .str

def intJson (z : Option ℤ) : JsonValue := z.elim .null .int

/-- `model_dump(mode="json")`. -/
def ScittSignedStatement.json (stmt : ScittSignedStatement) : JsonValue :=
  .obj [(txt "protected_header_b64u", .str stmt.protectedHeaderB64u),
    (txt "payload_b64u", .str stmt.payloadB64u),
    (txt "signature_b64u", .str stmt.signatureB64u),
    (txt "issuer_public_key_b64u", .str stmt.issuerPublicKeyB64u),
    (txt "claims", .obj [(txt "iss", .str stmt.claims.iss), (txt "sub", .str stmt.claims.sub),
      (txt "iat", .int stmt.claims.iat), (txt "aud", textJson stmt.claims.aud),
      (txt "exp", intJson stmt.claims.exp), (txt "nbf", intJson stmt.claims.nbf)]),
    (txt "payload_digest_hex", .str stmt.payloadDigestHex)]

structure ScittReceipt where
  tsUri : Str
  tsPublicKeyB64u : Str
  tsSignatureAlgorithm : SignatureAlgorithm
  leafIndex : ℤ
  treeSize : ℤ
  inclusionPathB64u : List Str
  statementDigestHex : Str
  treeRootHex : Str
  registeredAtEpoch : ℤ
  receiptSignatureB64u : Str
  verifiableDataStructure : ℤ

structure ScittTransparentStatement where
  signedStatement : ScittSignedStatement
  receipts : List ScittReceipt

structure ScittRegistrationResult where
  entryId : Str
  receipt : ScittReceipt
  transparentStatement : ScittTransparentStatement

structure ScittVerificationResult where
  valid : Bool
  reason : Str
  statementSignatureValid : Bool := false
  receiptSignatureValid : Bool := false
  inclusionProofValid : Bool := false
  tsUri : Option Str := none
  statementIssuer : Option Str := none
  statementSubject : Option Str := none

structure ScittRuntime where
  py : Interpreter
  providers : Providers
  /-- `str(exc)` where a statement or a receipt cannot be read. -/
  statementError : ScittSignedStatement → Str
  receiptError : ScittReceipt → Str

def hashRuntime : ScittRuntime where
  py := plainInterpreter
  providers := hashProviders
  statementError _ := []
  receiptError _ := []

variable (rt : ScittRuntime)

/-- What `except (ValueError, RuntimeError)` catches. -/
def isReadError (e : Raised) : Bool := e.isValueError || e = .py .other

def refuseWith (reason : Str) (tsUri : Option Str) : Except Raised ScittVerificationResult :=
  if reason.length ≤ 512 then .ok { valid := false, reason, tsUri } else .error (.py .valueError)

structure ParsedStatement where
  headerBytes : Bytes
  header : JsonValue
  algorithm : SignatureAlgorithm
  payloadBytes : Bytes
  signature : Bytes
  publicKey : Bytes

/-- `SignatureAlgorithm(header["alg"])`; only a dictionary has items under texts. -/
def headerAlgorithm (header : JsonValue) : Except Raised SignatureAlgorithm :=
  match header with
  | .obj members =>
    match get? (txt "alg") members with
    | none => .error .keyError
    | some (.str value) => SignatureAlgorithm.ofValue value
    | some _ => .error (.py .valueError)
  | _ => .error .typeError

def parseStatement (stmt : ScittSignedStatement) : Except Raised ParsedStatement := do
  let headerBytes ← b64urlDecode stmt.protectedHeaderB64u
  let header ← loads rt.py headerBytes
  let algorithm ← headerAlgorithm header
  let payloadBytes ← b64urlDecode stmt.payloadB64u
  let signature ← b64urlDecode stmt.signatureB64u
  let publicKey ← b64urlDecode stmt.issuerPublicKeyB64u
  return { headerBytes, header, algorithm, payloadBytes, signature, publicKey }

def sigStructure (p : ParsedStatement) : JsonValue :=
  .arr [.str (txt "Signature1"), .str (b64url p.headerBytes), .str (b64url []), .str (b64url p.payloadBytes)]

theorem sigStructure_bytes (p : ParsedStatement) :
    canonicalJsonBytes (sigStructure p) = .ok (utf8 (JsonText.dumps asciiOnly (sigStructure p))) :=
  canonicalJsonBytes_ok rfl

structure StatementChecks where
  expectedIssuer : Option Str
  expectedSubjectPrefix : Option Str
  nowEpoch : ℤ

def issuerRefused (checks : StatementChecks) (claims : ScittClaims) : Bool :=
  checks.expectedIssuer.any fun expected => claims.iss ≠ expected

def subjectRefused (checks : StatementChecks) (claims : ScittClaims) : Bool :=
  checks.expectedSubjectPrefix.any fun expected => !(expected.isPrefixOf claims.sub)

def isExpired (checks : StatementChecks) (claims : ScittClaims) : Bool :=
  claims.exp.any fun exp => exp ≤ checks.nowEpoch

def notYetValid (checks : StatementChecks) (claims : ScittClaims) : Bool :=
  claims.nbf.any fun nbf => checks.nowEpoch + 300 < nbf

def payloadDigest (payloadBytes : Bytes) : Str := hex (sha256 payloadBytes).bytes

/-- `provider.verify(sig_structure, signature, pub)`. -/
def signatureVerifies (p : ParsedStatement) : Except Raised Bool := do
  let message ← canonicalJsonBytes (sigStructure p)
  let provider ← rt.providers p.algorithm
  provider.verify message p.signature p.publicKey

def verifySignedStatement (checks : StatementChecks) (stmt : ScittSignedStatement) :
    Except Raised ScittVerificationResult :=
  match parseStatement rt stmt with
  | .error e =>
    if isReadError e || e = .keyError then refuseWith (txt "parse error: " ++ rt.statementError stmt) none
    else .error e
  | .ok p =>
    if issuerRefused checks stmt.claims then
      .ok { valid := false, reason := txt "iss mismatch", statementIssuer := some stmt.claims.iss }
    else if subjectRefused checks stmt.claims then
      .ok { valid := false, reason := txt "sub prefix mismatch", statementSubject := some stmt.claims.sub }
    else if isExpired checks stmt.claims then .ok { valid := false, reason := txt "expired" }
    else if notYetValid checks stmt.claims then .ok { valid := false, reason := txt "not yet valid" }
    else if payloadDigest p.payloadBytes ≠ stmt.payloadDigestHex then
      .ok { valid := false, reason := txt "payload digest mismatch" }
    else do
      if ← signatureVerifies rt p then
        return {
          valid := true
          reason := txt "ok"
          statementSignatureValid := true
          statementIssuer := some stmt.claims.iss
          statementSubject := some stmt.claims.sub }
      else
        return {
          valid := false
          reason := txt "signature invalid"
          statementIssuer := some stmt.claims.iss
          statementSubject := some stmt.claims.sub }

def nodeHash (left right : Bytes) : Bytes := (sha256 (left ++ right)).bytes

/-- `_merkle_root_and_proof`. -/
def merkleRootAndProof (leaves : List Bytes) (targetIndex : ℤ) : Except PyErr (Bytes × List Bytes) :=
  if leaves = [] then .error .valueError
  else if targetIndex < 0 ∨ leaves.length ≤ targetIndex then .error .other
  else
    match DuplicateTree.climb Prod.mk (Function.uncurry nodeHash) leaves.length leaves with
    | root :: _ => .ok (root, DuplicateTree.inclusionPath nodeHash leaves.length leaves targetIndex.toNat)
    | [] => .error .other

/-- `_verify_merkle_inclusion`. -/
def verifyMerkleInclusion (leafHash : Bytes) (leafIndex treeSize : ℤ) (path : List Bytes)
    (expectedRoot : Bytes) : Bool :=
  DuplicateTree.walk nodeHash leafHash leafIndex treeSize path = some expectedRoot

structure LogEntry where
  entryId : Str
  statement : ScittSignedStatement
  leafHash : Bytes
  registeredAtEpoch : ℤ

structure TransparencyLog where
  entries : List LogEntry
  entryIndex : Dict Str ℕ

def TransparencyLog.empty : TransparencyLog := ⟨[], Dict.empty⟩

def TransparencyLog.leaves (log : TransparencyLog) : List Bytes := log.entries.map LogEntry.leafHash

/-- `InMemoryTransparencyService`, but for its log. -/
structure TransparencyService where
  tsUri : Str
  signingKeypair : SignatureKeyPair

/-- `f"{leaf_index:012d}:{leaf_hash.hex()[:16]}"`. -/
def entryIdOf (leafIndex : ℕ) (leafHash : Bytes) : Str :=
  List.replicate (12 - (natText leafIndex).length) (cp '0') ++ natText leafIndex ++
    cp ':' :: (hex leafHash).take 16

def vdsRfc9162Sha256 : ℤ := 1

def receiptSigningInput (ts : Str) (leafIndex treeSize : ℤ) (treeRoot leafHash : Str) (registeredAt : ℤ) :
    JsonValue :=
  .obj [(txt "v", .str (txt "1")), (txt "ts", .str ts), (txt "leaf_index", .int leafIndex),
    (txt "tree_size", .int treeSize), (txt "tree_root", .str treeRoot), (txt "leaf_hash", .str leafHash),
    (txt "vds", .int vdsRfc9162Sha256), (txt "registered_at", .int registeredAt)]

def ScittReceipt.validate (r : ScittReceipt) : Except Raised ScittReceipt :=
  if 1 ≤ r.tsUri.length ∧ r.tsUri.length ≤ 512 ∧ 1 ≤ r.tsPublicKeyB64u.length ∧ 0 ≤ r.leafIndex ∧
      1 ≤ r.treeSize ∧ r.statementDigestHex.length = 64 ∧ r.treeRootHex.length = 64 ∧
      0 ≤ r.registeredAtEpoch ∧ 1 ≤ r.receiptSignatureB64u.length then .ok r
  else .error (.py .valueError)

def signedReceipt (service : TransparencyService) (entry : LogEntry) (leafIndex treeSize : ℤ)
    (path : List Bytes) (root sig : Bytes) : ScittReceipt where
  tsUri := service.tsUri
  tsPublicKeyB64u := b64url service.signingKeypair.publicKey
  tsSignatureAlgorithm := service.signingKeypair.algorithm
  leafIndex
  treeSize
  inclusionPathB64u := path.map b64url
  statementDigestHex := hex entry.leafHash
  treeRootHex := hex root
  registeredAtEpoch := entry.registeredAtEpoch
  receiptSignatureB64u := b64url sig
  verifiableDataStructure := vdsRfc9162Sha256

/-- `_sign_receipt`. -/
def signReceipt (service : TransparencyService) (entry : LogEntry) (leafIndex treeSize : ℤ)
    (path : List Bytes) (root : Bytes) : Except Raised ScittReceipt := do
  let message ← canonicalJsonBytes (receiptSigningInput service.tsUri leafIndex treeSize (hex root)
    (hex entry.leafHash) entry.registeredAtEpoch)
  let provider ← rt.providers service.signingKeypair.algorithm
  let sig ← provider.sign message service.signingKeypair
  (signedReceipt service entry leafIndex treeSize path root sig).validate

def receiptAt (service : TransparencyService) (log : TransparencyLog) (entry : LogEntry) (index : ℕ) :
    Except Raised ScittReceipt := do
  let (root, path) ← raising (merkleRootAndProof log.leaves index)
  signReceipt rt service entry index log.leaves.length path root

/-- `register`; the entry stays in the log where the receipt cannot be signed. -/
def register (service : TransparencyService) (signedStatement : ScittSignedStatement) (now : ℤ)
    (log : TransparencyLog) : TransparencyLog × Except Raised ScittRegistrationResult :=
  match canonicalJsonBytes signedStatement.json with
  | .error e => (log, .error e)
  | .ok statementBytes =>
    let leafHash := (sha256 statementBytes).bytes
    let leafIndex := log.entries.length
    let entryId := entryIdOf leafIndex leafHash
    let entry : LogEntry := ⟨entryId, signedStatement, leafHash, now⟩
    let log' : TransparencyLog := ⟨log.entries ++ [entry], log.entryIndex.set entryId leafIndex⟩
    (log', do
      let receipt ← receiptAt rt service log' entry leafIndex
      if 1 ≤ entryId.length ∧ entryId.length ≤ 200 then
        return ⟨entryId, receipt, ⟨signedStatement, [receipt]⟩⟩
      else .error (.py .valueError))

def getReceipt (service : TransparencyService) (entryId : Str) (log : TransparencyLog) :
    Except Raised (Option ScittReceipt) :=
  match log.entryIndex.get? entryId with
  | none => .ok none
  | some idx =>
    match log.entries[idx]? with
    | none => .error (.py .other)
    | some entry => (receiptAt rt service log entry idx).map some

structure ReceiptChecks where
  expectedTsUri : Option Str
  expectedTsPublicKeyB64u : Option Str

def decodeProof (receipt : ScittReceipt) : Except Raised (List Bytes × Bytes × Bytes) := do
  let path ← receipt.inclusionPathB64u.mapM b64urlDecode
  let leafHash ← raising (fromhex receipt.statementDigestHex)
  let expectedRoot ← raising (fromhex receipt.treeRootHex)
  return (path, leafHash, expectedRoot)

def decodeSignature (receipt : ScittReceipt) : Except Raised (SignatureProvider × Bytes × Bytes) := do
  let provider ← rt.providers receipt.tsSignatureAlgorithm
  let sig ← b64urlDecode receipt.receiptSignatureB64u
  let pub ← b64urlDecode receipt.tsPublicKeyB64u
  return (provider, sig, pub)

def verifyReceipt (checks : ReceiptChecks) (expectedStatementDigestHex : Str) (receipt : ScittReceipt) :
    Except Raised ScittVerificationResult :=
  let tsUri := some receipt.tsUri
  if checks.expectedTsUri.any fun expected => receipt.tsUri ≠ expected then
    .ok { valid := false, reason := txt "ts_uri mismatch", tsUri }
  else if checks.expectedTsPublicKeyB64u.any fun expected => receipt.tsPublicKeyB64u ≠ expected then
    .ok { valid := false, reason := txt "ts_public_key mismatch", tsUri }
  else if receipt.statementDigestHex ≠ expectedStatementDigestHex then
    .ok { valid := false, reason := txt "statement digest mismatch in receipt", tsUri }
  else if receipt.verifiableDataStructure ≠ vdsRfc9162Sha256 then
    .ok { valid := false, reason := txt "unsupported verifiable-data-structure", tsUri }
  else
    match decodeProof receipt with
    | .error e =>
      if isReadError e then refuseWith (txt "path decode: " ++ rt.receiptError receipt) tsUri else .error e
    | .ok (path, leafHash, expectedRoot) =>
      if verifyMerkleInclusion leafHash receipt.leafIndex receipt.treeSize path expectedRoot = false then
        .ok { valid := false, reason := txt "inclusion proof invalid", tsUri }
      else do
        let message ← canonicalJsonBytes (receiptSigningInput receipt.tsUri receipt.leafIndex
          receipt.treeSize receipt.treeRootHex receipt.statementDigestHex receipt.registeredAtEpoch)
        match decodeSignature rt receipt with
        | .error e =>
          if isReadError e then refuseWith (txt "receipt decode: " ++ rt.receiptError receipt) tsUri
          else .error e
        | .ok (provider, sig, pub) =>
          if ← provider.verify message sig pub then
            return {
              valid := true
              reason := txt "ok"
              receiptSignatureValid := true
              inclusionProofValid := true
              tsUri }
          else
            return { valid := false, reason := txt "receipt signature invalid", inclusionProofValid := true, tsUri }

end TexGovernance.Vet
