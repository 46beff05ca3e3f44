import TexGovernance.Lib.Sha2
import TexGovernance.Vet.Scitt

/-!
# Selective disclosure (`vet/selective_disclosure.py`)

The issuer commits to the claims of a credential one by one and signs the root of a Merkle tree
over the commitments. The holder reveals some of them, each with its path to the root.
-/

namespace TexGovernance.Vet.SelectiveDisclosure
open PyStr PyBytes PyCodec JsonLoads JsonText PyValue PyDict Sha256 Hmac
open PyRepr (Plain utf8)
open Enforcement (b64url b64urlDecode)
open Pqcrypto

/-- `canonical_json`. -/
def canonicalJson (v : JsonValue) : Except Raised Bytes := do
  let text ← PyValue.dumps keepChars v
  raising (utf8Encode text)

structure TextField (low : ℕ) where
  text : Str
  plain : Plain text
  long : low ≤ text.length

def toField (low : ℕ) (s : Str) : Except Raised (TextField low) :=
  if h : Plain s ∧ low ≤ s.length then .ok ⟨s, h.1, h.2⟩ else .error (.py .valueError)

structure HexField where
  text : Str
  plain : Plain text
  length_eq : text.length = 64

def toHexField (s : Str) : Except Raised HexField :=
  if h : Plain s ∧ s.length = 64 then .ok ⟨s, h.1, h.2⟩ else .error (.py .valueError)

structure ClaimDisclosure where
  claimPointer : TextField 1
  claimName : TextField 1
  claimValue : JsonValue
  salt : TextField 22
  commitment : HexField

structure BaseProof where
  cryptosuite : TextField 1
  algorithm : SignatureAlgorithm
  issuerPublicKey : TextField 1
  issuerKeyId : TextField 1
  commitments : List ClaimDisclosure
  merkleRoot : HexField
  signature : TextField 1
  header : TextField 0

structure DerivedProof where
  baseCryptosuite : TextField 0
  algorithm : SignatureAlgorithm
  issuerPublicKey : TextField 0
  issuerKeyId : TextField 0
  merkleRoot : HexField
  revealed : List ClaimDisclosure
  merkleInclusionProofs : List (List Str)
  revealedIndices : List ℤ
  totalLeaves : ℤ
  baseSignature : TextField 0
  presentationHeader : TextField 0
  presentationBinding : HexField
  leaves_pos : 1 ≤ totalLeaves

def TextField.loose {low : ℕ} (field : TextField low) : TextField 0 := ⟨field.text, field.plain, Nat.zero_le _⟩

/-- `_hash_pair`. -/
def hashPair (left right : Bytes) : Bytes := (sha256 (1 :: left ++ right)).bytes

/-- `_hash_leaf`. -/
def hashLeaf (commitmentHex : Str) : Except Raised Bytes := do
  let bytes ← raising (fromhex commitmentHex)
  return (sha256 (0 :: bytes)).bytes

def rootOf (leaves : List Bytes) : Bytes :=
  (DuplicateTree.climb Prod.mk (Function.uncurry hashPair) leaves.length leaves).headD []

def proofOf (leaves : List Bytes) (index : ℕ) : List Str :=
  (DuplicateTree.inclusionPath hashPair leaves.length leaves index).map hex

/-- `_merkle_root_and_proofs`. -/
def merkleRootAndProofs (commitmentHexes : List Str) : Except Raised (Str × List (List Str)) :=
  if commitmentHexes = [] then .error (.py .valueError)
  else do
    let leaves ← commitmentHexes.mapM hashLeaf
    return (hex (rootOf leaves), (List.range leaves.length).map (proofOf leaves))

/-- The loop of `_verify_merkle_inclusion`; nothing where a duplicate is not one. -/
def climbSiblings (current : Bytes) (idx width : ℤ) : List Str → Except Raised (Option Bytes)
  | [] => .ok (some current)
  | siblingHex :: rest => do
    let sibling ← raising (fromhex siblingHex)
    match DuplicateTree.stepPair current sibling idx width with
    | none => return none
    | some p => climbSiblings (hashPair p.1 p.2) (idx / 2) ((width + 1) / 2) rest

/-- `_verify_merkle_inclusion`. -/
def verifyMerkleInclusion (commitmentHex : Str) (leafIndex totalLeaves : ℤ) (siblingChain : List Str)
    (expectedRootHex : Str) : Except Raised Bool := do
  let leaf ← hashLeaf commitmentHex
  let top ← climbSiblings leaf leafIndex totalLeaves siblingChain
  return top.any fun root => hex root = expectedRootHex

inductive KeysOnce : Members → Prop
  | intro {members : Members} (nodup : (members.map Prod.fst).Nodup)
      (inner : ∀ key nested, (key, .obj nested) ∈ members → KeysOnce nested) : KeysOnce members

structure CredentialSubject where
  members : Members
  keysOnce : KeysOnce members

structure Claim where
  pointer : Str
  name : Str
  value : JsonValue

def replaceChar (c : CodePoint) (text s : Str) : Str := s.flatMap fun d => if d = c then text else [d]

def escaped (key : Str) : Str := replaceChar (cp '/') (txt "~1") (replaceChar (cp '~') (txt "~0") key)

def pointerAt (parent key : Str) : Str := parent ++ cp '/' :: escaped key

mutual

/-- `_flatten_claims`. -/
def flattenClaims (parent : Str) : Members → List Claim
  | [] => []
  | (key, value) :: rest => flattenValue (pointerAt parent key) key value ++ flattenClaims parent rest

def flattenValue (pointer key : Str) : JsonValue → List Claim
  | .obj members =>
    match flattenClaims pointer members with
    | [] => [⟨pointer, key, .obj members⟩]
    | claim :: claims => claim :: claims
  | value => [⟨pointer, key, value⟩]

end

def CredentialSubject.claims (subject : CredentialSubject) : List Claim := flattenClaims [] subject.members

def ClaimDisclosure.claim (d : ClaimDisclosure) : Claim := ⟨d.claimPointer.text, d.claimName.text, d.claimValue⟩

/-- `_make_commitment`. -/
def makeCommitment (salt claimName : Str) (claimValue : JsonValue) : Except Raised Str := do
  let payload ← canonicalJson (.arr [.str salt, .str claimName, claimValue])
  return hex (sha256 payload).bytes

/-- What `secrets.token_bytes(16)` gives. -/
structure SaltBytes where
  bytes : Bytes
  length_eq : bytes.length = 16

def disclose (salt : SaltBytes) (claim : Claim) : Except Raised ClaimDisclosure := do
  let commitmentHex ← makeCommitment (b64url salt.bytes) claim.name claim.value
  let claimPointer ← toField 1 claim.pointer
  let claimName ← toField 1 claim.name
  let salt ← toField 22 (b64url salt.bytes)
  let commitment ← toHexField commitmentHex
  return { claimPointer, claimName, claimValue := claim.value, salt, commitment }

def discloseAll (salts : ℕ → SaltBytes) : List Claim → Except Raised (List ClaimDisclosure)
  | [] => .ok []
  | claim :: claims => do
    let disclosure ← disclose (salts 0) claim
    let disclosures ← discloseAll (fun n => salts (n + 1)) claims
    return disclosure :: disclosures

def hexes (commitments : List ClaimDisclosure) : List Str := commitments.map fun c => c.commitment.text

structure IssuerRuntime where
  providers : Providers
  /-- `generate_keypair` of the provider of an algorithm. -/
  generateKeypair : SignatureAlgorithm → Str → Except Raised SignatureKeyPair

structure IssueCall where
  credentialSubject : CredentialSubject
  algorithm : SignatureAlgorithm
  issuerKeypair : Option SignatureKeyPair
  header : Bytes

variable (rt : IssuerRuntime)

def issuerKey (call : IssueCall) : Except Raised SignatureKeyPair :=
  match call.issuerKeypair with
  | none => rt.generateKeypair call.algorithm (txt "aid-issuer")
  | some key => if key.algorithm ≠ call.algorithm then .error (.py .valueError) else .ok key

def tag (name : String) : Bytes := utf8 (txt name) ++ [0]

def signingInput (root header : Bytes) : Bytes := tag "AID-BASE-PROOF" ++ root ++ 0 :: header

/-- `header.decode("utf-8", errors="ignore")`; a byte that starts no character is left out. -/
def decodeIgnoring : ℕ → Bytes → Str
  | 0, _ => []
  | _, [] => []
  | rounds + 1, b :: bs =>
    match decodeCodePoint (b :: bs) with
    | none => decodeIgnoring rounds bs
    | some (n, rest) =>
      if (encodeCodePoint (Fin.ofNat 0x110000 n)).map (· ++ rest) = some (b :: bs) then
        Fin.ofNat 0x110000 n :: decodeIgnoring rounds rest
      else decodeIgnoring rounds bs

def headerText (header : Bytes) : Str := decodeIgnoring header.length header

def algorithmName (algorithm : SignatureAlgorithm) : Str :=
  ((SignatureAlgorithm.values.find? fun member => member.1 = algorithm).map Prod.snd).getD []

def signBase (call : IssueCall) (commitments : List ClaimDisclosure) (rootHex : Str) : Except Raised BaseProof := do
  let provider ← rt.providers call.algorithm
  let key ← issuerKey rt call
  let root ← raising (fromhex rootHex)
  let signatureBytes ← provider.sign (signingInput root call.header) key
  let cryptosuite ← toField 1 (txt "bbs-2023-shape-" ++ algorithmName call.algorithm)
  let issuerPublicKey ← toField 1 (b64url key.publicKey)
  let issuerKeyId ← toField 1 key.keyId
  let merkleRoot ← toHexField rootHex
  let signature ← toField 1 (b64url signatureBytes)
  let header ← toField 0 (headerText call.header)
  return {
    cryptosuite
    algorithm := call.algorithm
    issuerPublicKey
    issuerKeyId
    commitments
    merkleRoot
    signature
    header }

def issueCredential (call : IssueCall) (salts : ℕ → SaltBytes) : Except Raised BaseProof :=
  if call.credentialSubject.members = [] then .error (.py .valueError)
  else if call.credentialSubject.claims = [] then .error (.py .valueError)
  else do
    let commitments ← discloseAll salts call.credentialSubject.claims
    let (rootHex, _) ← merkleRootAndProofs (hexes commitments)
    signBase rt call commitments rootHex

def failClosed (x : Except Raised Bool) : Except Raised Bool :=
  match x with
  | .ok b => .ok b
  | .error e => if isReadError e then .ok false else .error e

def recomputes : List ClaimDisclosure → Except Raised Bool
  | [] => .ok true
  | c :: rest => do
    let expected ← makeCommitment c.salt.text c.claimName.text c.claimValue
    if ← compareDigest expected c.commitment.text then recomputes rest else return false

def signedRoot (algorithm : SignatureAlgorithm) (issuerPublicKey signature rootHex : Str) (header : Bytes) :
    Except Raised Bool := do
  let pubBytes ← b64urlDecode issuerPublicKey
  let sigBytes ← b64urlDecode signature
  let root ← raising (fromhex rootHex)
  let provider ← rt.providers algorithm
  provider.verify (signingInput root header) sigBytes pubBytes

def baseChecks (base : BaseProof) : Except Raised Bool := do
  if ← recomputes base.commitments then
    let (rootHex, _) ← merkleRootAndProofs (hexes base.commitments)
    if ← compareDigest rootHex base.merkleRoot.text then
      signedRoot rt base.algorithm base.issuerPublicKey.text base.signature.text base.merkleRoot.text
        (utf8 base.header.text)
    else return false
  else return false

def verifyBaseProof (base : BaseProof) : Except Raised Bool := failClosed (baseChecks rt base)

def bindingOf (root header : Bytes) : Str := hex (hmacSha256 root (tag "AID-PRES-BINDING" ++ header)).bytes

def pointerToIndex (base : BaseProof) : Dict Str ℕ :=
  .ofItems (base.commitments.zipIdx.map fun c => (c.1.claimPointer.text, c.2))

def lookUp (base : BaseProof) (pointer : Str) : Except Raised (ℕ × ClaimDisclosure) :=
  match (pointerToIndex base).get? pointer with
  | none => .error (.py .valueError)
  | some idx =>
    match base.commitments[idx]? with
    | none => .error (.py .other)
    | some disclosure => .ok (idx, disclosure)

def derivePresentation (base : BaseProof) (revealPointers : List Str) (presentationHeader : Bytes) :
    Except Raised DerivedProof := do
  let found ← revealPointers.mapM (lookUp base)
  let (_, allProofs) ← merkleRootAndProofs (hexes base.commitments)
  let root ← raising (fromhex base.merkleRoot.text)
  let header ← toField 0 (headerText presentationHeader)
  let binding ← toHexField (bindingOf root presentationHeader)
  if h : 1 ≤ (base.commitments.length : ℤ) then
    return {
      baseCryptosuite := base.cryptosuite.loose
      algorithm := base.algorithm
      issuerPublicKey := base.issuerPublicKey.loose
      issuerKeyId := base.issuerKeyId.loose
      merkleRoot := base.merkleRoot
      revealed := found.map Prod.snd
      merkleInclusionProofs := found.map fun place => (allProofs[place.1]?).getD []
      revealedIndices := found.map fun place => (place.1 : ℤ)
      totalLeaves := base.commitments.length
      baseSignature := base.signature.loose
      presentationHeader := header
      presentationBinding := binding
      leaves_pos := h }
  else .error (.py .valueError)

/-- The strict `zip` of the disclosures with their indices and paths. -/
def included (derived : DerivedProof) : List ClaimDisclosure → List ℤ → List (List Str) → Except Raised Bool
  | [], [], [] => .ok true
  | disclosure :: disclosures, leafIndex :: indices, chain :: chains => do
    if ← verifyMerkleInclusion disclosure.commitment.text leafIndex derived.totalLeaves chain
        derived.merkleRoot.text then
      included derived disclosures indices chains
    else return false
  | _, _, _ => .error (.py .valueError)

def boundTo (derived : DerivedProof) : Option Bytes → Except Raised Bool
  | none => .ok true
  | some expected => do
    let root ← raising (fromhex derived.merkleRoot.text)
    compareDigest (bindingOf root expected) derived.presentationBinding.text

def presentationChecks (derived : DerivedProof) (expectedHeader : Option Bytes) : Except Raised Bool := do
  if ← recomputes derived.revealed then
    if derived.merkleInclusionProofs.length ≠ derived.revealed.length then return false
    else if ← included derived derived.revealed derived.revealedIndices derived.merkleInclusionProofs then
      -- the header of the base proof is taken to be empty
      if ← signedRoot rt derived.algorithm derived.issuerPublicKey.text derived.baseSignature.text
          derived.merkleRoot.text [] then
        boundTo derived expectedHeader
      else return false
    else return false
  else return false

def verifyPresentation (derived : DerivedProof) (expectedHeader : Option Bytes) : Except Raised Bool :=
  failClosed (presentationChecks rt derived expectedHeader)

end TexGovernance.Vet.SelectiveDisclosure
