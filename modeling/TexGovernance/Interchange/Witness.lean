import TexGovernance.Interchange.Note

/-!
# The witness (interchange/gix_witness.py)

`Witness.add_checkpoint` as a step on the recorded checkpoints, and the verification of
cosignatures. The state after a call is given also where an exception escapes.
-/

namespace TexGovernance.Interchange
open PyStr PyBytes PyCodec Sha256 TexGovernance.Ecosystem

inductive BodyError where
  | noOldLine
  | badOldLine
  | badOldSize
  | noSeparator
  | tooManyProofLines
  | badProofBase64
  | badProofLength
  | noCheckpoint
  deriving DecidableEq, Repr

def cutLine : Str → Option (Str × Str)
  | [] => none
  | c :: rest =>
    if c = newline then some ([], rest) else (cutLine rest).map fun r => (c :: r.1, r.2)

def maxProofLines : ℕ := 63

/-- The proof lines up to the empty line; `allowance` more are admitted. -/
def parseProofLines (allowance : ℕ) (rest : Str) : Except BodyError (List Str × Str) :=
  match cutLine rest with
  | none => .error .noSeparator
  | some (line, rest) =>
    if line.isEmpty then .ok ([], rest)
    else match allowance with
      | 0 => .error .tooManyProofLines
      | allowance + 1 =>
        match b64decode line with
        | none => .error .badProofBase64
        | some raw =>
          if raw.length ≠ 32 then .error .badProofLength
          else match parseProofLines allowance rest with
            | .error e => .error e
            | .ok (proof, rest) => .ok (hex raw :: proof, rest)

structure AddCheckpointBody where
  oldSize : ℕ
  proof : List Str
  signedNote : Str

/-- `_parse_add_checkpoint_body`: a reason when malformed; `int` can raise. -/
def parseAddCheckpointBody (body : Str) : Except PyErr (Except BodyError AddCheckpointBody) :=
  match cutLine body with
  | none => .ok (.error .noOldLine)
  | some (oldLine, rest) =>
    if !(lit ['o', 'l', 'd', ' ']).isPrefixOf oldLine then .ok (.error .badOldLine)
    else
      let sizeText := oldLine.drop 4
      if !isSizeText sizeText then .ok (.error .badOldSize)
      else match intOfDigits sizeText with
        | .error e => .error e
        | .ok oldSize =>
          match parseProofLines maxProofLines rest with
          | .error e => .ok (.error e)
          | .ok (proof, rest) =>
            if rest.isEmpty then .ok (.error .noCheckpoint)
            else .ok (.ok ⟨oldSize, proof, rest⟩)

inductive WitnessOutcome where
  | cosigned
  | malformed
  | logUnauthenticated
  | unknownLog
  | conflict
  | badConsistencyProof
  deriving DecidableEq, Repr

inductive Reason where
  | body (e : BodyError)
  | note (e : NoteError)
  | unknownOrigin (origin : Str)
  | noTrustedSignature
  | oldSizeAboveSize
  | oldSizeNotLatest
  | sameSizeProof
  | equivocation
  | notEmptyRoot
  | proofFromZero
  | proofDoesNotVerify
  | cosigned
  deriving DecidableEq

structure WitnessResponse where
  outcome : WitnessOutcome
  reason : Reason
  cosignatureLine : Option Str
  latestSize : Option ℕ
  deriving DecidableEq

def refuse (outcome : WitnessOutcome) (reason : Reason) : WitnessResponse :=
  ⟨outcome, reason, none, none⟩

inductive WitnessProvenance where
  | inProcess
  | selfHosted
  | externalFederated
  deriving DecidableEq, Repr

/-- `WitnessDescriptor`, with what `__post_init__` checks. -/
@[ext]
structure WitnessDescriptor where
  name : Str
  publicKeyRaw : Bytes
  provenance : WitnessProvenance
  not_external : provenance ≠ .externalFederated
  key_length : publicKeyRaw.length = 32

instance : DecidableEq WitnessDescriptor := fun _ _ => decidable_of_iff' _ WitnessDescriptor.ext_iff

def cosigAlgEd25519 : Bytes := [0x04]

def WitnessDescriptor.keyId (d : WitnessDescriptor) : Except PyErr Bytes :=
  ed25519KeyId d.name cosigAlgEd25519 d.publicKeyRaw

def cosigHeader : Bytes :=
  [0x63, 0x6f, 0x73, 0x69, 0x67, 0x6e, 0x61, 0x74, 0x75, 0x72, 0x65, 0x2f, 0x76, 0x31, 0x0a]

def timeText : Bytes := [0x74, 0x69, 0x6d, 0x65, 0x20]

def cosignatureMessage (timestamp : ℕ) (noteText : Str) : Except PyErr Bytes := do
  let digits ← decimalText timestamp
  let digitBytes ← utf8Encode digits
  let noteBytes ← utf8Encode noteText
  return cosigHeader ++ timeText ++ digitBytes ++ [0x0a] ++ noteBytes

/-- The fields of a `Witness` that never change, with the signing of its
private key. -/
structure Witness where
  name : Str
  trustedLogs : List (Str × NoteVerifier)
  provenance : WitnessProvenance
  publicRaw : Bytes
  sign : Bytes → Bytes
  name_ok : name ≠ [] ∧ newline ∉ name
  not_external : provenance ≠ .externalFederated
  key_length : publicRaw.length = 32

def Witness.descriptor (w : Witness) : WitnessDescriptor :=
  ⟨w.name, w.publicRaw, w.provenance, w.not_external, w.key_length⟩

/-- `_latest`: the size and root of the last recorded checkpoint per origin. -/
abbrev Latest := Str → Option (ℕ × Digest)

structure Submission where
  oldSize : ℕ
  proof : List Str
  noteText : Str
  checkpoint : Checkpoint
  old_le : oldSize ≤ checkpoint.treeSize

section Verification

variable (ed25519Verify : Bytes → Bytes → Bytes → Bool)

/-- `add_checkpoint` before the lock: a refusal or a submission. -/
def receive (w : Witness) (body : Str) : Except PyErr (Except WitnessResponse Submission) :=
  match parseAddCheckpointBody body with
  | .error e => .error e
  | .ok (.error e) => .ok (.error (refuse .malformed (.body e)))
  | .ok (.ok parsed) =>
    match splitSignedNote parsed.signedNote with
    | .error e => .ok (.error (refuse .malformed (.note e)))
    | .ok (noteText, _) =>
      match Checkpoint.parse noteText with
      | .error e => .ok (.error (refuse .malformed (.note e)))
      | .ok checkpoint =>
        match w.trustedLogs.lookup checkpoint.origin with
        | none => .ok (.error (refuse .unknownLog (.unknownOrigin checkpoint.origin)))
        | some logVerifier =>
          match verifyNote ed25519Verify parsed.signedNote [logVerifier] with
          | .error e => .error e
          | .ok [] => .ok (.error (refuse .logUnauthenticated .noTrustedSignature))
          | .ok (_ :: _) =>
            if h : parsed.oldSize ≤ checkpoint.treeSize then
              .ok (.ok ⟨parsed.oldSize, parsed.proof, noteText, checkpoint, h⟩)
            else .ok (.error (refuse .malformed .oldSizeAboveSize))

def checkLatest (entry : Option (ℕ × Digest)) (s : Submission) :
    Except PyErr (Option WitnessResponse) :=
  let latestSize := match entry with
    | some e => e.1
    | none => 0
  let latestRoot := entry.map Prod.snd
  if s.oldSize ≠ latestSize then .ok (some ⟨.conflict, .oldSizeNotLatest, none, some latestSize⟩)
  else if s.oldSize = s.checkpoint.treeSize then
    if !s.proof.isEmpty then .ok (some (refuse .badConsistencyProof .sameSizeProof))
    else match latestRoot with
      | some root =>
        if root ≠ s.checkpoint.rootHash then
          .ok (some ⟨.conflict, .equivocation, none, some latestSize⟩)
        else .ok none
      | none =>
        if hex s.checkpoint.rootHash.bytes ≠ emptyRoot then
          .ok (some (refuse .badConsistencyProof .notEmptyRoot))
        else .ok none
  else if s.oldSize = 0 then
    if !s.proof.isEmpty then .ok (some (refuse .badConsistencyProof .proofFromZero))
    else .ok none
  else match latestRoot with
    | none => .error .assertionError
    | some root =>
      if !verifyConsistency s.oldSize (hex root.bytes) s.checkpoint.treeSize
          (hex s.checkpoint.rootHash.bytes) s.proof then
        .ok (some (refuse .badConsistencyProof .proofDoesNotVerify))
      else .ok none

def cosign (w : Witness) (clock : ℤ) (noteText : Str) : Except PyErr Str := do
  let timestamp := (max 1 clock).toNat
  let message ← cosignatureMessage timestamp noteText
  let signature := w.sign message
  let keyId ← w.descriptor.keyId
  if 2 ^ 64 ≤ timestamp then .error .overflowError
  else
    return sigLinePrefix ++ w.name ++ [cp ' '] ++
      b64encode (keyId ++ toBytesBig 8 timestamp ++ signature)

def record (latest : Latest) (c : Checkpoint) : Latest :=
  fun origin => if origin = c.origin then some (c.treeSize, c.rootHash) else latest origin

def addCheckpoint (w : Witness) (latest : Latest) (clock : ℤ) (body : Str) :
    Latest × Except PyErr WitnessResponse :=
  match receive ed25519Verify w body with
  | .error e => (latest, .error e)
  | .ok (.error refusal) => (latest, .ok refusal)
  | .ok (.ok s) =>
    match checkLatest (latest s.checkpoint.origin) s with
    | .error e => (latest, .error e)
    | .ok (some refusal) => (latest, .ok refusal)
    | .ok none =>
      (record latest s.checkpoint,
        match cosign w clock s.noteText with
        | .error e => .error e
        | .ok line => .ok ⟨.cosigned, .cosigned, some line, none⟩)

structure Cosignature where
  name : Str
  keyId : Bytes
  timestamp : ℕ
  signature : Bytes
  deriving DecidableEq

def parseCosignatureLine (line : Str) : Option Cosignature :=
  if !sigLinePrefix.isPrefixOf line then none
  else
    let rest := (line.drop sigLinePrefix.length).reverse.dropWhile (· = newline) |>.reverse
    match rsplitSpace rest with
    | none => none
    | some (name, b64) =>
      if name.isEmpty then none
      else match b64decode b64 with
        | none => none
        | some blob =>
          if blob.length ≠ 76 then none
          else some ⟨name, blob.take 4, fromBytesBig ((blob.drop 4).take 8), blob.drop 12⟩

/-- `verify_cosignature_line`. The name is compared before the rest of the
line is decoded, but every failure of either returns `False`. -/
def verifyCosignatureLine (line noteText : Str) (d : WitnessDescriptor) : Except PyErr Bool :=
  match parseCosignatureLine line with
  | none => .ok false
  | some c =>
    if c.name ≠ d.name then .ok false
    else match d.keyId with
      | .error e => .error e
      | .ok keyId =>
        if c.keyId ≠ keyId then .ok false
        else if c.timestamp = 0 then .ok false
        else match cosignatureMessage c.timestamp noteText with
          | .error e => .error e
          | .ok message => .ok (ed25519Verify d.publicKeyRaw message c.signature)

structure CosignedCheckpoint where
  signedNote : Str
  cosignatureLines : List Str
  deriving DecidableEq

/-- `{d.name: d for d in roster}`: the first position and the last value. -/
def byName (roster : List WitnessDescriptor) : List (Str × WitnessDescriptor) :=
  roster.foldl (fun dict d =>
    if dict.any fun e => e.1 = d.name then
      dict.map fun e => if e.1 = d.name then (d.name, d) else e
    else dict ++ [(d.name, d)]) []

def firstCosigner (line noteText : Str) (valid : List Str) :
    List (Str × WitnessDescriptor) → Except PyErr (Option Str)
  | [] => .ok none
  | (name, d) :: rest =>
    if name ∈ valid then firstCosigner line noteText valid rest
    else match verifyCosignatureLine ed25519Verify line noteText d with
      | .error e => .error e
      | .ok true => .ok (some name)
      | .ok false => firstCosigner line noteText valid rest

def validCosigners (noteText : Str) (dict : List (Str × WitnessDescriptor)) :
    List Str → List Str → Except PyErr (List Str)
  | valid, [] => .ok valid
  | valid, line :: lines =>
    match firstCosigner ed25519Verify line noteText valid dict with
    | .error e => .error e
    | .ok none => validCosigners noteText dict valid lines
    | .ok (some name) => validCosigners noteText dict (valid ++ [name]) lines

structure CheckpointVerification where
  checkpoint : Option Checkpoint
  logSignatureValid : Bool
  validCosigners : List Str
  quorum : ℤ
  quorumMet : Bool
  federated : Bool
  deriving DecidableEq

def failedVerification (quorum : ℤ) (checkpoint : Option Checkpoint) : CheckpointVerification :=
  ⟨checkpoint, false, [], quorum, false, false⟩

/-- `verify_cosigned_checkpoint`, without the texts of its two reasons. -/
def verifyCosignedCheckpoint (cosigned : CosignedCheckpoint) (logVerifier : NoteVerifier)
    (roster : List WitnessDescriptor) (quorum : ℤ) : Except PyErr CheckpointVerification :=
  if quorum < 1 then .error .valueError
  else match splitSignedNote cosigned.signedNote with
    | .error _ => .ok (failedVerification quorum none)
    | .ok (noteText, _) =>
      match Checkpoint.parse noteText with
      | .error _ => .ok (failedVerification quorum none)
      | .ok checkpoint =>
        match verifyNote ed25519Verify cosigned.signedNote [logVerifier] with
        | .error e => .error e
        | .ok [] => .ok (failedVerification quorum (some checkpoint))
        | .ok (_ :: _) =>
          match validCosigners ed25519Verify noteText (byName roster) []
              cosigned.cosignatureLines with
          | .error e => .error e
          | .ok valid =>
            let quorumMet := decide (quorum ≤ valid.length)
            -- no descriptor is external, so every counted cosigner is one that is not
            let nonExternal := (byName roster).filter fun e =>
              valid.contains e.1 && e.2.provenance ≠ .externalFederated
            .ok ⟨some checkpoint, true, valid, quorum, quorumMet,
              quorumMet && nonExternal.isEmpty && !valid.isEmpty⟩

end Verification

end TexGovernance.Interchange
