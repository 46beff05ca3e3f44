import TexGovernance.Ecosystem.Window
import TexGovernance.Lib.PyBytes

/-!
# Inclusion and consistency proofs, checkpoints and signed notes (interchange/gix.py)

Generation recurses on slices of the record-hash list. Verification never sees the list: it
walks two cursors, `fn` and `sn`, up the tree while folding the proof.
-/

namespace TexGovernance.Interchange
open PyStr PyBytes Sha256 TexGovernance.Ecosystem

abbrev largestPowerOfTwoBelow (n : ℕ) : ℕ := MerkleTree.splitPoint n

def inclusionPathFuel : ℕ → ℤ → List Str → Except PyErr (List Str)
  | 0, _, _ => .error .valueError
  | fuel + 1, leafIndex, D =>
    let n := D.length
    if n = 0 then .error .valueError
    else if ¬ (0 ≤ leafIndex ∧ leafIndex < n) then .error .valueError
    else if n = 1 then .ok []
    else
      let k := largestPowerOfTwoBelow n
      if leafIndex < k then do
        let path ← inclusionPathFuel fuel leafIndex (D.take k)
        let root ← merkleRoot (D.drop k)
        return path ++ [root]
      else do
        let path ← inclusionPathFuel fuel (leafIndex - k) (D.drop k)
        let root ← merkleRoot (D.take k)
        return path ++ [root]

def inclusionPath (leafIndex : ℤ) (D : List Str) : Except PyErr (List Str) :=
  inclusionPathFuel D.length leafIndex D

def subproofFuel : ℕ → ℕ → List Str → Bool → Except PyErr (List Str)
  | 0, _, _, _ => .error .valueError
  | fuel + 1, m, d, b =>
    let n := d.length
    if m = n then
      if b then .ok []
      else do
        let root ← merkleRoot d
        return [root]
    else
      let k := largestPowerOfTwoBelow n
      if m ≤ k then do
        let path ← subproofFuel fuel m (d.take k) b
        let root ← merkleRoot (d.drop k)
        return path ++ [root]
      else do
        let path ← subproofFuel fuel (m - k) (d.drop k) false
        let root ← merkleRoot (d.take k)
        return path ++ [root]

def consistencyPath (firstSize : ℤ) (D : List Str) : Except PyErr (List Str) :=
  let n := D.length
  if ¬ (0 < firstSize ∧ firstSize ≤ n) then .error .valueError
  else if firstSize = n then .ok []
  else subproofFuel n firstSize.toNat D true

def decodeHash (item : Str) : Option Digest :=
  match fromhex item with
  | .error _ => none
  | .ok raw => if h : raw.length = 32 then some ⟨raw, h⟩ else none

def decodeHashList (items : List Str) : Option (List Digest) := items.mapM decodeHash

/-- `while fn != 0 and not (fn & 1)`: shift both cursors. -/
def stripZeros : ℕ → ℕ → ℕ → ℕ × ℕ
  | 0, fn, sn => (fn, sn)
  | fuel + 1, fn, sn =>
    if fn ≠ 0 ∧ fn % 2 = 0 then stripZeros fuel (fn / 2) (sn / 2) else (fn, sn)

/-- `while fn & 1`: shift both cursors. -/
def stripOnes : ℕ → ℕ → ℕ → ℕ × ℕ
  | 0, fn, sn => (fn, sn)
  | fuel + 1, fn, sn => if fn % 2 = 1 then stripOnes fuel (fn / 2) (sn / 2) else (fn, sn)

/-- `(fn & 1) or fn == sn`: the proof node is joined on the left. -/
def joinsLeft (fn sn : ℕ) : Bool := fn % 2 == 1 || fn == sn

def advance (fn sn : ℕ) : ℕ × ℕ :=
  let c := if joinsLeft fn sn && fn % 2 == 0 then stripZeros fn fn sn else (fn, sn)
  (c.1 / 2, c.2 / 2)

/-- The loop of `verify_inclusion`: `none` where it returns `False` from
inside, otherwise the final `sn` and `r`. -/
def inclusionWalk : ℕ → ℕ → Digest → List Digest → Option (ℕ × Digest)
  | _, sn, r, [] => some (sn, r)
  | fn, sn, r, p :: path =>
    if sn = 0 then none
    else
      let r' := if joinsLeft fn sn then node p r else node r p
      inclusionWalk (advance fn sn).1 (advance fn sn).2 r' path

def verifyInclusion (recordHashHex : Str) (leafIndex treeSize : ℤ) (proofHex : List Str)
    (rootHex : Str) : Bool :=
  if leafIndex < 0 ∨ treeSize < 1 ∨ treeSize ≤ leafIndex then false
  else match leafDigest recordHashHex with
    | .error _ => false
    | .ok r =>
      match decodeHash rootHex, decodeHashList proofHex with
      | some expectedRoot, some path =>
        match inclusionWalk leafIndex.toNat (treeSize.toNat - 1) r path with
        | none => false
        | some (sn, r) => sn == 0 && r == expectedRoot
      | _, _ => false

/-- The loop of `verify_consistency`, with the final `sn`, `fr` and `sr`. -/
def consistencyWalk : ℕ → ℕ → Digest → Digest → List Digest → Option (ℕ × Digest × Digest)
  | _, sn, fr, sr, [] => some (sn, fr, sr)
  | fn, sn, fr, sr, c :: path =>
    if sn = 0 then none
    else
      let fr' := if joinsLeft fn sn then node c fr else fr
      let sr' := if joinsLeft fn sn then node c sr else node sr c
      consistencyWalk (advance fn sn).1 (advance fn sn).2 fr' sr' path

/-- `verify_consistency` after the sizes are known to differ and the proof is
decoded and not empty. -/
def verifyConsistencyPath (firstSize secondSize : ℕ) (firstRoot secondRoot : Digest)
    (path : List Digest) : Bool :=
  let path := if firstSize &&& (firstSize - 1) = 0 then firstRoot :: path else path
  let c := stripOnes (firstSize - 1) (firstSize - 1) (secondSize - 1)
  match path with
  | [] => false
  | head :: rest =>
    match consistencyWalk c.1 c.2 head head rest with
    | none => false
    | some (sn, fr, sr) => fr == firstRoot && sr == secondRoot && sn == 0

def verifyConsistency (firstSize : ℤ) (firstRootHex : Str) (secondSize : ℤ) (secondRootHex : Str)
    (proofHex : List Str) : Bool :=
  if firstSize < 0 ∨ secondSize < firstSize then false
  else match decodeHash firstRootHex, decodeHash secondRootHex with
    | some firstRoot, some secondRoot =>
      if firstSize = 0 then proofHex.isEmpty && hex firstRoot.bytes == emptyRoot
      else if firstSize = secondSize then proofHex.isEmpty && firstRoot == secondRoot
      else match decodeHashList proofHex with
        | none => false
        | some path =>
          if path.isEmpty then false
          else verifyConsistencyPath firstSize.toNat secondSize.toNat firstRoot secondRoot path
    | _, _ => false

def inclusionPairs : ℕ → ℕ → Digest → List Digest → List (Digest × Digest)
  | _, _, _, [] => []
  | fn, sn, r, p :: path =>
    if sn = 0 then []
    else
      let q := if joinsLeft fn sn then (p, r) else (r, p)
      q :: inclusionPairs (advance fn sn).1 (advance fn sn).2 (node q.1 q.2) path

def firstRootPairs : ℕ → ℕ → Digest → List Digest → List (Digest × Digest)
  | _, _, _, [] => []
  | fn, sn, fr, c :: path =>
    if sn = 0 then []
    else if joinsLeft fn sn then
      (c, fr) :: firstRootPairs (advance fn sn).1 (advance fn sn).2 (node c fr) path
    else firstRootPairs (advance fn sn).1 (advance fn sn).2 fr path

end TexGovernance.Interchange

/-!
## Checkpoints and signed notes (interchange/gix.py)

The checkpoint body (origin line, size, root, extension lines), the signed note that carries it,
and the request body of a witness. Ed25519 verification is a parameter, and its signing is a
field of whoever holds a private key.
-/

namespace TexGovernance.Interchange
open PyStr PyBytes PyCodec Sha256 TexGovernance.Ecosystem

def newline : CodePoint := cp '\n'

def sigLinePrefix : Str := lit ['—', ' ']

def splitNewline : Str → List Str
  | [] => [[]]
  | c :: rest =>
    if c = newline then [] :: splitNewline rest
    else match splitNewline rest with
      | [] => [[c]]
      | line :: lines => (c :: line) :: lines

def splitBlank : Str → Option (Str × Str)
  | [] => none
  | [_] => none
  | c :: d :: rest =>
    if c = newline ∧ d = newline then some ([c], rest)
    else (splitBlank (d :: rest)).map fun r => (c :: r.1, r.2)

def rsplitSpace : Str → Option (Str × Str)
  | [] => none
  | c :: rest =>
    match rsplitSpace rest with
    | some r => some (c :: r.1, r.2)
    | none => if c = cp ' ' then some ([], rest) else none

inductive NoteError where
  | noSeparator
  | noSignatureLines
  | badSignaturePrefix
  | noFinalNewline
  | tooFewLines
  | badSizeText
  | badRootBase64
  | badInteger
  | badOrigin
  | badRootLength
  | badExtensionLine
  deriving DecidableEq, Repr

def hasControlChars (line : Str) : Bool := line.any fun c => c.val < 0x20

def isCleanLine (line : Str) : Bool := !line.isEmpty && !hasControlChars line

/-- `Checkpoint`, with what `__post_init__` checks. -/
structure Checkpoint where
  origin : Str
  treeSize : ℕ
  rootHash : Digest
  extensionLines : List Str
  origin_clean : isCleanLine origin = true
  extensions_clean : extensionLines.all isCleanLine = true
  deriving DecidableEq

def Checkpoint.make (origin : Str) (treeSize : ℕ) (rootHash : Bytes) (extensionLines : List Str) :
    Except NoteError Checkpoint :=
  if ho : isCleanLine origin = true then
    if hr : rootHash.length = 32 then
      if he : extensionLines.all isCleanLine = true then
        .ok ⟨origin, treeSize, ⟨rootHash, hr⟩, extensionLines, ho, he⟩
      else .error .badExtensionLine
    else .error .badRootLength
  else .error .badOrigin

def isSizeText (s : Str) : Bool :=
  s == lit ['0'] || (isdigit s && !(lit ['0']).isPrefixOf s)

def Checkpoint.parse (noteText : Str) : Except NoteError Checkpoint :=
  if noteText.getLast? ≠ some newline then .error .noFinalNewline
  else match splitNewline noteText.dropLast with
    | origin :: sizeLine :: rootLine :: extensions =>
      if !isSizeText sizeLine then .error .badSizeText
      else match b64decode rootLine with
        | none => .error .badRootBase64
        | some root =>
          match intOfDigits sizeLine with
          | .error _ => .error .badInteger
          | .ok treeSize => Checkpoint.make origin treeSize root extensions
    | _ => .error .tooFewLines

def Checkpoint.noteText (c : Checkpoint) : Except PyErr Str := do
  let size ← decimalText c.treeSize
  let lines := [c.origin, size, b64encode c.rootHash.bytes] ++ c.extensionLines
  return (lines.map fun line => line ++ [newline]).flatten

def splitSignedNote (signed : Str) : Except NoteError (Str × List Str) :=
  match splitBlank signed with
  | none => .error .noSeparator
  | some (text, sigBlock) =>
    let lines := (splitNewline sigBlock).filter fun line => !line.isEmpty
    if lines.isEmpty then .error .noSignatureLines
    else if lines.all sigLinePrefix.isPrefixOf then .ok (text, lines)
    else .error .badSignaturePrefix

def parseSignatureLine (line : Str) : Option (Str × Bytes) :=
  if !sigLinePrefix.isPrefixOf line then none
  else match rsplitSpace (line.drop sigLinePrefix.length) with
    | none => none
    | some (name, b64) =>
      if name.isEmpty then none
      else (b64decode b64).map fun blob => (name, blob)

def ed25519KeyId (name : Str) (algByte publicKeyRaw : Bytes) : Except PyErr Bytes := do
  let nameBytes ← utf8Encode name
  return (sha256 (nameBytes ++ [0x0a] ++ algByte ++ publicKeyRaw)).bytes.take 4

def noteAlgEd25519 : Bytes := [0x01]

structure NoteVerifier where
  name : Str
  publicKeyRaw : Bytes
  key_length : publicKeyRaw.length = 32

def NoteVerifier.keyId (v : NoteVerifier) : Except PyErr Bytes :=
  ed25519KeyId v.name noteAlgEd25519 v.publicKeyRaw

section Verification

-- whether `Ed25519PublicKey.from_public_bytes(key).verify(signature, message)`
-- returns, with the arguments in the order key, message, signature
variable (ed25519Verify : Bytes → Bytes → Bytes → Bool)

/-- The inner loop of `verify_note`; `none` where the whole note is rejected. -/
def verifyNamed (message keyId signature : Bytes) :
    List NoteVerifier → Except PyErr (Option (List Str))
  | [] => .ok (some [])
  | v :: vs =>
    match v.keyId with
    | .error e => .error e
    | .ok known =>
      if known ≠ keyId then verifyNamed message keyId signature vs
      else if ed25519Verify v.publicKeyRaw message signature then
        match verifyNamed message keyId signature vs with
        | .ok (some names) => .ok (some (v.name :: names))
        | r => r
      else .ok none

def verifyLines (verifiers : List NoteVerifier) (message : Bytes) :
    List Str → Except PyErr (Option (List Str))
  | [] => .ok (some [])
  | line :: lines =>
    match parseSignatureLine line with
    | none => .ok none
    | some (name, blob) =>
      if blob.length < 4 then .ok none
      else
        match verifyNamed ed25519Verify message (blob.take 4) (blob.drop 4)
            (verifiers.filter fun v => v.name = name) with
        | .ok (some names) =>
          match verifyLines verifiers message lines with
          | .ok (some rest) => .ok (some (names ++ rest))
          | r => r
        | r => r

def verifyNote (signed : Str) (verifiers : List NoteVerifier) : Except PyErr (List Str) :=
  match splitSignedNote signed with
  | .error _ => .ok []
  | .ok (text, sigLines) =>
    match utf8Encode text with
    | .error e => .error e
    | .ok message =>
      match verifyLines ed25519Verify verifiers message sigLines with
      | .error e => .error e
      | .ok none => .ok []
      | .ok (some verified) => .ok verified.eraseDups

end Verification

/-- `Ed25519NoteSigner`, with the signing of its private key. -/
structure NoteSigner where
  name : Str
  publicRaw : Bytes
  sign : Bytes → Bytes

def NoteSigner.signNote (signer : NoteSigner) (noteText : Str) : Except PyErr Str :=
  if noteText.getLast? ≠ some newline ∨ (splitBlank noteText).isSome then .error .valueError
  else do
    let message ← utf8Encode noteText
    let keyId ← ed25519KeyId signer.name noteAlgEd25519 signer.publicRaw
    return noteText ++ [newline] ++ sigLinePrefix ++ signer.name ++ [cp ' '] ++
      b64encode (keyId ++ signer.sign message) ++ [newline]

def buildAddCheckpointBody (oldSize : ℤ) (proofHex : List Str) (signedNote : Str) :
    Except PyErr Str :=
  if oldSize < 0 then .error .valueError
  else match decodeHashList proofHex with
    | none => .error .valueError
    | some nodes => do
      let size ← decimalText oldSize.toNat
      let lines := (lit ['o', 'l', 'd', ' '] ++ size) :: nodes.map fun n => b64encode n.bytes
      return (lines.map fun line => line ++ [newline]).flatten ++ [newline] ++ signedNote

end TexGovernance.Interchange
