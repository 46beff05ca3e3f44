import TexGovernance.Lib.PyValue
import TexGovernance.Lib.Sha2

/-!
# Signature algorithms

The algorithms of `pqcrypto/algorithm_agility.py` and what a provider of one does. The
schemes themselves come from other packages.
-/

namespace TexGovernance.Pqcrypto
open PyStr PyBytes PyValue
open Sha256 (sha256)

inductive SignatureAlgorithm where
  | mlDsa44
  | mlDsa65
  | mlDsa87
  | blake3MlDsa65
  | slhDsa128s
  | slhDsa128f
  | slhDsa192s
  | slhDsa256s
  | thresholdMlDsa44
  | thresholdMlDsa65
  | thresholdMlDsa87
  | quorumMlDsa44
  | quorumMlDsa65
  | quorumMlDsa87
  | compositeMlDsa65Ed25519
  | compositeMlDsa87EcdsaP384
  | hybridMlDsaEd25519
  | ed25519
  | ecdsaP256
  deriving DecidableEq

namespace SignatureAlgorithm

def values : List (SignatureAlgorithm × Str) := [
  (mlDsa44, txt "ml-dsa-44"),
  (mlDsa65, txt "ml-dsa-65"),
  (mlDsa87, txt "ml-dsa-87"),
  (blake3MlDsa65, txt "blake3-ml-dsa-65"),
  (slhDsa128s, txt "slh-dsa-128s"),
  (slhDsa128f, txt "slh-dsa-128f"),
  (slhDsa192s, txt "slh-dsa-192s"),
  (slhDsa256s, txt "slh-dsa-256s"),
  (thresholdMlDsa44, txt "threshold-ml-dsa-44"),
  (thresholdMlDsa65, txt "threshold-ml-dsa-65"),
  (thresholdMlDsa87, txt "threshold-ml-dsa-87"),
  (quorumMlDsa44, txt "quorum-ml-dsa-44"),
  (quorumMlDsa65, txt "quorum-ml-dsa-65"),
  (quorumMlDsa87, txt "quorum-ml-dsa-87"),
  (compositeMlDsa65Ed25519, txt "composite-ml-dsa-65-ed25519"),
  (compositeMlDsa87EcdsaP384, txt "composite-ml-dsa-87-ecdsa-p384"),
  (hybridMlDsaEd25519, txt "hybrid-ml-dsa-65-ed25519"),
  (ed25519, txt "ed25519"),
  (ecdsaP256, txt "ecdsa-p256")]

/-- `SignatureAlgorithm(value)`. -/
def ofValue (value : Str) : Except Raised SignatureAlgorithm :=
  match values.find? fun member => member.2 = value with
  | none => .error (.py .valueError)
  | some member => .ok member.1

end SignatureAlgorithm

structure SignatureKeyPair where
  algorithm : SignatureAlgorithm
  publicKey : Bytes
  privateKey : Bytes
  keyId : Str

structure SignatureProvider where
  sign : Bytes → SignatureKeyPair → Except Raised Bytes
  verify : Bytes → Bytes → Bytes → Except Raised Bool

/-- `get_signature_provider`. -/
abbrev Providers := SignatureAlgorithm → Except Raised SignatureProvider

def VerifiesOwn (providers : Providers) (key : SignatureKeyPair) : Prop :=
  ∀ provider message signature, providers key.algorithm = .ok provider →
    provider.sign message key = .ok signature → provider.verify message signature key.publicKey = .ok true

def hashProviders : Providers := fun _ => .ok {
  sign := fun message key => .ok (sha256 (key.privateKey ++ message)).bytes
  verify := fun message signature publicKey => .ok (decide (signature = (sha256 (publicKey ++ message)).bytes)) }

theorem hashProviders_own {key : SignatureKeyPair} (h : key.publicKey = key.privateKey) :
    VerifiesOwn hashProviders key := by
  intro provider message signature hprovider hsign
  obtain rfl := Except.ok.inj hprovider
  obtain rfl := Except.ok.inj hsign
  rw [h]
  exact congrArg Except.ok (decide_eq_true rfl)

end TexGovernance.Pqcrypto
