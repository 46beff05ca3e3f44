import TexGovernance.Authority.Credentials

/-!
# The verifier at a resource (`pep/resource/verify.py`)

It takes over the checks of the authority package with helpers of its own, and puts them
together: the token under a pinned key set, the holder's proof, the provenance floor.
-/

namespace TexGovernance.Pep
open PyStr PyBytes PyCodec JsonLoads JsonText PyValue Sha256
open PyRepr (utf8 Plain)
open Authority (Ed25519 CredentialCheck CapabilityDemands KeyHelpers ProofContext Readings caught cnfJkt)

variable (py : Interpreter) (ed : Ed25519)

def popUsePrefix : Str := txt "tex-pop-use:"

def b64url (data : Bytes) : Str := UrlBase64.encode data

def canonical (v : JsonValue) : Except Raised Str := PyValue.dumps asciiOnly v

def canonicalIntentCommit (method resource : Str) (params : JsonValue) : Except Raised Str := do
  let text ← PyValue.dumps asciiOnly
    (.obj [(txt "method", .str method), (txt "resource", .str resource), (txt "params", params)])
  return hex (sha256 (utf8 text)).bytes

def publicJwk (raw : Bytes) : Members :=
  [(txt "crv", .str (txt "Ed25519")), (txt "kty", .str (txt "OKP")), (txt "x", .str (b64url raw))]

def jwkThumbprint (jwk : Members) : Except Raised Str := Authority.thumbprintWith asciiOnly jwk

def loadPublicKey (jwk : JsonValue) : Except Raised ed.PublicKey := Authority.loadPublicKey py ed jwk

def thumbprint (key : ed.PublicKey) : Except Raised Str := jwkThumbprint (publicJwk (ed.rawBytes key))

def useBinding (token : Str) : Except Raised Str := do
  let bytes ← raising (utf8Encode token)
  return popUsePrefix ++ hex (sha256 bytes).bytes

def selectJwk (jwks kid : JsonValue) : Except Raised (Option JsonValue) := Authority.selectJwk py jwks kid

def verifyCredEd25519 (key : ed.PublicKey) (body sig : Str) : Except Raised Bool :=
  Authority.verifyCredEd25519 ed key body sig

def popMaxAge : ℤ := 120

/-- What a resource is handed: nothing, a text, a mapping, or an object with what its
`token` is. -/
inductive Artifact where
  | missing
  | text (s : Str)
  | mapping (members : Members)
  | object (token : JsonValue)

def tokenText (token : JsonValue) : Except Raised (Option Str) :=
  if truthy py token then do
    let text ← str py token
    return some text
  else .ok none

def extractToken : Artifact → Except Raised (Option Str)
  | .missing => .ok none
  | .text s => .ok (if s = [] then none else some s)
  | .mapping members =>
    let token := get (txt "token") members
    tokenText py (if truthy py token then token else get (txt "access_token") members)
  | .object token => tokenText py token

structure PresentedRequest where
  method : Str
  resource : Str
  params : JsonValue

structure Demand where
  request : Option PresentedRequest
  proof : Option Str
  jwks : JsonValue
  pinnedEpoch : Option ℤ
  expectedIssuer : Option Str
  now : Readings
  requireProvCommit : Bool

end TexGovernance.Pep

namespace TexGovernance.Pep
open PyStr PyBytes PyCodec JsonLoads JsonText PyValue Sha256
open PyRepr (utf8 Plain)
open Authority (Ed25519 CredentialCheck CapabilityDemands Accepted caught cnfJkt truthy_of_verifyPopProof
  verifyPopProof_nil)

variable (py : Interpreter) (ed : Ed25519)

theorem thumbprint_eq (key : ed.PublicKey) : thumbprint ed key = Authority.thumbprint ed key := by
  rw [Authority.thumbprint_eq]
  exact Authority.thumbprintWith_publicJwk (fun _ _ => rfl) _

variable {py ed}

/-- The verdict of `verify_with_jwks` under the intent of the presented request. -/
def intentVerdict (py : Interpreter) (ed : Ed25519) (demand : Demand) (request : PresentedRequest) (token : Str) :
    Except Raised CredentialCheck := do
  let intent ← Authority.canonicalIntentCommit request.method request.resource request.params
  return Authority.verifyWithJwks py ed (some token) demand.jwks
    ⟨demand.pinnedEpoch, demand.expectedIssuer, demand.now.claims, some intent⟩

def TokenProven (py : Interpreter) (ed : Ed25519) (artifact : Artifact) (demand : Demand) (token : Str)
    (claims : Members) : Prop :=
  extractToken py artifact = .ok (some token) ∧ ∃ request check, demand.request = some request ∧
    intentVerdict py ed demand request token = .ok check ∧ check.ok = true ∧ check.claims = some claims

theorem TokenProven.unique {artifact : Artifact} {demand : Demand} {token token' : Str} {claims claims' : Members}
    (h : TokenProven py ed artifact demand token claims) (h' : TokenProven py ed artifact demand token' claims') :
    token = token' ∧ claims = claims' := by
  obtain ⟨htoken, request, check, hrequest, hcheck, -, hclaims⟩ := h
  obtain ⟨htoken', request', check', hrequest', hcheck', -, hclaims'⟩ := h'
  obtain rfl := Option.some.inj (Except.ok.inj (htoken.symm.trans htoken'))
  obtain rfl := Option.some.inj (hrequest.symm.trans hrequest')
  obtain rfl := Except.ok.inj (hcheck.symm.trans hcheck')
  exact ⟨rfl, Option.some.inj (hclaims.symm.trans hclaims')⟩

def required (jwk : Members) : Option JsonValue := do
  let crv ← get? (txt "crv") jwk
  let kty ← get? (txt "kty") jwk
  let x ← get? (txt "x") jwk
  return .obj [(txt "crv", crv), (txt "kty", kty), (txt "x", x)]

def sampleRequest : PresentedRequest := ⟨txt "POST", txt "mail", .null⟩

end TexGovernance.Pep
