import TexGovernance.Authority.SenderConstraint

/-!
# Token exchange (`authority/broker.py`)

A subject assertion is exchanged for a credential. The identity source and the scope policy
are given to the broker; the set of requested scopes is a list without repetitions.
-/

namespace TexGovernance.Authority
open PyStr PyBytes PyCodec JsonLoads JsonText PyValue
open PyRepr (utf8 Plain)
open Engine (Uuid)

variable (py : Interpreter) (ed : Ed25519)

structure SubjectVerification where
  verified : Bool
  status : Str
  agentId : Option Str
  issuer : Option Str
  cnfJwk : Option Members

def SubjectVerification.asAttestedIdentity (subject : SubjectVerification) : AttestedIdentity :=
  ⟨subject.verified, subject.agentId, subject.issuer⟩

inductive RequestedScope where
  | one (scope : Str)
  | many (scopes : List Str)

def RequestedScope.set : RequestedScope → List Str
  | .one scope => [scope]
  | .many scopes => scopes.dedup

/-- A broker with what `exchange` reads; `Assertion` is what the identity source verifies. -/
structure ExchangeBroker (Assertion : Type) extends CredentialBroker where
  identitySource : Option (Assertion → Clock → Str → Except Raised SubjectVerification)
  requireExchangePop : Bool
  scopePolicy : Option (AttestedIdentity → List Str → Except Raised (List Str))
  allowUnrestrictedExchange : Bool

structure ExchangeReadings where
  source : Clock
  proof : Clock
  mint : Clock

structure ExchangeCall where
  requestedScope : RequestedScope
  audience : Str
  action : Str
  ttl : ℤ
  now : ExchangeReadings
  exchangePopProof : Option Str
  newNonce : Str

structure ExchangeResult where
  ok : Bool
  reason : Str
  credential : Option MintedCredential
  tokenType : Option Str
  expiresIn : Option ℤ
  scope : List Str
  issuedTokenType : Option Str

def ExchangeResult.refused (reason : Str) : ExchangeResult := ⟨false, reason, none, none, none, [], none⟩

def accessTokenType : Str := txt "urn:ietf:params:oauth:token-type:access_token"

def MintedCredential.tokenType (credential : MintedCredential) : Str :=
  if credential.binding = txt "pop" then txt "DPoP" else txt "Bearer"

def exchangeBinding (subjectJkt audience action : Str) : Str :=
  txt "tex-pop-exchange:" ++ (subjectJkt ++ cp ':' :: (audience ++ cp ':' :: action))

def exchangeContext (jkt : Str) (call : ExchangeCall) : ProofContext :=
  ⟨.str jkt, exchangeBinding jkt call.audience call.action, call.now.proof, 120, 5, none⟩

variable {Assertion : Type}

def resolveExchangeCnf (broker : ExchangeBroker Assertion) (subject : SubjectVerification) (call : ExchangeCall) :
    Except Raised (Except Str (Option ed.PublicKey)) :=
  match subject.cnfJwk with
  | none | some [] =>
    .ok (if broker.allowBearer then .ok none
      else .error (txt "assertion carries no cnf key and bearer credentials are disabled"))
  | some jwk =>
    match loadPublicKey py ed (.obj jwk) with
    | .error _ => .ok (.error (txt "assertion cnf key unusable"))
    | .ok key =>
      if broker.requireExchangePop then
        if call.exchangePopProof.getD [] = [] then .ok (.error (txt "exchange pop proof required"))
        else do
          let jkt ← thumbprint ed key
          let result := verifyPopProof py ed call.exchangePopProof (exchangeContext jkt call)
          return if result.ok then .ok (some key) else .error (txt "exchange pop: " ++ result.reason)
      else .ok (.ok (some key))

/-- The granted scopes; `none` where no policy says what to grant. -/
def grantedScope (broker : ExchangeBroker Assertion) (identity : AttestedIdentity) (requested : List Str) :
    Except Raised (Option (List Str)) :=
  match broker.scopePolicy with
  | some policy => do
    let allowed ← policy identity requested
    return some (requested.filter (· ∈ allowed))
  | none => .ok (if broker.allowUnrestrictedExchange then some requested else none)

variable {py ed} in
def mintArgs (call : ExchangeCall) (granted : List Str) (key : Option ed.PublicKey) : MintArgs py ed where
  audience := call.audience
  action := call.action
  scope := granted
  ttl := call.ttl
  cnfPublicKey := key.map .key
  now := call.now.mint
  signAlg := .hmac
  epoch := none
  intentCommit := none
  provCommit := none
  newNonce := call.newNonce

/-- `int(claims["exp"] - claims["iat"])`. -/
def expiresIn (claims : Members) : Except Raised ℤ := do
  match ← item (txt "exp") claims, ← item (txt "iat") claims with
  | .int exp, .int iat => return exp - iat
  | _, _ => .error .typeError

def exchange (broker : ExchangeBroker Assertion) (secrets : Secrets ed) (assertion : Assertion)
    (call : ExchangeCall) (issue : Option (MintedCredential → Except Raised (Option Uuid))) :
    Except Raised ExchangeResult :=
  match broker.identitySource with
  | none => .ok (.refused (txt "no identity source configured"))
  | some verifySubjectAssertion => do
    let subject ← verifySubjectAssertion assertion call.now.source call.audience
    if subject.verified then
      match ← grantedScope broker subject.asAttestedIdentity call.requestedScope.set with
      | none =>
        return .refused (txt "no scope_policy configured: exchange refuses to echo requested " ++
          txt "scope (set a scope_policy, or allow_unrestricted_exchange for dev)")
      | some granted =>
        match ← resolveExchangeCnf py ed broker subject call with
        | .error reason => return .refused reason
        | .ok key =>
          match ← mint py ed broker.toCredentialBroker secrets (some subject.asAttestedIdentity)
              (mintArgs call granted key) issue with
          | none => return .refused (txt "mint failed (fail-closed)")
          | some credential =>
            let seconds ← expiresIn credential.claims
            return ⟨true, txt "ok", some credential, some credential.tokenType, some seconds, credential.scope,
              some accessTokenType⟩
    else return .refused (txt "subject not verified: " ++ subject.status)

end TexGovernance.Authority
