import TexGovernance.Authority.Credentials

/-!
# The credential broker (`authority/broker.py`)

Minting, verification and redemption of credentials. What the broker resolves from its
environment (a secret, a private key) and what its store answers are arguments.
-/

namespace TexGovernance.Authority
open PyStr PyBytes PyCodec JsonLoads JsonText PyValue CaseFold
open PyJson (sortedNames)
open PyRepr (utf8 Plain)
open Engine (Uuid)
open Enforcement (Process permitSecret sign canonical orDefault fromTimestamp readClaims agrees backClaims)

variable (py : Interpreter) (ed : Ed25519)

structure AuthorityEnv where
  signingSecret : Option Str
  process : Process

def credVersion : ℤ := 1

def credType : Str := txt "tex-cred"

def authorityDomain : Str := txt "texauth.v1"

def signCred (secret body : Str) : Except Raised Str := sign secret (authorityDomain ++ cp '.' :: body)

/-- The secret of `authority_secret` and the key of `authority_ed25519_key`, where they resolve. -/
structure Secrets where
  hmac : Option Str
  ed25519 : Option ed.PrivateKey

structure CredentialBroker where
  issuer : Str
  allowBearer : Bool

structure AttestedIdentity where
  verified : Bool
  claimedAgentId : Option Str
  issuer : Option Str

/-- What `sign_alg` names. -/
inductive SignAlg where
  | hmac
  | ed25519
  | unknown

inductive CnfKey where
  | key (k : ed.PublicKey)
  | jwk (members : Members)
  | text (s : Str)
  | raw (bytes : Bytes)
  | other

def coercePublicKey : CnfKey ed → Option ed.PublicKey
  | .key k => some k
  | .jwk members => (loadPublicKey py ed (.obj members)).toOption
  | .text s => (UrlBase64.decodeStandard s).bind ed.fromPublicBytes
  | .raw bytes => ed.fromPublicBytes bytes
  | .other => none

/-- The arguments of `mint`, with the nonce it draws; a provenance commitment is a dict that
can be written. -/
structure MintArgs where
  audience : Str
  action : Str
  scope : List Str
  ttl : ℤ
  cnfPublicKey : Option (CnfKey ed)
  now : Clock
  signAlg : SignAlg
  epoch : Option ℤ
  intentCommit : Option Str
  provCommit : Option {members : Members // Tame (py.frames + 1) (.obj members)}
  newNonce : Str

structure MintedCredential where
  token : Str
  jti : Str
  subject : Str
  audience : Str
  action : Str
  scope : List Str
  binding : Str
  cnfJkt : Option Str
  expiry : ℤ
  issuer : Str
  claims : Members
  permitId : Option Uuid

def optionalMember (name : Str) (v : Option JsonValue) : Members := v.toList.map fun v => (name, v)

def scopeTuple (scope : List Str) : List Str := sortedNames scope.dedup

variable {py ed} in
def credentialClaims (broker : CredentialBroker) (identity : AttestedIdentity) (subject : Str)
    (args : MintArgs py ed) (jkt : Option Str) (issued exp : ℤ) : Members :=
  [(txt "v", .int credVersion), (txt "typ", .str credType), (txt "iss", .str broker.issuer),
    (txt "sub", .str subject), (txt "idp", Enforcement.optional identity.issuer), (txt "aud", .str args.audience),
    (txt "act", .str args.action), (txt "scope", .arr ((scopeTuple args.scope).map .str)),
    (txt "cnf", match jkt with
      | none => .null
      | some jkt => .obj [(txt "jkt", .str jkt)]),
    (txt "bnd", .str (if jkt.isSome then txt "pop" else txt "bearer")), (txt "jti", .str args.newNonce),
    (txt "iat", .int issued), (txt "exp", .int exp)] ++
  optionalMember (txt "alg") (match args.signAlg with
    | .ed25519 => some (.str claimAlgEd25519)
    | _ => none) ++
  optionalMember (txt "epoch") (args.epoch.map .int) ++
  optionalMember (txt "intent_commit") (args.intentCommit.map .str) ++
  optionalMember (txt "prov_commit") (args.provCommit.map fun m => .obj m.val)

/-- How the body will be signed; `none` where nothing resolves. -/
def signerOf (secrets : Secrets ed) : SignAlg → Option (Str → Except Raised Str)
  | .ed25519 => secrets.ed25519.map fun key body => signCredEd25519 ed key body
  | .hmac => secrets.hmac.map fun secret body => signCred secret body
  | .unknown => none

/-- The thumbprint to bind; `none` where the broker refuses. -/
def bindingOf (broker : CredentialBroker) : Option (CnfKey ed) → Except Raised (Option (Option Str))
  | some key =>
    match coercePublicKey py ed key with
    | none => .ok none
    | some key => do
      let jkt ← thumbprint ed key
      return some (some jkt)
  | none => .ok (if broker.allowBearer then some none else none)

def prepare (broker : CredentialBroker) (secrets : Secrets ed) (identity : Option AttestedIdentity)
    (args : MintArgs py ed) : Except Raised (Option MintedCredential) :=
  match identity with
  | none => .ok none
  | some identity =>
    match identity.verified, orDefault identity.claimedAgentId [], signerOf ed secrets args.signAlg with
    | true, c :: cs, some signer => do
      match ← bindingOf py ed broker args.cnfPublicKey with
      | none => return none
      | some jkt =>
        let subject := c :: cs
        let issued ← args.now.int
        let exp := issued + args.ttl
        let claims := credentialClaims broker identity subject args jkt issued exp
        let body ← canonical (.obj claims)
        let sig ← signer body
        let expiry ← fromTimestamp exp
        return some ⟨body ++ cp '.' :: sig, args.newNonce, subject, args.audience, args.action,
          scopeTuple args.scope, if jkt.isSome then txt "pop" else txt "bearer", jkt, expiry, broker.issuer,
          claims, none⟩
    | _, _, _ => .ok none

/-- With what the store's `issue` answers, where one is wired. -/
def mint (broker : CredentialBroker) (secrets : Secrets ed) (identity : Option AttestedIdentity)
    (args : MintArgs py ed) (issue : Option (MintedCredential → Except Raised (Option Uuid))) :
    Except Raised (Option MintedCredential) := do
  match ← prepare py ed broker secrets identity args with
  | none => return none
  | some credential =>
    match issue with
    | none => return some credential
    | some issue =>
      match issue credential with
      | .error _ => return none
      | .ok permitId => return some { credential with permitId }

structure StoreRecord where
  permitId : Uuid
  revoked : Bool
  consumed : Bool

/-- What the store's `get_by_nonce` answers. -/
abbrev Lookup := JsonValue → Except Raised (Option StoreRecord)

structure VerifyCall where
  expectedAudience : Option Str
  expectedAction : Option Str
  now : Readings
  requiredScope : Option (List Str)
  expectedIssuer : Option Str
  expectedSubject : Option Str
  popProof : Option Str
  popChallenge : Option Str
  popMaxAge : ℤ
  checkSingleUse : Bool

def verifyEd25519ViaJwks (published : Option ed.PrivateKey) (claims : Members) (body sig : Str) :
    Except Raised Bool := do
  let jwks ← tgpccPublicJwks ed published
  match ← selectJwk py jwks (get (txt "kid") claims) with
  | none => return false
  | some jwk =>
    match loadPublicKey py ed jwk with
    | .error _ => return false
    | .ok key => verifyCredEd25519 ed key body sig

def signatureCheck (secrets : Secrets ed) (claims : Members) (body sig : Str) : Except Raised (Option Str) :=
  match get (txt "alg") claims with
  | .null =>
    match secrets.hmac with
    | none => .ok (some (txt "no signing secret (fail-closed)"))
    | some secret => do
      let expected ← signCred secret body
      let same ← compareDigest sig expected
      return failing (txt "bad signature") same
  | alg =>
    if isText alg claimAlgEd25519 then do
      let holds ← verifyEd25519ViaJwks py ed secrets.ed25519 claims body sig
      return failing (txt "bad signature") holds
    else .ok (some (txt "unsupported alg"))

/-- A time that is `0` where it is missing, compared with the clock. -/
def boundCheck (name reason : Str) (fits : ℤ → ℤ → Bool) (now : Clock) (claims : Members) :
    Except Raised (Option Str) :=
  compareTime py reason fits now (getOr name (.int 0) claims)

def iterate : JsonValue → Except Raised (List JsonValue)
  | .str s => .ok (s.map fun c => .str [c])
  | .arr items => .ok items
  | .obj members => .ok (members.map fun m => .str m.1)
  | _ => .error .typeError

def scopeCheck (required : Option (List Str)) (claims : Members) : Except Raised (Option Str) :=
  match required with
  | none => .ok none
  | some need => do
    let items ← if truthy py (get (txt "scope") claims) then iterate (get (txt "scope") claims) else .ok []
    let granted ← items.mapM (str py)
    return failing (txt "scope mismatch") (need.all (· ∈ granted))

def popCheck (call : VerifyCall) (token : Str) (claims : Members) : Except Raised (Option Str) :=
  let jkt := cnfJkt claims
  if isText (get (txt "bnd") claims) (txt "pop") ∨ truthy py jkt then
    if truthy py jkt = false then .ok (some (txt "pop binding without cnf"))
    else if call.popProof.getD [] = [] then .ok (some (txt "pop proof required"))
    else do
      let bind ← useBinding token
      let result := verifyPopProof py ed call.popProof
        ⟨jkt, bind, call.now.proof, call.popMaxAge, 5, call.popChallenge⟩
      return failing (txt "pop: " ++ result.reason) result.ok
  else .ok none

def storeCheck (lookup : Option Lookup) (checkSingleUse : Bool) (claims : Members) : Except Raised (Option Str) :=
  match lookup with
  | none => .ok none
  | some lookup => do
    match ← lookup (get (txt "jti") claims) with
    | none => return failing (txt "unknown credential (not issued / store-expired)") !checkSingleUse
    | some record =>
      if record.revoked then return some (txt "revoked")
      else return failing (txt "already used") !(checkSingleUse && record.consumed)

def credentialChecks (broker : CredentialBroker) (lookup : Option Lookup) (call : VerifyCall) (token : Str)
    (claims : Members) : List (Except Raised (Option Str)) :=
  [.ok (failing (txt "issuer mismatch") (isText (get (txt "iss") claims) (call.expectedIssuer.getD broker.issuer))),
    boundCheck py (txt "exp") (txt "expired") (fun exp now => now ≤ exp) call.now.claims claims,
    boundCheck py (txt "iat") (txt "not yet valid") (fun iat now => iat ≤ now + 5) call.now.claims claims,
    .ok (failing (txt "audience mismatch") (agrees call.expectedAudience (get (txt "aud") claims))),
    .ok (failing (txt "action mismatch") (agrees call.expectedAction (get (txt "act") claims))),
    .ok (failing (txt "subject mismatch") (agrees call.expectedSubject (get (txt "sub") claims))),
    scopeCheck py call.requiredScope claims, popCheck py ed call token claims,
    storeCheck lookup call.checkSingleUse claims]

def isCredential (claims : Members) : Bool :=
  isInt py (get (txt "v") claims) credVersion && isText (get (txt "typ") claims) credType

/-- The body of the `try`. -/
def verifySteps (broker : CredentialBroker) (secrets : Secrets ed) (lookup : Option Lookup) (token : Option Str)
    (call : VerifyCall) : Except Raised CredentialCheck :=
  let text := token.getD []
  if cp '.' ∉ text then .ok ⟨false, txt "malformed credential", none, .null⟩
  else do
    let (body, sig) := partition (cp '.') text
    match ← readClaims py body with
    | some (.obj claims) =>
      match ← signatureCheck py ed secrets claims body sig with
      | some reason => return ⟨false, reason, none, .null⟩
      | none =>
        if isCredential py claims then
          let reason ← firstReason (credentialChecks py ed broker lookup call text claims)
          return verdict claims reason
        else return ⟨false, txt "unsupported credential", none, .null⟩
    | _ => return ⟨false, txt "unparseable claims", none, .null⟩

def verify (broker : CredentialBroker) (secrets : Secrets ed) (lookup : Option Lookup) (token : Option Str)
    (call : VerifyCall) : CredentialCheck :=
  caught ⟨false, txt "verification error", none, .null⟩ (verifySteps py ed broker secrets lookup token call)

/-- The verdict, and the id that is to be consumed. -/
def redeem (broker : CredentialBroker) (secrets : Secrets ed) (lookup : Option Lookup) (token : Option Str)
    (call : VerifyCall) : Except Raised (CredentialCheck × Option Str) := do
  let check := verify py ed broker secrets lookup token
    { call with expectedIssuer := none, expectedSubject := none, checkSingleUse := true }
  match lookup, check.claims with
  | some _, some claims =>
    if check.ok then
      let jti ← str py (get (txt "jti") claims)
      return (check, some jti)
    else return (check, none)
  | _, _ => return (check, none)

variable {py ed}

structure Verified (py : Interpreter) {ed : Ed25519} (broker : CredentialBroker) (secrets : Secrets ed)
    (lookup : Option Lookup) (token : Str) (call : VerifyCall) (claims : Members) : Prop where
  dot : cp '.' ∈ token
  reads : readClaims py (partition (cp '.') token).1 = .ok (some (.obj claims))
  signed : signatureCheck py ed secrets claims (partition (cp '.') token).1 (partition (cp '.') token).2 = .ok none
  credential : isCredential py claims = true
  checks : ∀ check ∈ credentialChecks py ed broker lookup call token claims, check = .ok none

section
variable {broker : CredentialBroker} {secrets : Secrets ed} {lookup : Option Lookup} {token : Option Str}
  {call : VerifyCall}

theorem verified_of_verifySteps {c : CredentialCheck}
    (h : verifySteps py ed broker secrets lookup token call = .ok c) (hok : c.ok = true) :
    ∃ claims, Verified py broker secrets lookup (token.getD []) call claims ∧ c = verdict claims none := by
  unfold verifySteps at h
  dsimp only at h
  split at h
  · obtain rfl := Except.ok.inj h
    cases hok
  · next hdot =>
    obtain ⟨v, hv, h⟩ := Pipeline.bind_ok h
    split at h
    · next claims =>
      obtain ⟨signed, hsigned, h⟩ := Pipeline.bind_ok h
      split at h
      · obtain rfl := Except.ok.inj h
        cases hok
      · split at h
        · next hcredential =>
          obtain ⟨reason, hreason, h⟩ := Pipeline.bind_ok h
          obtain rfl := Except.ok.inj h
          obtain rfl := verdict_ok.mp hok
          exact ⟨claims, ⟨not_not.mp hdot, hv, hsigned, hcredential, firstReason_none_iff.mp hreason⟩, rfl⟩
        · obtain rfl := Except.ok.inj h
          cases hok
    · obtain rfl := Except.ok.inj h
      cases hok

theorem verifySteps_of_verified {claims : Members}
    (h : Verified py broker secrets lookup (token.getD []) call claims) :
    verifySteps py ed broker secrets lookup token call = .ok (verdict claims none) := by
  unfold verifySteps
  simp only [h.dot, not_true, if_false, h.reads, h.signed, h.credential, if_true,
    firstReason_none_iff.mpr h.checks, bind, Except.bind]
  rfl

theorem verified_of_ok (h : (verify py ed broker secrets lookup token call).ok = true) :
    ∃ claims, Verified py broker secrets lookup (token.getD []) call claims ∧
      verify py ed broker secrets lookup token call = verdict claims none := by
  obtain ⟨c, hc, hok⟩ := caught_ok (P := fun c : CredentialCheck => c.ok = true) Bool.false_ne_true h
  obtain ⟨claims, hverified, hverdict⟩ := verified_of_verifySteps hc hok
  refine ⟨claims, hverified, ?_⟩
  unfold verify
  rw [hc, hverdict]
  rfl

theorem verify_of_verified {claims : Members}
    (h : Verified py broker secrets lookup (token.getD []) call claims) :
    verify py ed broker secrets lookup token call = verdict claims none := by
  unfold verify
  rw [verifySteps_of_verified h]
  rfl

end

end TexGovernance.Authority
