import TexGovernance.Engine.ContractBridge
import TexGovernance.Lib.PyStr
import TexGovernance.Lib.Sha2
import TexGovernance.Lib.PyValue
import TexGovernance.Lib.UrlBase64

/-!
# Permits (`enforcement/permit.py`)

A permit is a text `body.sig`: the claims in canonical JSON and base64, and an HMAC of
that under the signing secret of the process.
-/

namespace TexGovernance.Enforcement
open PyStr PyBytes PyCodec JsonLoads JsonText PyValue CaseFold Hmac
open PyRepr (utf8 Plain)
open Engine (Uuid)

structure Process where
  requireAuth : Option Str
  appEnv : Option Str
  signingSecret : Option Str
  ephemeralDevSecret : Str

def permitVersion : ℤ := 1

def devEnvs : List Str := [txt "dev", txt "development", txt "test", txt "testing", txt "local"]

/-- `value or default` for a text that may be missing. -/
def orDefault (value : Option Str) (default : Str) : Str :=
  match value with
  | none | some [] => default
  | some s => s

def isProductionLike (fold : CaseFolding) (process : Process) : Bool :=
  process.requireAuth = some (txt "1") ||
    fold.clean (orDefault process.appEnv (txt "development")) ∉ devEnvs

def permitSecret (fold : CaseFolding) (process : Process) : Option Str :=
  match process.signingSecret with
  | none | some [] => if isProductionLike fold process then none else some process.ephemeralDevSecret
  | some configured => some configured

def b64url (raw : Bytes) : Str := UrlBase64.encode raw

def b64urlDecode (text : Str) : Except Raised Bytes :=
  match UrlBase64.decode text with
  | none => .error (.py .valueError)
  | some raw => .ok raw

theorem b64urlDecode_b64url (bytes : Bytes) : b64urlDecode (b64url bytes) = .ok bytes := by
  unfold b64urlDecode b64url
  rw [UrlBase64.decode_encode]

inductive Content where
  | text (s : Str)
  | raw (bytes : Bytes)

def contentDigest : Option Content → Except Raised (Option Str)
  | none => .ok none
  | some (.text s) => do
    let bytes ← raising (utf8Encode s)
    return some (hex (Sha256.sha256 bytes).bytes)
  | some (.raw bytes) => .ok (some (hex (Sha256.sha256 bytes).bytes))

def sign (secret body : Str) : Except Raised Str := do
  let key ← raising (utf8Encode secret)
  let message ← asciiEncode body
  return b64url (hmacSha256 key message).bytes

def canonical (claims : JsonValue) : Except Raised Str := do
  let text ← dumps asciiOnly claims
  return b64url (utf8 text)

inductive DecisionId where
  | uuid (id : Uuid)
  | text (s : Str)

/-- The arguments of `mint`, and what it draws where they leave something out: a UUID, a
nonce, the time. -/
structure MintCall where
  decisionId : DecisionId
  tenant : Str
  actionType : Str
  agentId : Option Str
  recipient : Option Str
  content : Option Content
  contentSha256 : Option Str
  ttlSeconds : ℤ
  permitId : Option Uuid
  nonce : Option Str
  now : Clock
  uuid4 : Uuid
  newNonce : Str

structure MintedPermit where
  token : Str
  signature : Str
  nonce : Str
  permitId : Uuid
  decisionId : Uuid
  expiry : ℤ
  claims : Members

def optional : Option Str → JsonValue
  | none => .null
  | some s => .str s

def permitClaims (call : MintCall) (pid did : Uuid) (nonce : Str) (exp : ℤ) (cd : Option Str) : Members :=
  [(txt "v", .int permitVersion), (txt "pid", .str pid.text), (txt "did", .str did.text),
    (txt "tn", .str call.tenant), (txt "aid", optional call.agentId), (txt "aud", optional call.recipient),
    (txt "act", .str call.actionType), (txt "cd", optional cd), (txt "nonce", .str nonce),
    (txt "exp", .int exp)]

/-- `datetime.fromtimestamp(seconds, tz=UTC)`, which has the years 1 to 9999. -/
def fromTimestamp (seconds : ℤ) : Except Raised ℤ :=
  if -62135596800 ≤ seconds ∧ seconds ≤ 253402300799 then .ok seconds
  else if -2 ^ 63 ≤ seconds ∧ seconds < 2 ^ 63 then .error (.py .valueError)
  else .error (.py .overflowError)

def committedDigest (call : MintCall) : Except Raised (Option Str) :=
  match call.contentSha256 with
  | some digest => .ok (some digest)
  | none => contentDigest call.content

/-- What `UUID` makes of a text. -/
def decisionUuid (uuidOf : Str → Except Raised Uuid) : DecisionId → Except Raised Uuid
  | .uuid id => .ok id
  | .text s => uuidOf s

def mint (uuidOf : Str → Except Raised Uuid) (secret : Option Str) (call : MintCall) :
    Except Raised (Option MintedPermit) :=
  match secret with
  | none => .ok none
  | some secret => do
    let pid := call.permitId.getD call.uuid4
    let did ← decisionUuid uuidOf call.decisionId
    let nonce := orDefault call.nonce call.newNonce
    let issued ← call.now.int
    let exp := issued + call.ttlSeconds
    let cd ← committedDigest call
    let claims := permitClaims call pid did nonce exp cd
    let body ← canonical (.obj claims)
    let sig ← sign secret body
    let expiry ← fromTimestamp exp
    return some ⟨body ++ cp '.' :: sig, sig, nonce, pid, did, expiry, claims⟩

structure PermitVerification where
  ok : Bool
  reason : Str
  claims : Option Members

structure Expected where
  contentDigest : Option Str
  audience : Option Str
  actionType : Option Str
  tenant : Option Str
  agentId : Option Str

variable (py : Interpreter)

/-- `json.loads(_b64url_decode(body))`; a `ValueError` is caught. -/
def readClaims (body : Str) : Except Raised (Option JsonValue) :=
  match (do let raw ← b64urlDecode body; loads py raw : Except Raised JsonValue) with
  | .ok claims => .ok (some claims)
  | .error e => if e.isValueError then .ok none else .error e

def digestAgrees (expected : Option Str) (claims : Members) : Except Raised Bool :=
  match expected with
  | none => .ok true
  | some digest => do
    let cd ← str py (orEmpty py (get (txt "cd") claims))
    compareDigest cd digest

def agrees (expected : Option Str) (v : JsonValue) : Bool :=
  match expected with
  | none => true
  | some s => isText v s

def verifyClaims (clock : Clock) (expected : Expected) (claims : Members) : Except Raised PermitVerification := do
  let exp ← int py (getOr (txt "exp") (.int 0) claims)
  let now ← clock.int
  if exp < now then return ⟨false, txt "expired", some claims⟩
  else
    let digest ← digestAgrees py expected.contentDigest claims
    return if digest = false then ⟨false, txt "content digest mismatch", some claims⟩
      else if agrees expected.audience (get (txt "aud") claims) = false then
        ⟨false, txt "audience mismatch", some claims⟩
      else if agrees expected.actionType (get (txt "act") claims) = false then
        ⟨false, txt "action_type mismatch", some claims⟩
      else if agrees expected.tenant (get (txt "tn") claims) = false then
        ⟨false, txt "tenant mismatch", some claims⟩
      else if agrees expected.agentId (get (txt "aid") claims) = false then
        ⟨false, txt "agent mismatch", some claims⟩
      else ⟨true, txt "ok", some claims⟩

def verifyBody (clock : Clock) (expected : Expected) (body : Str) : Except Raised PermitVerification := do
  match ← readClaims py body with
  | none => return ⟨false, txt "unparseable claims", none⟩
  | some (.obj claims) =>
    if isInt py (get (txt "v") claims) permitVersion then verifyClaims py clock expected claims
    else return ⟨false, txt "unsupported permit version", none⟩
  | some _ => return ⟨false, txt "unsupported permit version", none⟩

def verify (secret : Option Str) (token : Option Str) (clock : Clock) (expected : Expected) :
    Except Raised PermitVerification :=
  match secret with
  | none => .ok ⟨false, txt "no signing secret (fail-closed)", none⟩
  | some secret =>
    let text := token.getD []
    if cp '.' ∉ text then .ok ⟨false, txt "malformed permit", none⟩
    else do
      let (body, sig) := partition (cp '.') text
      let expectedSig ← sign secret body
      if ← compareDigest sig expectedSig then verifyBody py clock expected body
      else return ⟨false, txt "bad signature", none⟩

theorem visible_b64url (raw : Bytes) : Visible (b64url raw) := fun c hc =>
  ⟨(UrlBase64.isDigits_encode raw c hc).2.1, (UrlBase64.isDigits_encode raw c hc).1⟩

theorem dot_not_mem_b64url (raw : Bytes) : cp '.' ∉ b64url raw := fun hc =>
  (UrlBase64.isDigits_encode raw _ hc).2.2 rfl

theorem isAscii_b64url (raw : Bytes) : isAscii (b64url raw) = true := isAscii_of_visible (visible_b64url raw)

theorem canonical_ok {claims : JsonValue} {body : Str} (h : canonical claims = .ok body) :
    body = b64url (utf8 (JsonText.dumps asciiOnly claims)) := by
  obtain ⟨text, htext, hbody⟩ := Pipeline.bind_ok h
  unfold PyValue.dumps at htext
  split at htext
  · rw [← Except.ok.inj hbody, ← Except.ok.inj htext]
  · cases htext

theorem sign_ok {secret body sig : Str} (h : sign secret body = .ok sig) :
    Plain secret ∧ isAscii body = true ∧ isAscii sig = true := by
  obtain ⟨key, hkey, h⟩ := Pipeline.bind_ok h
  obtain ⟨message, hmessage, h⟩ := Pipeline.bind_ok h
  obtain ⟨bytes, hbytes, -⟩ : ∃ bytes, utf8Encode secret = .ok bytes ∧ True := by
    unfold raising Except.mapError at hkey
    cases hencode : utf8Encode secret with
    | error e => rw [hencode] at hkey; cases hkey
    | ok bytes => exact ⟨bytes, rfl, trivial⟩
  unfold asciiEncode at hmessage
  split at hmessage
  · next hascii =>
    refine ⟨PyRepr.plain_of_utf8Encode hbytes, hascii, ?_⟩
    rw [← Except.ok.inj h]
    exact isAscii_b64url _
  · cases hmessage

theorem sign_of_plain {secret body : Str} (hsecret : Plain secret) (hbody : isAscii body = true) :
    ∃ sig, sign secret body = .ok sig := by
  unfold sign asciiEncode
  rw [PyRepr.utf8Encode_eq hsecret, if_pos hbody]
  exact ⟨_, rfl⟩

theorem fromTimestamp_ok {seconds expiry : ℤ} (h : fromTimestamp seconds = .ok expiry) :
    expiry = seconds ∧ -62135596800 ≤ seconds ∧ seconds ≤ 253402300799 := by
  unfold fromTimestamp at h
  split at h
  · next hrange => exact ⟨(Except.ok.inj h).symm, hrange⟩
  · split at h
    · cases h
    · cases h

theorem mint_ok {uuidOf : Str → Except Raised Uuid} {secret : Option Str} {call : MintCall} {m : MintedPermit}
    (h : mint uuidOf secret call = .ok (some m)) : ∃ key pid did nonce cd body,
      secret = some key ∧ committedDigest call = .ok cd ∧
      m.claims = permitClaims call pid did nonce m.expiry cd ∧
      body = b64url (utf8 (JsonText.dumps asciiOnly (.obj m.claims))) ∧ sign key body = .ok m.signature ∧
      m.token = body ++ cp '.' :: m.signature ∧ -62135596800 ≤ m.expiry ∧ m.expiry ≤ 253402300799 ∧
      ∃ issued, call.now.int = .ok issued ∧ m.expiry = issued + call.ttlSeconds := by
  cases secret with
  | none => cases h
  | some key =>
    obtain ⟨did, -, h⟩ := Pipeline.bind_ok h
    obtain ⟨issued, hissued, h⟩ := Pipeline.bind_ok h
    obtain ⟨cd, hcd, h⟩ := Pipeline.bind_ok h
    obtain ⟨body, hbody, h⟩ := Pipeline.bind_ok h
    obtain ⟨sig, hsig, h⟩ := Pipeline.bind_ok h
    obtain ⟨expiry, hexpiry, h⟩ := Pipeline.bind_ok h
    obtain rfl := Option.some.inj (Except.ok.inj h)
    obtain ⟨rfl, hlow, hhigh⟩ := fromTimestamp_ok hexpiry
    exact ⟨key, _, did, _, cd, body, rfl, hcd, rfl, canonical_ok hbody, hsig, rfl, hlow, hhigh, issued, hissued,
      rfl⟩

def backClaims (claims : Members) : Members := mapMembers asciiOnly.back (byName (sortMembers claims))

theorem readClaims_dumps {claims : Members} (h : Tame (py.frames + 2) (.obj claims)) :
    readClaims py (b64url (utf8 (JsonText.dumps asciiOnly (.obj claims)))) =
      .ok (some (.obj (backClaims claims))) := by
  unfold readClaims b64urlDecode b64url
  rw [UrlBase64.decode_encode]
  show (match loads py (utf8 (write asciiOnly (sortKeys (.obj claims)))) with
    | .ok claims => _
    | .error e => _) = _
  rw [loads_visible py (tame_sortKeys h)]
  rfl

theorem get_backClaims {claims : Members} (hnodup : (claims.map Prod.fst).Nodup)
    (hplain : ∀ p ∈ claims, Plain p.1) (name : Str) :
    get name (backClaims claims) = mapTexts asciiOnly.back (sortKeys (get name claims)) := by
  unfold PyValue.get getOr backClaims
  rw [get?_back hnodup hplain]
  cases get? name claims with
  | none => rfl
  | some v => rfl

end TexGovernance.Enforcement
