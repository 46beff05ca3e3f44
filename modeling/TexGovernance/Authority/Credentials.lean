import TexGovernance.Authority.Pop

/-!
# Credentials without a shared secret (`authority/broker.py`)

A capability token is a text `body.sig` under an Ed25519 key that the issuer publishes. The
checks on it, and on the provenance it commits to, are shared with the resource side.
-/

namespace TexGovernance.Authority
open PyStr PyBytes PyCodec JsonLoads JsonText PyValue Sha256
open PyRepr (utf8 Plain)
open Enforcement (b64url b64urlDecode readClaims agrees)

variable (py : Interpreter) (ed : Ed25519)

def claimAlgEd25519 : Str := txt "EdDSA"

def authorityEd25519Domain : Str := txt "texauth.ed25519.v1"

def signCredEd25519 (key : ed.PrivateKey) (body : Str) : Except Raised Str := do
  let msg ← asciiEncode (authorityEd25519Domain ++ cp '.' :: body)
  return b64url (ed.sign key msg)

def verifyCredEd25519 (key : ed.PublicKey) (body sig : Str) : Except Raised Bool := do
  let msg ← asciiEncode (authorityEd25519Domain ++ cp '.' :: body)
  return signatureHolds ed key sig msg

def useBinding (token : Str) : Except Raised Str := do
  let bytes ← raising (utf8Encode token)
  return txt "tex-pop-use:" ++ hex (sha256 bytes).bytes

/-- The key is what `authority_ed25519_key` resolves, if anything. -/
def tgpccPublicJwks (key : Option ed.PrivateKey) : Except Raised JsonValue :=
  match key with
  | none => .ok (.obj [(txt "keys", .arr [])])
  | some key => do
    let jwk := publicJwk (ed.rawBytes (ed.publicKey key))
    let kid ← jwkThumbprint jwk
    let entry := jwk ++ [(txt "kid", .str kid), (txt "use", .str (txt "sig")), (txt "alg", .str claimAlgEd25519)]
    return .obj [(txt "keys", .arr [.obj entry])]

def isCandidate : JsonValue → Bool
  | .obj k => isText (get (txt "kty") k) (txt "OKP") && isText (get (txt "crv") k) (txt "Ed25519") &&
      isText (getOr (txt "use") (.str (txt "sig")) k) (txt "sig") &&
      isText (getOr (txt "alg") (.str claimAlgEd25519) k) claimAlgEd25519
  | _ => false

def members : JsonValue → Members
  | .obj k => k
  | _ => []

def findKid (kid : JsonValue) : List JsonValue → Except Raised (Option JsonValue)
  | [] => .ok none
  | k :: rest => do
    let candidate ← str py (getOr (txt "kid") (.str []) (members k))
    let wanted ← str py kid
    if ← compareDigest candidate wanted then return some k else findKid kid rest

def selectJwk (jwks kid : JsonValue) : Except Raised (Option JsonValue) :=
  match get (txt "keys") (members jwks) with
  | .arr keys =>
    let candidates := keys.filter isCandidate
    if truthy py kid then findKid py kid candidates
    else match candidates with
      | [k] => .ok (some k)
      | _ => .ok none
  | _ => .ok none

/-- `cnf.get("jkt")`, where `cnf` is a dict. -/
def cnfJkt (claims : Members) : JsonValue :=
  match get (txt "cnf") claims with
  | .obj cnf => get (txt "jkt") cnf
  | _ => .null

/-- The clock as it is read for the claims and for the proof; a given `now` is both. -/
structure Readings where
  claims : Clock
  proof : Clock

def firstReason : List (Except Raised (Option Str)) → Except Raised (Option Str)
  | [] => .ok none
  | check :: rest => do
    match ← check with
    | some reason => return some reason
    | none => firstReason rest

def failing (reason : Str) (holds : Bool) : Option Str := if holds then none else some reason

theorem failing_eq_none {reason : Str} {holds : Bool} : failing reason holds = none ↔ holds = true := by
  cases holds <;> simp [failing]

theorem firstReason_none_iff {checks : List (Except Raised (Option Str))} :
    firstReason checks = .ok none ↔ ∀ check ∈ checks, check = .ok none := by
  induction checks with
  | nil => simp [firstReason]
  | cons check rest ih =>
    rw [List.forall_mem_cons, ← ih]
    cases check with
    | error e => simp [firstReason, bind, Except.bind]
    | ok reason =>
      cases reason with
      | some reason => simp [firstReason, bind, Except.bind, pure, Except.pure]
      | none => simp [firstReason, bind, Except.bind]

structure CredentialCheck where
  ok : Bool
  reason : Str
  claims : Option Members
  binding : JsonValue

def verdict (claims : Members) (reason : Option Str) : CredentialCheck :=
  match reason with
  | some reason => ⟨false, reason, some claims, .null⟩
  | none => ⟨true, txt "ok", some claims, get (txt "bnd") claims⟩

structure CapabilityDemands where
  pinnedEpoch : Option ℤ
  expectedIssuer : Option Str
  now : Clock
  expectedIntentCommit : Option Str

def epochCheck (pinned : Option ℤ) (claims : Members) : Except Raised (Option Str) :=
  match pinned with
  | none => .ok none
  | some pinned => do
    match ← tryInt py (get (txt "epoch") claims) with
    | none => return some (txt "missing epoch")
    | some epoch => return failing (txt "stale epoch") (pinned ≤ epoch)

/-- `int(v)` compared with `int(clock)`. -/
def compareTime (reason : Str) (fits : ℤ → ℤ → Bool) (now : Clock) (v : JsonValue) : Except Raised (Option Str) := do
  let time ← int py v
  let seconds ← now.int
  return failing reason (fits time seconds)

def timeCheck (name reason : Str) (fits : ℤ → ℤ → Bool) (now : Clock) (claims : Members) :
    Except Raised (Option Str) :=
  match get name claims with
  | .null => .ok none
  | v => compareTime py reason fits now v

def intentCheck (expected : Option Str) (claims : Members) : Except Raised (Option Str) :=
  match expected with
  | none => .ok none
  | some expected =>
    match get (txt "intent_commit") claims with
    | .str intent => do
      let same ← compareDigest intent expected
      return failing (txt "intent mismatch") same
    | _ => .ok (some (txt "intent mismatch"))

def capabilityChecks (demands : CapabilityDemands) (claims : Members) : List (Except Raised (Option Str)) :=
  [epochCheck py demands.pinnedEpoch claims,
    timeCheck py (txt "exp") (txt "expired") (fun exp now => now ≤ exp) demands.now claims,
    timeCheck py (txt "nbf") (txt "not yet valid") (fun nbf now => nbf ≤ now + 5) demands.now claims,
    timeCheck py (txt "iat") (txt "not yet valid") (fun iat now => iat ≤ now + 5) demands.now claims,
    .ok (failing (txt "issuer mismatch") (agrees demands.expectedIssuer (get (txt "iss") claims))),
    intentCheck demands.expectedIntentCommit claims]

def checkClaims (load : JsonValue → Except Raised ed.PublicKey) (jwks : JsonValue) (demands : CapabilityDemands)
    (body sig : Str) (claims : Members) : Except Raised CredentialCheck := do
  if isText (get (txt "alg") claims) claimAlgEd25519 then
    match ← selectJwk py jwks (get (txt "kid") claims) with
    | none => return ⟨false, txt "no matching key", some claims, .null⟩
    | some jwk =>
      match load jwk with
      | .error _ => return ⟨false, txt "unsupported key", some claims, .null⟩
      | .ok key =>
        if ← verifyCredEd25519 ed key body sig then
          let reason ← firstReason (capabilityChecks py demands claims)
          return verdict claims reason
        else return ⟨false, txt "bad signature", some claims, .null⟩
  else return ⟨false, txt "unsupported alg", some claims, .null⟩

/-- The body of the `try`. -/
def checkCapability (load : JsonValue → Except Raised ed.PublicKey) (token : Option Str) (jwks : JsonValue)
    (demands : CapabilityDemands) : Except Raised CredentialCheck :=
  let text := token.getD []
  if cp '.' ∉ text then .ok ⟨false, txt "malformed credential", none, .null⟩
  else do
    let (body, sig) := partition (cp '.') text
    match ← readClaims py body with
    | some (.obj claims) => checkClaims py ed load jwks demands body sig claims
    | _ => return ⟨false, txt "unparseable claims", none, .null⟩

def verifyWithJwks (token : Option Str) (jwks : JsonValue) (demands : CapabilityDemands) : CredentialCheck :=
  caught ⟨false, txt "verification error", none, .null⟩
    (checkCapability py ed (loadPublicKey py ed) token jwks demands)

def canonicalIntentCommit (method resource : Str) (params : JsonValue) : Except Raised Str := do
  let text ← PyValue.dumps asciiOnly
    (.obj [(txt "method", .str method), (txt "resource", .str resource), (txt "params", params)])
  return hex (sha256 (utf8 text)).bytes

variable {py ed}

theorem compareTime_none_iff {reason : Str} {fits : ℤ → ℤ → Bool} {now : Clock} {v : JsonValue} :
    compareTime py reason fits now v = .ok none ↔
      ∃ time seconds, int py v = .ok time ∧ now.int = .ok seconds ∧ fits time seconds = true := by
  unfold compareTime
  cases int py v with
  | error e => simp [bind, Except.bind]
  | ok time =>
    cases now.int with
    | error e => simp [bind, Except.bind]
    | ok seconds => simp [bind, Except.bind, pure, Except.pure, failing_eq_none]

theorem timeCheck_none_iff {name reason : Str} {fits : ℤ → ℤ → Bool} {now : Clock} {claims : Members} :
    timeCheck py name reason fits now claims = .ok none ↔ get name claims = .null ∨
      ∃ time seconds, int py (get name claims) = .ok time ∧ now.int = .ok seconds ∧ fits time seconds = true := by
  have hcompare : compareTime py reason fits now (get name claims) = .ok none ↔ _ := compareTime_none_iff
  unfold timeCheck
  rw [← hcompare]
  cases get name claims <;> simp [compareTime, int, bind, Except.bind]

theorem verdict_ok {claims : Members} {reason : Option Str} : (verdict claims reason).ok = true ↔ reason = none := by
  cases reason <;> simp [verdict]

structure Accepted (py : Interpreter) {ed : Ed25519} (load : JsonValue → Except Raised ed.PublicKey) (token : Str) (jwks : JsonValue)
    (demands : CapabilityDemands) (claims : Members) : Prop where
  dot : cp '.' ∈ token
  reads : readClaims py (partition (cp '.') token).1 = .ok (some (.obj claims))
  alg : isText (get (txt "alg") claims) claimAlgEd25519 = true
  signed : ∃ jwk key, selectJwk py jwks (get (txt "kid") claims) = .ok (some jwk) ∧ load jwk = .ok key ∧
    verifyCredEd25519 ed key (partition (cp '.') token).1 (partition (cp '.') token).2 = .ok true
  checks : ∀ check ∈ capabilityChecks py demands claims, check = .ok none

section
variable {load : JsonValue → Except Raised ed.PublicKey} {token : Option Str} {jwks : JsonValue}
  {demands : CapabilityDemands}

theorem accepted_of_checkClaims {claims : Members} {body sig : Str} {c : CredentialCheck}
    (h : checkClaims py ed load jwks demands body sig claims = .ok c) (hok : c.ok = true) :
    isText (get (txt "alg") claims) claimAlgEd25519 = true ∧
      (∃ jwk key, selectJwk py jwks (get (txt "kid") claims) = .ok (some jwk) ∧ load jwk = .ok key ∧
        verifyCredEd25519 ed key body sig = .ok true) ∧
      (∀ check ∈ capabilityChecks py demands claims, check = .ok none) ∧ c = verdict claims none := by
  unfold checkClaims at h
  split at h
  · next halg =>
    obtain ⟨selected, hselected, h⟩ := Pipeline.bind_ok h
    split at h
    · obtain rfl := Except.ok.inj h
      cases hok
    · next jwk =>
      split at h
      · obtain rfl := Except.ok.inj h
        cases hok
      · next key hkey =>
        obtain ⟨signed, hsigned, h⟩ := Pipeline.bind_ok h
        split at h
        · next htrue =>
          obtain ⟨reason, hreason, h⟩ := Pipeline.bind_ok h
          obtain rfl := Except.ok.inj h
          obtain rfl := verdict_ok.mp hok
          rw [htrue] at hsigned
          exact ⟨halg, ⟨jwk, key, hselected, hkey, hsigned⟩, firstReason_none_iff.mp hreason, rfl⟩
        · obtain rfl := Except.ok.inj h
          cases hok
  · obtain rfl := Except.ok.inj h
    cases hok

theorem accepted_of_checkCapability {c : CredentialCheck}
    (h : checkCapability py ed load token jwks demands = .ok c) (hok : c.ok = true) :
    ∃ claims, Accepted py load (token.getD []) jwks demands claims ∧ c = verdict claims none := by
  unfold checkCapability at h
  dsimp only at h
  split at h
  · obtain rfl := Except.ok.inj h
    cases hok
  · next hdot =>
    obtain ⟨v, hv, h⟩ := Pipeline.bind_ok h
    split at h
    · next claims =>
      obtain ⟨halg, hsigned, hchecks, hc⟩ := accepted_of_checkClaims h hok
      exact ⟨claims, ⟨not_not.mp hdot, hv, halg, hsigned, hchecks⟩, hc⟩
    · obtain rfl := Except.ok.inj h
      cases hok

theorem checkCapability_of_accepted {claims : Members}
    (h : Accepted py load (token.getD []) jwks demands claims) :
    checkCapability py ed load token jwks demands = .ok (verdict claims none) := by
  obtain ⟨jwk, key, hselected, hkey, hsigned⟩ := h.signed
  unfold checkCapability checkClaims
  simp only [h.dot, not_true, if_false, h.reads, h.alg, if_true, hselected, hkey, hsigned,
    firstReason_none_iff.mpr h.checks, bind, Except.bind]
  rfl

theorem checkCapability_ok_iff : (∃ c, checkCapability py ed load token jwks demands = .ok c ∧ c.ok = true) ↔
    ∃ claims, Accepted py load (token.getD []) jwks demands claims := by
  constructor
  · rintro ⟨c, hc, hok⟩
    obtain ⟨claims, haccepted, -⟩ := accepted_of_checkCapability hc hok
    exact ⟨claims, haccepted⟩
  · rintro ⟨claims, haccepted⟩
    exact ⟨_, checkCapability_of_accepted haccepted, rfl⟩

end

theorem verifyWithJwks_ok_iff {token : Option Str} {jwks : JsonValue} {demands : CapabilityDemands} :
    (verifyWithJwks py ed token jwks demands).ok = true ↔
      ∃ claims, Accepted py (loadPublicKey py ed) (token.getD []) jwks demands claims := by
  rw [← checkCapability_ok_iff]
  unfold verifyWithJwks
  cases checkCapability py ed (loadPublicKey py ed) token jwks demands with
  | error e => simp [caught]
  | ok c => simp [caught]

theorem isAscii_signed {body : Str} (hbody : isAscii body = true) :
    isAscii (authorityEd25519Domain ++ cp '.' :: body) = true := by
  have hdomain : isAscii authorityEd25519Domain = true := by decide
  have hdot : decide ((cp '.').val < 0x80) = true := by decide
  unfold isAscii at hdomain hbody ⊢
  rw [List.all_append, List.all_cons, hdomain, hdot, hbody]
  rfl

theorem signCredEd25519_ascii (key : ed.PrivateKey) {body : Str} (hbody : isAscii body = true) :
    signCredEd25519 ed key body =
      .ok (b64url (ed.sign key (utf8 (authorityEd25519Domain ++ cp '.' :: body)))) := by
  unfold signCredEd25519 asciiEncode
  rw [if_pos (isAscii_signed hbody)]
  rfl

theorem verifyCredEd25519_signed {key : ed.PublicKey} {body : Str} {raw : Bytes} (hbody : isAscii body = true)
    (hverifies : ed.verifies key raw (utf8 (authorityEd25519Domain ++ cp '.' :: body)) = true) :
    verifyCredEd25519 ed key body (b64url raw) = .ok true := by
  have hascii := isAscii_signed hbody
  have hraw : b64urlDecode (b64url raw) = .ok raw := Enforcement.b64urlDecode_b64url raw
  unfold verifyCredEd25519 asciiEncode
  rw [if_pos hascii]
  simp only [bind, Except.bind, signatureHolds, hraw, hverifies]
  rfl

def oneKeyEntry : Members :=
  publicJwk (List.replicate 32 0) ++ [(txt "kid", .str (rawThumbprint (List.replicate 32 0))),
    (txt "use", .str (txt "sig")), (txt "alg", .str claimAlgEd25519)]

def oneKeyJwks : JsonValue := .obj [(txt "keys", .arr [.obj oneKeyEntry])]

theorem tgpccPublicJwks_oneKey : tgpccPublicJwks oneKey (some ()) = .ok oneKeyJwks := by
  have hkid : jwkThumbprint (publicJwk (List.replicate 32 0)) = .ok (rawThumbprint (List.replicate 32 0)) :=
    thumbprintWith_publicJwk (fun v hv => (write_narrow v hv).symm) _
  unfold tgpccPublicJwks
  show (jwkThumbprint (publicJwk (List.replicate 32 0)) >>= _) = _
  rw [hkid]
  rfl

theorem loadPublicKey_oneKey : loadPublicKey py oneKey (.obj oneKeyEntry) = .ok () := by
  have hx : item (txt "x") oneKeyEntry = .ok (.str (b64url (List.replicate 32 0))) := rfl
  have hkty : isText (get (txt "kty") oneKeyEntry) (txt "OKP") = true := rfl
  have hcrv : isText (get (txt "crv") oneKeyEntry) (txt "Ed25519") = true := rfl
  have hraw : b64urlDecode (b64url (List.replicate 32 0)) = .ok (List.replicate 32 0) :=
    Enforcement.b64urlDecode_b64url _
  unfold loadPublicKey
  simp only [hkty, hcrv, and_self, if_true, hx, bind, Except.bind, str, hraw]
  rfl

/-- The token with these claims, as the key signs it. -/
def oneKeyToken (claims : Members) : Str :=
  let body := b64url (utf8 (JsonText.dumps asciiOnly (.obj claims)))
  body ++ cp '.' :: b64url (oneKey.sign () (utf8 (authorityEd25519Domain ++ cp '.' :: body)))

theorem partition_oneKeyToken (claims : Members) : partition (cp '.') (oneKeyToken claims) =
    (b64url (utf8 (JsonText.dumps asciiOnly (.obj claims))),
      b64url (oneKey.sign () (utf8 (authorityEd25519Domain ++ cp '.' ::
        b64url (utf8 (JsonText.dumps asciiOnly (.obj claims))))))) :=
  partition_append (Enforcement.dot_not_mem_b64url _) _

theorem accepted_oneKeyToken {claims : Members} (hnodup : (claims.map Prod.fst).Nodup)
    (hplain : ∀ p ∈ claims, Plain p.1) (htame : Tame (py.frames + 2) (.obj claims))
    (halg : get (txt "alg") claims = .str claimAlgEd25519) (hkid : get (txt "kid") claims = .null)
    {demands : CapabilityDemands}
    (hchecks : ∀ check ∈ capabilityChecks py demands (Enforcement.backClaims claims), check = .ok none) :
    Accepted py (loadPublicKey py oneKey) (oneKeyToken claims) oneKeyJwks demands
      (Enforcement.backClaims claims) := by
  have hget := Enforcement.get_backClaims hnodup hplain
  refine ⟨by simp [oneKeyToken], ?_, ?_, ⟨_, (), ?_, loadPublicKey_oneKey, ?_⟩, hchecks⟩
  · rw [partition_oneKeyToken]
    exact Enforcement.readClaims_dumps py htame
  · rw [hget, halg]
    exact isText_iff.mpr (congrArg JsonValue.str (back_of_plain (PyRepr.plain_txt _)))
  · rw [hget, hkid]
    rfl
  · rw [partition_oneKeyToken]
    exact verifyCredEd25519_signed (Enforcement.isAscii_b64url _) (decide_eq_true rfl)

end TexGovernance.Authority
