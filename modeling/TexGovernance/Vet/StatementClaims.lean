import TexGovernance.Lib.Pipeline
import TexGovernance.Vet.Scitt

/-!
# What a verified statement says

The verifier reads the claims of the field, which the signature does not cover.
-/

namespace TexGovernance.Vet
open PyStr PyBytes PyCodec JsonLoads JsonText PyValue Sha256
open PyRepr (utf8)
open Enforcement (b64url b64urlDecode_b64url)
open Pqcrypto

variable {rt : ScittRuntime} {checks : StatementChecks}

structure SameSigned (stmt stmt' : ScittSignedStatement) : Prop where
  header : stmt'.protectedHeaderB64u = stmt.protectedHeaderB64u
  payload : stmt'.payloadB64u = stmt.payloadB64u
  signature : stmt'.signatureB64u = stmt.signatureB64u
  key : stmt'.issuerPublicKeyB64u = stmt.issuerPublicKeyB64u

theorem parseStatement_same {stmt stmt' : ScittSignedStatement} (h : SameSigned stmt stmt') :
    parseStatement rt stmt' = parseStatement rt stmt := by
  unfold parseStatement
  rw [h.header, h.payload, h.signature, h.key]

structure ChecksPass (checks : StatementChecks) (claims : ScittClaims) : Prop where
  issuer : issuerRefused checks claims = false
  subject : subjectRefused checks claims = false
  expiry : isExpired checks claims = false
  notBefore : notYetValid checks claims = false

def Accepts (rt : ScittRuntime) (checks : StatementChecks) (stmt : ScittSignedStatement)
    (r : ScittVerificationResult) : Prop :=
  verifySignedStatement rt checks stmt = .ok r ∧ r.valid = true

theorem refuseWith_invalid {reason : Str} {tsUri : Option Str} {r : ScittVerificationResult}
    (h : refuseWith reason tsUri = .ok r) : r.valid = false := by
  unfold refuseWith at h
  split at h
  · cases h
    rfl
  · cases h

theorem accepts_parsed {stmt : ScittSignedStatement} {r : ScittVerificationResult}
    (h : Accepts rt checks stmt r) : ∃ p, parseStatement rt stmt = .ok p ∧ ChecksPass checks stmt.claims ∧
      payloadDigest p.payloadBytes = stmt.payloadDigestHex ∧ signatureVerifies rt p = .ok true ∧
      r.statementIssuer = some stmt.claims.iss ∧ r.statementSubject = some stmt.claims.sub := by
  obtain ⟨hverify, hvalid⟩ := h
  unfold verifySignedStatement at hverify
  cases hparse : parseStatement rt stmt with
  | error e =>
    rw [hparse] at hverify
    simp only at hverify
    split at hverify
    · rw [refuseWith_invalid hverify] at hvalid
      cases hvalid
    · cases hverify
  | ok p =>
    rw [hparse] at hverify
    simp only at hverify
    split at hverify
    · cases hverify
      cases hvalid
    split at hverify
    · cases hverify
      cases hvalid
    split at hverify
    · cases hverify
      cases hvalid
    split at hverify
    · cases hverify
      cases hvalid
    split at hverify
    · cases hverify
      cases hvalid
    rename_i hissuer hsubject hexpiry hnotBefore hdigest
    obtain ⟨verified, hverified, hverify⟩ := Pipeline.bind_ok hverify
    cases verified with
    | false =>
      cases hverify
      cases hvalid
    | true =>
      cases hverify
      exact ⟨p, rfl, ⟨Bool.eq_false_of_not_eq_true hissuer, Bool.eq_false_of_not_eq_true hsubject,
        Bool.eq_false_of_not_eq_true hexpiry, Bool.eq_false_of_not_eq_true hnotBefore⟩,
        not_not.mp hdigest, hverified, rfl, rfl⟩

theorem accepts_of_checks {stmt : ScittSignedStatement} {p : ParsedStatement}
    (hparse : parseStatement rt stmt = .ok p) (hchecks : ChecksPass checks stmt.claims)
    (hdigest : payloadDigest p.payloadBytes = stmt.payloadDigestHex)
    (hverified : signatureVerifies rt p = .ok true) : ∃ r, Accepts rt checks stmt r := by
  refine ⟨{
    valid := true
    reason := txt "ok"
    statementSignatureValid := true
    statementIssuer := some stmt.claims.iss
    statementSubject := some stmt.claims.sub }, ?_, rfl⟩
  unfold verifySignedStatement
  simp only [hparse, hchecks.issuer, hchecks.subject, hchecks.expiry, hchecks.notBefore, hdigest, hverified,
    Bool.false_eq_true, if_false, ne_eq, not_true_eq_false, bind, Except.bind, if_true]
  rfl

def Carried (header : JsonValue) (claims : ScittClaims) : Prop :=
  ∃ members cwtClaims, header = .obj members ∧ get? (txt "cwt_claims") members = some (.obj cwtClaims) ∧
    get? (txt "iss") cwtClaims = some (.str claims.iss) ∧ get? (txt "sub") cwtClaims = some (.str claims.sub) ∧
    get (txt "exp") cwtClaims = intJson claims.exp ∧ get (txt "nbf") cwtClaims = intJson claims.nbf

structure SaysWhatWasSigned (rt : ScittRuntime) (checks : StatementChecks) (stmt : ScittSignedStatement) :
    Prop where
  carried : ∀ r, Accepts rt checks stmt r → r.statementIssuer = some stmt.claims.iss ∧
    r.statementSubject = some stmt.claims.sub ∧
      ∃ p, parseStatement rt stmt = .ok p ∧ Carried p.header stmt.claims
  reported : ∀ stmt' r r', SameSigned stmt stmt' → Accepts rt checks stmt r → Accepts rt checks stmt' r' →
    r'.statementIssuer = r.statementIssuer ∧ r'.statementSubject = r.statementSubject
  expired : ∀ stmt' r', SameSigned stmt stmt' → isExpired checks stmt.claims = true →
    ¬ Accepts rt checks stmt' r'

def RefusedOtherwise (checks : StatementChecks) (stmt : ScittSignedStatement) (p : ParsedStatement) : Prop :=
  isExpired checks stmt.claims = false ∧ (issuerRefused checks stmt.claims = true ∨
    subjectRefused checks stmt.claims = true ∨ notYetValid checks stmt.claims = true ∨
    payloadDigest p.payloadBytes ≠ stmt.payloadDigestHex)

def obligingClaims (checks : StatementChecks) : ScittClaims where
  iss := checks.expectedIssuer.getD []
  sub := checks.expectedSubjectPrefix.getD []
  iat := 0
  aud := none
  exp := none
  nbf := none

theorem obliging_pass (checks : StatementChecks) : ChecksPass checks (obligingClaims checks) where
  issuer := by
    unfold issuerRefused obligingClaims
    cases checks.expectedIssuer with
    | none => rfl
    | some expected => simp
  subject := by
    unfold subjectRefused obligingClaims
    cases checks.expectedSubjectPrefix with
    | none => rfl
    | some expected => simp
  expiry := rfl
  notBefore := rfl

theorem subject_extended {claims : ScittClaims} (h : ChecksPass checks claims) (more : Str) :
    ChecksPass checks { claims with sub := claims.sub ++ more } where
  issuer := h.issuer
  subject := by
    have hsubject := h.subject
    unfold subjectRefused at hsubject ⊢
    cases hexpected : checks.expectedSubjectPrefix with
    | none => rfl
    | some expected =>
      rw [hexpected] at hsubject
      simp only [Option.any_some, Bool.not_eq_false', List.isPrefixOf_iff_prefix] at hsubject ⊢
      exact hsubject.trans (List.prefix_append claims.sub more)
  expiry := h.expiry
  notBefore := h.notBefore

/-- Exactly the statements whose signature does not verify and those that are refused for something
that is not their expiry. -/
theorem says_what_was_signed_iff (rt : ScittRuntime) (checks : StatementChecks)
    (stmt : ScittSignedStatement) : SaysWhatWasSigned rt checks stmt ↔
      ∀ p, parseStatement rt stmt = .ok p → signatureVerifies rt p = .ok true →
        RefusedOtherwise checks stmt p := by
  constructor
  · intro hclaims p hparse hverified
    -- an expired statement is accepted under claims that do not expire
    have hfresh : isExpired checks stmt.claims = false := by
      by_contra hexpired
      let stmt' : ScittSignedStatement :=
        { stmt with claims := obligingClaims checks, payloadDigestHex := payloadDigest p.payloadBytes }
      have hsame : SameSigned stmt stmt' := ⟨rfl, rfl, rfl, rfl⟩
      obtain ⟨r', haccepts⟩ : ∃ r, Accepts rt checks stmt' r :=
        accepts_of_checks ((parseStatement_same hsame).trans hparse) (obliging_pass checks) rfl hverified
      exact hclaims.expired stmt' r' hsame (Bool.eq_true_of_not_eq_false hexpired) haccepts
    refine ⟨hfresh, ?_⟩
    by_contra hrefused
    simp only [not_or, not_not, Bool.not_eq_true] at hrefused
    obtain ⟨hissuer, hsubject, hnotBefore, hdigest⟩ := hrefused
    have hchecks : ChecksPass checks stmt.claims := ⟨hissuer, hsubject, hfresh, hnotBefore⟩
    -- an accepted one is accepted with a longer subject
    let stmt' : ScittSignedStatement :=
      { stmt with claims := { stmt.claims with sub := stmt.claims.sub ++ [cp 'x'] } }
    have hsame : SameSigned stmt stmt' := ⟨rfl, rfl, rfl, rfl⟩
    obtain ⟨r, haccepts⟩ := accepts_of_checks hparse hchecks hdigest hverified
    obtain ⟨r', haccepts'⟩ : ∃ r, Accepts rt checks stmt' r :=
      accepts_of_checks ((parseStatement_same hsame).trans hparse) (subject_extended hchecks _) hdigest hverified
    have hreported := (hclaims.reported stmt' r r' hsame haccepts haccepts').2
    obtain ⟨-, -, -, -, -, -, hsub⟩ := accepts_parsed haccepts
    obtain ⟨-, -, -, -, -, -, hsub'⟩ := accepts_parsed haccepts'
    rw [hsub, hsub', Option.some.injEq] at hreported
    exact absurd (List.append_right_eq_self.mp hreported) (List.cons_ne_nil _ _)
  · intro hrefused
    have hnever : ∀ r, ¬ Accepts rt checks stmt r := by
      intro r haccepts
      obtain ⟨p, hparse, hchecks, hdigest, hverified, -⟩ := accepts_parsed haccepts
      obtain ⟨-, hissuer | hsubject | hnotBefore | hother⟩ := hrefused p hparse hverified
      · rw [hchecks.issuer] at hissuer
        cases hissuer
      · rw [hchecks.subject] at hsubject
        cases hsubject
      · rw [hchecks.notBefore] at hnotBefore
        cases hnotBefore
      · exact hother hdigest
    refine ⟨fun r haccepts => absurd haccepts (hnever r), fun _ r _ _ haccepts => absurd haccepts (hnever r), ?_⟩
    intro stmt' r' hsame hexpired haccepts
    obtain ⟨p, hparse, -, -, hverified, -⟩ := accepts_parsed haccepts
    obtain ⟨hfresh, -⟩ := hrefused p ((parseStatement_same hsame).symm.trans hparse) hverified
    rw [hfresh] at hexpired
    cases hexpired

def sampleHeader : JsonValue :=
  .obj [(txt "alg", .str (txt "ed25519")), (txt "cty", .str (txt "application/cose")),
    (txt "cwt_claims", .obj [(txt "iat", .int 1), (txt "iss", .str (txt "did:web:alice")),
      (txt "sub", .str (txt "tex:decision:1"))]),
    (txt "kid", .str (txt "k")), (txt "scitt_version", .str (txt "1"))]

def sampleHeaderBytes : Bytes := utf8 (write asciiOnly sampleHeader)

def hashSigned (header : JsonValue) (headerBytes payloadBytes : Bytes) : ParsedStatement where
  headerBytes
  header
  algorithm := .ed25519
  payloadBytes
  signature := (sha256 (utf8 (JsonText.dumps asciiOnly (.arr [.str (txt "Signature1"),
    .str (b64url headerBytes), .str (b64url []), .str (b64url payloadBytes)])))).bytes
  publicKey := []

theorem hashSigned_verifies (header : JsonValue) (headerBytes payloadBytes : Bytes) :
    signatureVerifies hashRuntime (hashSigned header headerBytes payloadBytes) = .ok true := by
  unfold signatureVerifies
  rw [sigStructure_bytes]
  exact congrArg Except.ok (decide_eq_true rfl)

def sampleParsed : ParsedStatement := hashSigned sampleHeader sampleHeaderBytes (utf8 (txt "\x7b\x7d"))

def mallorysStatement : ScittSignedStatement where
  protectedHeaderB64u := b64url sampleHeaderBytes
  payloadB64u := b64url sampleParsed.payloadBytes
  signatureB64u := b64url sampleParsed.signature
  issuerPublicKeyB64u := b64url sampleParsed.publicKey
  claims := ⟨txt "did:web:mallory", txt "tex:decision:1", 1, none, none, none⟩
  payloadDigestHex := payloadDigest sampleParsed.payloadBytes

theorem back_txt (s : String) : asciiOnly.back (txt s) = txt s := back_of_plain (PyRepr.plain_txt s)

theorem loads_sampleHeader : PyValue.loads plainInterpreter sampleHeaderBytes = .ok sampleHeader := by
  have htame : Tame 22 sampleHeader := by
    have hclaims : Tame 21 (.obj [(txt "iat", .int 1), (txt "iss", .str (txt "did:web:alice")),
        (txt "sub", .str (txt "tex:decision:1"))]) := by
      refine .obj ?_
      simp only [List.forall_mem_cons, Tame.str, true_and]
      exact ⟨.int (by decide), List.forall_mem_nil _⟩
    refine .obj ?_
    simp only [List.forall_mem_cons, Tame.str, hclaims, true_and]
    exact List.forall_mem_nil _
  rw [sampleHeaderBytes, loads_visible plainInterpreter htame]
  simp only [sampleHeader, mapTexts, mapMembers, back_txt]

theorem parse_mallorysStatement : parseStatement hashRuntime mallorysStatement = .ok sampleParsed := by
  have halgorithm : headerAlgorithm sampleHeader = .ok .ed25519 := rfl
  have hloads : PyValue.loads hashRuntime.py sampleHeaderBytes = .ok sampleHeader := loads_sampleHeader
  unfold parseStatement mallorysStatement
  simp only [b64urlDecode_b64url, hloads, halgorithm, bind, Except.bind]
  rfl

/-- A statement that one issuer signed is accepted and reported as another's. -/
theorem mallorys_claims_accepted :
    ¬ SaysWhatWasSigned hashRuntime ⟨some (txt "did:web:mallory"), none, 1⟩ mallorysStatement := by
  intro hclaims
  have hchecks : ChecksPass ⟨some (txt "did:web:mallory"), none, 1⟩ mallorysStatement.claims :=
    ⟨by decide, rfl, rfl, rfl⟩
  obtain ⟨r, haccepts⟩ := accepts_of_checks parse_mallorysStatement hchecks rfl
    (hashSigned_verifies _ _ _)
  obtain ⟨-, -, p, hparse, hcarried⟩ := hclaims.carried r haccepts
  obtain rfl : sampleParsed = p := Except.ok.inj (parse_mallorysStatement.symm.trans hparse)
  obtain ⟨members, cwtClaims, hheader, hclaims, hiss, -⟩ := hcarried
  obtain rfl := JsonValue.obj.inj hheader
  obtain rfl := JsonValue.obj.inj (Option.some.inj hclaims)
  have hsame : txt "did:web:alice" = txt "did:web:mallory" := JsonValue.str.inj (Option.some.inj hiss)
  exact absurd hsame (by decide)

end TexGovernance.Vet
