import TexGovernance.Authority.Broker

/-!
# Sender-constrained credentials

A credential that was minted for a key carries the thumbprint of it, and the broker accepts it
with a proof only.
-/

namespace TexGovernance.Authority
open PyStr PyBytes PyCodec JsonLoads JsonText PyValue CaseFold
open PyRepr (utf8 Plain)
open Engine (Uuid)
open Enforcement (canonical readClaims agrees backClaims)

variable {py : Interpreter} {ed : Ed25519}

def claimNames : List Str :=
  [txt "v", txt "typ", txt "iss", txt "sub", txt "idp", txt "aud", txt "act", txt "scope", txt "cnf", txt "bnd",
    txt "jti", txt "iat", txt "exp", txt "alg", txt "epoch", txt "intent_commit", txt "prov_commit"]

theorem optionalMember_names (name : Str) (v : Option JsonValue) :
    ((optionalMember name v).map Prod.fst).Sublist [name] := by
  cases v with
  | none => exact List.nil_sublist _
  | some v => exact List.Sublist.refl _

section Claims

variable (broker : CredentialBroker) (identity : AttestedIdentity) (subject : Str) (args : MintArgs py ed)
  (jkt : Option Str) (issued exp : ℤ)

theorem credentialClaims_names :
    ((credentialClaims broker identity subject args jkt issued exp).map Prod.fst).Sublist claimNames := by
  unfold credentialClaims
  simp only [List.map_append]
  show List.Sublist _ ([txt "v", txt "typ", txt "iss", txt "sub", txt "idp", txt "aud", txt "act", txt "scope",
    txt "cnf", txt "bnd", txt "jti", txt "iat", txt "exp"] ++ [txt "alg"] ++ [txt "epoch"] ++
      [txt "intent_commit"] ++ [txt "prov_commit"])
  exact ((((List.Sublist.refl _).append (optionalMember_names _ _)).append (optionalMember_names _ _)).append
    (optionalMember_names _ _)).append (optionalMember_names _ _)

theorem credentialClaims_nodup : ((credentialClaims broker identity subject args jkt issued exp).map Prod.fst).Nodup :=
  (credentialClaims_names broker identity subject args jkt issued exp).nodup (by decide)

theorem credentialClaims_plain :
    ∀ p ∈ credentialClaims broker identity subject args jkt issued exp, Plain p.1 := by
  have hnames : ∀ name ∈ claimNames, Plain name := by
    simp only [claimNames, List.forall_mem_cons, PyRepr.plain_txt, true_and]
    exact List.forall_mem_nil _
  intro p hp
  exact hnames _ ((credentialClaims_names broker identity subject args jkt issued exp).subset
    (List.mem_map_of_mem hp))

theorem tame_of_shortInts {z : ℤ} {depth : ℕ} (h : shortInts (.int z) = true) : Tame depth (.int z) :=
  .int (of_decide_eq_true h)

theorem shortInts_of_mem {members : Members} (h : shortMembers members = true) :
    ∀ p ∈ members, shortInts p.2 = true := by
  induction members with
  | nil => exact List.forall_mem_nil _
  | cons m rest ih =>
    obtain ⟨hm, hrest⟩ := Bool.and_eq_true_iff.mp h
    exact List.forall_mem_cons.mpr ⟨hm, ih hrest⟩

theorem credentialClaims_tame
    (hshort : shortInts (.obj (credentialClaims broker identity subject args jkt issued exp)) = true) :
    Tame (py.frames + 2) (.obj (credentialClaims broker identity subject args jkt issued exp)) := by
  have hints := shortInts_of_mem hshort
  have hidp : ∀ depth, Tame depth (Enforcement.optional identity.issuer) := by
    intro depth
    cases identity.issuer with
    | none => exact .null
    | some s => exact .str s
  have hscope : Tame (py.frames + 1) (.arr ((scopeTuple args.scope).map .str)) :=
    .arr (List.forall_mem_map.mpr fun s _ => .str s)
  refine .obj ?_
  unfold credentialClaims at hints ⊢
  simp only [List.forall_mem_append, List.forall_mem_cons] at hints ⊢
  obtain ⟨⟨⟨⟨⟨-, -, -, -, -, -, -, -, -, -, -, hiat, hexp, -⟩, -⟩, hepoch⟩, -⟩, -⟩ := hints
  refine ⟨⟨⟨⟨⟨tame_of_shortInts (by decide), .str _, .str _, .str _, hidp _, .str _, .str _, hscope, ?_, .str _,
    .str _, tame_of_shortInts hiat, tame_of_shortInts hexp, List.forall_mem_nil _⟩, ?_⟩, ?_⟩, ?_⟩, ?_⟩
  · cases jkt with
    | none => exact .null
    | some jkt => exact .obj (List.forall_mem_singleton.mpr (.str jkt))
  · cases args.signAlg with
    | ed25519 => exact List.forall_mem_singleton.mpr (.str _)
    | hmac => exact List.forall_mem_nil _
    | unknown => exact List.forall_mem_nil _
  · cases hargs : args.epoch with
    | none => exact List.forall_mem_nil _
    | some epoch =>
      rw [hargs] at hepoch
      exact List.forall_mem_singleton.mpr (tame_of_shortInts (hepoch _ (List.mem_singleton.mpr rfl)))
  · cases args.intentCommit with
    | none => exact List.forall_mem_nil _
    | some intent => exact List.forall_mem_singleton.mpr (.str intent)
  · cases args.provCommit with
    | none => exact List.forall_mem_nil _
    | some prov => exact List.forall_mem_singleton.mpr prov.property

end Claims

structure Minted (py : Interpreter) (credential : MintedCredential) : Prop where
  nodup : (credential.claims.map Prod.fst).Nodup
  plain : ∀ p ∈ credential.claims, Plain p.1
  tame : Tame (py.frames + 2) (.obj credential.claims)
  token : ∃ sig, credential.token =
    Enforcement.b64url (utf8 (JsonText.dumps asciiOnly (.obj credential.claims))) ++ cp '.' :: sig

theorem canonical_short {claims : JsonValue} {body : Str} (h : canonical claims = .ok body) :
    shortInts claims = true := by
  obtain ⟨text, htext, -⟩ := Pipeline.bind_ok h
  unfold PyValue.dumps at htext
  split at htext
  · assumption
  · cases htext

variable {broker : CredentialBroker} {secrets : Secrets ed} {identity : Option AttestedIdentity}
  {args : MintArgs py ed} {credential : MintedCredential}

theorem prepare_ok (h : prepare py ed broker secrets identity args = .ok (some credential)) :
    Minted py credential ∧ ∃ identity' subject jkt issued exp,
      bindingOf py ed broker args.cnfPublicKey = .ok (some jkt) ∧ credential.cnfJkt = jkt ∧
      credential.claims = credentialClaims broker identity' subject args jkt issued exp := by
  unfold prepare at h
  split at h
  · cases h
  · next identity' =>
    split at h
    · next c cs signer _ _ _ =>
      obtain ⟨bound, hbound, h⟩ := Pipeline.bind_ok h
      split at h
      · cases h
      · next jkt =>
        obtain ⟨issued, hissued, h⟩ := Pipeline.bind_ok h
        obtain ⟨body, hbody, h⟩ := Pipeline.bind_ok h
        obtain ⟨sig, hsig, h⟩ := Pipeline.bind_ok h
        obtain ⟨expiry, hexpiry, h⟩ := Pipeline.bind_ok h
        obtain rfl := Option.some.inj (Except.ok.inj h)
        refine ⟨⟨credentialClaims_nodup _ _ _ _ _ _ _, credentialClaims_plain _ _ _ _ _ _ _,
          credentialClaims_tame _ _ _ _ _ _ _ (canonical_short hbody), sig, ?_⟩, identity', c :: cs, jkt, issued, _,
          hbound, rfl, rfl⟩
        rw [← Enforcement.canonical_ok hbody]
    · cases h

theorem bindingOf_key (key : ed.PublicKey) :
    bindingOf py ed broker (some (.key key)) = .ok (some (some (rawThumbprint (ed.rawBytes key)))) := by
  show (thumbprint ed key >>= _) = _
  rw [thumbprint_eq]
  rfl

theorem prepare_signed {identity : AttestedIdentity} (hverified : identity.verified = true) {c : CodePoint} {cs : Str}
    (hsubject : Enforcement.orDefault identity.claimedAgentId [] = c :: cs) {signer : Str → Except Raised Str}
    (hsigner : signerOf ed secrets args.signAlg = some signer) {jkt : Option Str}
    (hbound : bindingOf py ed broker args.cnfPublicKey = .ok (some jkt)) {issued : ℤ}
    (hnow : args.now.int = .ok issued)
    (hshort : shortInts (.obj (credentialClaims broker identity (c :: cs) args jkt issued (issued + args.ttl))) = true)
    (hrange : -62135596800 ≤ issued + args.ttl ∧ issued + args.ttl ≤ 253402300799) {sigOf : Str → Str}
    (hsig : ∀ body, isAscii body = true → signer body = .ok (sigOf body)) :
    ∃ credential, prepare py ed broker secrets (some identity) args = .ok (some credential) ∧
      credential.cnfJkt = jkt ∧
      credential.claims = credentialClaims broker identity (c :: cs) args jkt issued (issued + args.ttl) ∧
      credential.token = Enforcement.b64url (utf8 (JsonText.dumps asciiOnly (.obj credential.claims))) ++ cp '.' ::
        sigOf (Enforcement.b64url (utf8 (JsonText.dumps asciiOnly (.obj credential.claims)))) := by
  have hcanonical : canonical (.obj (credentialClaims broker identity (c :: cs) args jkt issued (issued + args.ttl))) =
      .ok (Enforcement.b64url (utf8 (JsonText.dumps asciiOnly
        (.obj (credentialClaims broker identity (c :: cs) args jkt issued (issued + args.ttl)))))) := by
    unfold Enforcement.canonical PyValue.dumps
    rw [if_pos hshort]
    rfl
  unfold prepare
  simp only [hverified, hsubject, hsigner, hbound, hnow, bind, Except.bind, hcanonical,
    hsig _ (Enforcement.isAscii_b64url _), Enforcement.fromTimestamp, if_pos hrange]
  exact ⟨_, rfl, rfl, rfl, rfl⟩

theorem signCred_ascii {secret body : Str} (hsecret : Plain secret) (hbody : isAscii body = true) :
    signCred secret body =
      .ok (Enforcement.b64url (Hmac.hmacSha256 (utf8 secret) (utf8 (authorityDomain ++ cp '.' :: body))).bytes) := by
  have hdomain : isAscii authorityDomain = true := by decide
  have hdot : isAscii (cp '.' :: body) = isAscii body := rfl
  unfold signCred Enforcement.sign asciiEncode
  rw [PyRepr.utf8Encode_eq hsecret, if_pos (isAscii_append.mpr ⟨hdomain, hdot.trans hbody⟩)]
  rfl

theorem mint_prepared {issue : Option (MintedCredential → Except Raised (Option Uuid))}
    (h : mint py ed broker secrets identity args issue = .ok (some credential)) :
    ∃ prepared, prepare py ed broker secrets identity args = .ok (some prepared) ∧
      credential.token = prepared.token ∧ credential.cnfJkt = prepared.cnfJkt ∧
      credential.claims = prepared.claims := by
  obtain ⟨prepared?, hprepared, h⟩ := Pipeline.bind_ok h
  split at h
  · cases h
  · next prepared =>
    refine ⟨prepared, hprepared, ?_⟩
    split at h
    · obtain rfl := Option.some.inj (Except.ok.inj h)
      exact ⟨rfl, rfl, rfl⟩
    · split at h
      · cases h
      · obtain rfl := Option.some.inj (Except.ok.inj h)
        exact ⟨rfl, rfl, rfl⟩

theorem minted_cnf (h : prepare py ed broker secrets identity args = .ok (some credential))
    (hkey : args.cnfPublicKey ≠ none) : ∃ jkt, jkt ≠ [] ∧ credential.cnfJkt = some jkt ∧
      cnfJkt (backClaims credential.claims) = .str jkt := by
  obtain ⟨hminted, identity', subject, jkt, issued, exp, hbound, hjkt, hclaims⟩ := prepare_ok h
  obtain ⟨key, rfl⟩ : ∃ key, jkt = some (rawThumbprint (ed.rawBytes key)) := by
    unfold bindingOf at hbound
    split at hbound
    · split at hbound
      · cases hbound
      · next key _ =>
        rw [thumbprint_eq] at hbound
        exact ⟨key, (Option.some.inj (Except.ok.inj hbound)).symm⟩
    · next hnone => exact absurd hnone hkey
  have hplain : Plain (rawThumbprint (ed.rawBytes key)) := plain_of_visible (Enforcement.visible_b64url _)
  have hcnf : get (txt "cnf") credential.claims = .obj [(txt "jkt", .str (rawThumbprint (ed.rawBytes key)))] := by
    unfold PyValue.get getOr
    have hmem : (txt "cnf", JsonValue.obj [(txt "jkt", .str (rawThumbprint (ed.rawBytes key)))]) ∈
        credential.claims := by
      rw [hclaims]
      simp [credentialClaims]
    rw [(get?_eq_some_iff hminted.nodup).mpr hmem]
    rfl
  refine ⟨_, fun hnil => ?_, hjkt, ?_⟩
  · have hlength := length_rawThumbprint (ed.rawBytes key)
    rw [hnil] at hlength
    cases hlength
  · unfold cnfJkt
    rw [Enforcement.get_backClaims hminted.nodup hminted.plain, hcnf]
    show get (txt "jkt") [(asciiOnly.back (txt "jkt"), .str (asciiOnly.back (rawThumbprint (ed.rawBytes key))))] = _
    rw [back_of_plain hplain, back_of_plain (PyRepr.plain_txt _)]
    rfl

theorem Minted.reads (h : Minted py credential) :
    readClaims py (partition (cp '.') credential.token).1 = .ok (some (.obj (backClaims credential.claims))) := by
  obtain ⟨sig, htoken⟩ := h.token
  rw [htoken, partition_append (Enforcement.dot_not_mem_b64url _)]
  exact Enforcement.readClaims_dumps py h.tame

/-- The proof that is supplied is accepted for the key and this token. -/
def ProofSupplied (py : Interpreter) (ed : Ed25519) (call : VerifyCall) (token : Str) (jkt : JsonValue) : Prop :=
  ∃ bind, useBinding token = .ok bind ∧
    (verifyPopProof py ed call.popProof ⟨jkt, bind, call.now.proof, call.popMaxAge, 5, call.popChallenge⟩).ok = true

theorem popCheck_none_iff {call : VerifyCall} {token : Str} {claims : Members} :
    popCheck py ed call token claims = .ok none ↔
      (isText (get (txt "bnd") claims) (txt "pop") = true ∨ truthy py (cnfJkt claims) = true →
        ProofSupplied py ed call token (cnfJkt claims)) := by
  unfold popCheck
  dsimp only
  by_cases hasked : isText (get (txt "bnd") claims) (txt "pop") = true ∨ truthy py (cnfJkt claims) = true
  · rw [if_pos hasked]
    simp only [hasked, true_implies]
    by_cases hkey : truthy py (cnfJkt claims) = false
    · rw [if_pos hkey]
      refine iff_of_false nofun ?_
      rintro ⟨bind, -, hok⟩
      have htruthy := truthy_of_verifyPopProof hok
      rw [hkey] at htruthy
      cases htruthy
    · rw [if_neg hkey]
      by_cases hproof : call.popProof.getD [] = []
      · rw [if_pos hproof]
        refine iff_of_false nofun ?_
        rintro ⟨bind, -, hok⟩
        rw [verifyPopProof_nil hproof] at hok
        cases hok
      · rw [if_neg hproof]
        unfold ProofSupplied
        cases useBinding token with
        | error e => simp [bind, Except.bind]
        | ok bind => simp [Bind.bind, Except.bind, pure, Except.pure, failing_eq_none]
  · rw [if_neg hasked]
    exact iff_of_true rfl fun h => absurd h hasked

/-- `exp`, or `0`, is a number that is not before the clock. -/
def NotExpired (py : Interpreter) (now : Clock) (claims : Members) : Prop :=
  ∃ exp seconds, int py (getOr (txt "exp") (.int 0) claims) = .ok exp ∧ now.int = .ok seconds ∧ seconds ≤ exp

/-- `iat`, or `0`, is a number that the clock has all but reached. -/
def AlreadyIssued (py : Interpreter) (now : Clock) (claims : Members) : Prop :=
  ∃ iat seconds, int py (getOr (txt "iat") (.int 0) claims) = .ok iat ∧ now.int = .ok seconds ∧ iat ≤ seconds + 5

/-- `nbf` is missing, or a number that the clock has all but reached. -/
def NotEarly (py : Interpreter) (now : Clock) (claims : Members) : Prop :=
  get (txt "nbf") claims = .null ∨
    ∃ nbf seconds, int py (get (txt "nbf") claims) = .ok nbf ∧ now.int = .ok seconds ∧ nbf ≤ seconds + 5

theorem boundCheck_none_iff {name reason : Str} {fits : ℤ → ℤ → Bool} {now : Clock} {claims : Members} :
    boundCheck py name reason fits now claims = .ok none ↔ ∃ time seconds,
      int py (getOr name (.int 0) claims) = .ok time ∧ now.int = .ok seconds ∧ fits time seconds = true :=
  compareTime_none_iff

theorem timeCheck_of_boundCheck {name reason reason' : Str} {fits : ℤ → ℤ → Bool} {now : Clock}
    {claims : Members} (h : boundCheck py name reason fits now claims = .ok none) :
    timeCheck py name reason' fits now claims = .ok none := by
  rw [boundCheck_none_iff] at h
  rw [timeCheck_none_iff]
  unfold PyValue.get getOr at *
  cases hget : get? name claims with
  | none => exact .inl rfl
  | some v =>
    rw [hget] at h
    exact .inr h

theorem verifyEd25519ViaJwks_iff {published : Option ed.PrivateKey} {jwks : JsonValue}
    (hjwks : tgpccPublicJwks ed published = .ok jwks) {claims : Members} {body sig : Str} :
    verifyEd25519ViaJwks py ed published claims body sig = .ok true ↔
      ∃ jwk key, selectJwk py jwks (get (txt "kid") claims) = .ok (some jwk) ∧
        loadPublicKey py ed jwk = .ok key ∧ verifyCredEd25519 ed key body sig = .ok true := by
  unfold verifyEd25519ViaJwks
  rw [hjwks]
  simp only [bind, Except.bind]
  cases selectJwk py jwks (get (txt "kid") claims) with
  | error e => simp
  | ok selected =>
    cases selected with
    | none => simp [pure, Except.pure]
    | some jwk => cases hload : loadPublicKey py ed jwk <;> simp [pure, Except.pure, hload]

theorem signatureCheck_iff {claims : Members} (halg : isText (get (txt "alg") claims) claimAlgEd25519 = true)
    {body sig : Str} : signatureCheck py ed secrets claims body sig = .ok none ↔
      verifyEd25519ViaJwks py ed secrets.ed25519 claims body sig = .ok true := by
  unfold signatureCheck
  rw [isText_iff.mp halg]
  show (if isText (.str claimAlgEd25519) claimAlgEd25519 = true then _ else _) = _ ↔ _
  rw [if_pos (isText_iff.mpr rfl)]
  cases verifyEd25519ViaJwks py ed secrets.ed25519 claims body sig with
  | error e => simp [bind, Except.bind]
  | ok holds => simp [bind, Except.bind, pure, Except.pure, failing_eq_none]

section Verifiers

variable {lookup : Option Lookup} {call : VerifyCall} {token : Str} {claims : Members} {jwks : JsonValue}

/-- What the verifier without a secret is asked for in comparison: the same issuer and clock. -/
def sameDemands (broker : CredentialBroker) (call : VerifyCall) : CapabilityDemands :=
  ⟨none, some (call.expectedIssuer.getD broker.issuer), call.now.claims, none⟩

/-- The call without a check of the audience, the action, the subject or the scope. -/
def VerifyCall.bare (call : VerifyCall) : VerifyCall :=
  { call with expectedAudience := none, expectedAction := none, requiredScope := none, expectedSubject := none }

theorem accepted_iff_of_verified (hjwks : tgpccPublicJwks ed secrets.ed25519 = .ok jwks)
    (halg : isText (get (txt "alg") claims) claimAlgEd25519 = true)
    (h : Verified py broker secrets lookup token call claims) :
    Accepted py (loadPublicKey py ed) token jwks (sameDemands broker call) claims ↔
      NotEarly py call.now.claims claims := by
  have hchecks := h.checks
  simp only [credentialChecks, List.forall_mem_cons] at hchecks
  obtain ⟨hissuer, hexp, hiat, -⟩ := hchecks
  have hnbf : timeCheck py (txt "nbf") (txt "not yet valid") (fun nbf now => nbf ≤ now + 5) call.now.claims claims =
      .ok none ↔ NotEarly py call.now.claims claims := by
    rw [timeCheck_none_iff]
    simp only [NotEarly, decide_eq_true_eq]
  constructor
  · intro haccepted
    have haccepts := haccepted.checks
    simp only [capabilityChecks, List.forall_mem_cons] at haccepts
    exact hnbf.mp haccepts.2.2.1
  · intro hearly
    refine ⟨h.dot, h.reads, halg, (verifyEd25519ViaJwks_iff hjwks).mp ((signatureCheck_iff halg).mp h.signed), ?_⟩
    simp only [capabilityChecks, List.forall_mem_cons]
    exact ⟨rfl, timeCheck_of_boundCheck hexp, hnbf.mpr hearly, timeCheck_of_boundCheck hiat, hissuer, rfl,
      List.forall_mem_nil _⟩

theorem verified_iff_of_accepted (hjwks : tgpccPublicJwks ed secrets.ed25519 = .ok jwks)
    (h : Accepted py (loadPublicKey py ed) token jwks (sameDemands broker call) claims) :
    Verified py broker secrets none token call.bare claims ↔
      isCredential py claims = true ∧ NotExpired py call.now.claims claims ∧
        AlreadyIssued py call.now.claims claims ∧
        (isText (get (txt "bnd") claims) (txt "pop") = true ∨ truthy py (cnfJkt claims) = true →
          ProofSupplied py ed call token (cnfJkt claims)) := by
  have haccepts := h.checks
  simp only [capabilityChecks, List.forall_mem_cons] at haccepts
  obtain ⟨-, -, -, -, hissuer, -⟩ := haccepts
  have hexp : boundCheck py (txt "exp") (txt "expired") (fun exp now => now ≤ exp) call.now.claims claims =
      .ok none ↔ NotExpired py call.now.claims claims := by
    rw [boundCheck_none_iff]
    simp only [NotExpired, decide_eq_true_eq]
  have hiat : boundCheck py (txt "iat") (txt "not yet valid") (fun iat now => iat ≤ now + 5) call.now.claims claims =
      .ok none ↔ AlreadyIssued py call.now.claims claims := by
    rw [boundCheck_none_iff]
    simp only [AlreadyIssued, decide_eq_true_eq]
  rw [← hexp, ← hiat]
  constructor
  · intro hverified
    have hchecks := hverified.checks
    simp only [credentialChecks, List.forall_mem_cons] at hchecks
    obtain ⟨-, hexp, hiat, -, -, -, -, hpop, -⟩ := hchecks
    exact ⟨hverified.credential, hexp, hiat, popCheck_none_iff.mp hpop⟩
  · rintro ⟨hcredential, hexp, hiat, hpop⟩
    refine ⟨h.dot, h.reads, (signatureCheck_iff h.alg).mpr ((verifyEd25519ViaJwks_iff hjwks).mpr h.signed),
      hcredential, ?_⟩
    simp only [credentialChecks, List.forall_mem_cons]
    exact ⟨hissuer, hexp, hiat, rfl, rfl, rfl, rfl, popCheck_none_iff.mpr hpop, rfl, List.forall_mem_nil _⟩

theorem verify_ok_claims {token : Option Str} (h : (verify py ed broker secrets lookup token call).ok = true)
    (hclaims : (verify py ed broker secrets lookup token call).claims = some claims) :
    Verified py broker secrets lookup (token.getD []) call claims := by
  obtain ⟨claims', hverified, hverdict⟩ := verified_of_ok h
  rw [hverdict] at hclaims
  obtain rfl := Option.some.inj hclaims
  exact hverified

theorem verify_ok_iff {token : Option Str} : (verify py ed broker secrets lookup token call).ok = true ↔
    ∃ claims, Verified py broker secrets lookup (token.getD []) call claims := by
  constructor
  · intro h
    obtain ⟨claims, hverified, -⟩ := verified_of_ok h
    exact ⟨claims, hverified⟩
  · rintro ⟨claims, hverified⟩
    rw [verify_of_verified hverified]
    rfl

theorem redeem_check {token : Option Str} {check : CredentialCheck} {jti : Option Str}
    (h : redeem py ed broker secrets lookup token call = .ok (check, jti)) :
    check = verify py ed broker secrets lookup token
      { call with expectedIssuer := none, expectedSubject := none, checkSingleUse := true } := by
  unfold redeem at h
  dsimp only at h
  split at h
  · split at h
    · obtain ⟨jti', -, h⟩ := Pipeline.bind_ok h
      exact (congrArg Prod.fst (Except.ok.inj h)).symm
    · exact (congrArg Prod.fst (Except.ok.inj h)).symm
  · exact (congrArg Prod.fst (Except.ok.inj h)).symm

theorem minted_proof (h : prepare py ed broker secrets identity args = .ok (some credential))
    (hkey : args.cnfPublicKey ≠ none) {broker' : CredentialBroker} {secrets' : Secrets ed} {token : Str}
    (htoken : token = credential.token)
    (hok : (verify py ed broker' secrets' lookup (some token) call).ok = true) :
    ∃ jkt, credential.cnfJkt = some jkt ∧ ProofSupplied py ed call token (.str jkt) := by
  obtain ⟨jkt, hne, hjkt, hcnf⟩ := minted_cnf h hkey
  obtain ⟨claims, hverified, -⟩ := verified_of_ok hok
  have hreads := (prepare_ok h).1.reads
  rw [← htoken] at hreads
  have hclaims : claims = backClaims credential.claims :=
    JsonValue.obj.inj (Option.some.inj (Except.ok.inj (hverified.reads.symm.trans hreads)))
  have hchecks := hverified.checks
  simp only [credentialChecks, List.forall_mem_cons] at hchecks
  obtain ⟨-, -, -, -, -, -, -, hpop, -⟩ := hchecks
  rw [hclaims] at hpop
  have hproof := popCheck_none_iff.mp hpop
  rw [hcnf] at hproof
  have htruthy : truthy py (.str jkt) = true := by
    cases jkt with
    | nil => exact absurd rfl hne
    | cons c cs => rfl
  exact ⟨jkt, hjkt, hproof (.inr htruthy)⟩

end Verifiers

/-- At the broker a credential that was minted for a key needs a proof for that key and that
token; the verifier without a secret accepts what the broker accepts but where `nbf` lies
ahead, and what it accepts the broker accepts but for the version, the type, the times that
may be missing, and the proof. -/
theorem credential_proofs (broker broker' : CredentialBroker) (secrets secrets' : Secrets ed)
    (lookup : Option Lookup) (call : VerifyCall) :
    (∀ identity (args : MintArgs py ed) issue credential,
      mint py ed broker secrets identity args issue = .ok (some credential) → args.cnfPublicKey ≠ none →
      ∃ jkt, credential.cnfJkt = some jkt ∧
        ((verify py ed broker' secrets' lookup (some credential.token) call).ok = true →
          ProofSupplied py ed call credential.token (.str jkt)) ∧
        ∀ check jti, redeem py ed broker' secrets' lookup (some credential.token) call = .ok (check, jti) →
          check.ok = true → ProofSupplied py ed call credential.token (.str jkt)) ∧
    (∀ token claims jwks, tgpccPublicJwks ed secrets'.ed25519 = .ok jwks →
      (verify py ed broker' secrets' lookup token call).ok = true →
      (verify py ed broker' secrets' lookup token call).claims = some claims →
      isText (get (txt "alg") claims) claimAlgEd25519 = true →
      ((verifyWithJwks py ed token jwks (sameDemands broker' call)).ok = true ↔
        NotEarly py call.now.claims claims)) ∧
    (∀ token claims jwks, tgpccPublicJwks ed secrets'.ed25519 = .ok jwks →
      (verifyWithJwks py ed token jwks (sameDemands broker' call)).ok = true →
      (verifyWithJwks py ed token jwks (sameDemands broker' call)).claims = some claims →
      ((verify py ed broker' secrets' none token call.bare).ok = true ↔
        isCredential py claims = true ∧ NotExpired py call.now.claims claims ∧
          AlreadyIssued py call.now.claims claims ∧
          (isText (get (txt "bnd") claims) (txt "pop") = true ∨ truthy py (cnfJkt claims) = true →
            ProofSupplied py ed call (token.getD []) (cnfJkt claims)))) := by
  refine ⟨?_, ?_, ?_⟩
  · intro identity args issue credential hmint hkey
    obtain ⟨prepared, hprepared, htoken, hjkt, -⟩ := mint_prepared hmint
    obtain ⟨jkt, -, hjkt', -⟩ := minted_cnf hprepared hkey
    have hproof : ∀ call' : VerifyCall, (verify py ed broker' secrets' lookup (some credential.token) call').ok = true →
        ProofSupplied py ed call' credential.token (.str jkt) := by
      intro call' hok
      obtain ⟨jkt', hsame, hsupplied⟩ := minted_proof hprepared hkey htoken hok
      obtain rfl := Option.some.inj (hjkt'.symm.trans hsame)
      exact hsupplied
    refine ⟨jkt, hjkt.trans hjkt', hproof call, fun check jti hredeem hok => ?_⟩
    rw [redeem_check hredeem] at hok
    exact hproof { call with expectedIssuer := none, expectedSubject := none, checkSingleUse := true } hok
  · intro token claims jwks hjwks hok hclaims halg
    have hverified := verify_ok_claims hok hclaims
    rw [verifyWithJwks_ok_iff, ← accepted_iff_of_verified hjwks halg hverified]
    constructor
    · rintro ⟨claims', haccepted⟩
      obtain rfl : claims' = claims :=
        JsonValue.obj.inj (Option.some.inj (Except.ok.inj (haccepted.reads.symm.trans hverified.reads)))
      exact haccepted
    · exact fun haccepted => ⟨claims, haccepted⟩
  · intro token claims jwks hjwks hok hclaims
    obtain ⟨claims', haccepted⟩ := verifyWithJwks_ok_iff.mp hok
    obtain rfl : claims' = claims := by
      unfold verifyWithJwks at hclaims
      rw [checkCapability_of_accepted haccepted] at hclaims
      exact Option.some.inj hclaims
    rw [verify_ok_iff, ← verified_iff_of_accepted hjwks haccepted]
    constructor
    · rintro ⟨claims'', hverified⟩
      obtain rfl : claims'' = claims' :=
        JsonValue.obj.inj (Option.some.inj (Except.ok.inj (hverified.reads.symm.trans haccepted.reads)))
      exact hverified
    · exact fun hverified => ⟨claims', hverified⟩

def sampleBroker : CredentialBroker := ⟨txt "tex-authority", false⟩

def sampleSecrets : Secrets oneKey := ⟨none, some ()⟩

def sampleIdentity : AttestedIdentity := ⟨true, some (txt "agent"), none⟩

def sampleArgs : MintArgs plainInterpreter oneKey where
  audience := txt "mail"
  action := txt "send"
  scope := []
  ttl := 60
  cnfPublicKey := some (.key ())
  now := .at 0
  signAlg := .ed25519
  epoch := none
  intentCommit := none
  provCommit := none
  newNonce := txt "n"

def sampleCredentialClaims : Members :=
  credentialClaims sampleBroker sampleIdentity (txt "agent") sampleArgs (some (rawThumbprint (oneKey.rawBytes ()))) 0 60

def withoutProof : VerifyCall := ⟨none, none, ⟨.at 0, .at 0⟩, none, none, none, none, none, 120, false⟩

theorem sampleClaims_nodup : (sampleCredentialClaims.map Prod.fst).Nodup :=
  credentialClaims_nodup sampleBroker sampleIdentity (txt "agent") sampleArgs
    (some (rawThumbprint (oneKey.rawBytes ()))) 0 60

theorem sampleClaims_plain : ∀ p ∈ sampleCredentialClaims, Plain p.1 :=
  credentialClaims_plain sampleBroker sampleIdentity (txt "agent") sampleArgs
    (some (rawThumbprint (oneKey.rawBytes ()))) 0 60

theorem sampleClaims_short : shortInts (.obj sampleCredentialClaims) = true := by decide

theorem sampleClaims_tame : Tame (plainInterpreter.frames + 2) (.obj sampleCredentialClaims) :=
  credentialClaims_tame sampleBroker sampleIdentity (txt "agent") sampleArgs
    (some (rawThumbprint (oneKey.rawBytes ()))) 0 60 sampleClaims_short

theorem sampleClaims_get {name : Str} {v : JsonValue} (h : (name, v) ∈ sampleCredentialClaims) :
    get name sampleCredentialClaims = v := by
  unfold PyValue.get getOr
  rw [(get?_eq_some_iff sampleClaims_nodup).mpr h]
  rfl

theorem sample_prepared : ∃ credential,
    prepare plainInterpreter oneKey sampleBroker sampleSecrets (some sampleIdentity) sampleArgs =
        .ok (some credential) ∧
      credential.token = oneKeyToken sampleCredentialClaims ∧ credential.cnfJkt ≠ none := by
  have hbound : bindingOf plainInterpreter oneKey sampleBroker (some (.key ())) =
      .ok (some (some (rawThumbprint (oneKey.rawBytes ())))) := bindingOf_key _
  have hsubject : Enforcement.orDefault sampleIdentity.claimedAgentId [] = cp 'a' :: txt "gent" := rfl
  have hsigner : signerOf oneKey sampleSecrets sampleArgs.signAlg =
      some fun body => signCredEd25519 oneKey () body := rfl
  have hnow : sampleArgs.now.int = .ok 0 := rfl
  have hshort : shortInts (.obj (credentialClaims sampleBroker sampleIdentity (cp 'a' :: txt "gent") sampleArgs
      (some (rawThumbprint (oneKey.rawBytes ()))) 0 (0 + sampleArgs.ttl))) = true := by decide
  have hsig : ∀ body, isAscii body = true → signCredEd25519 oneKey () body =
      .ok (Enforcement.b64url (oneKey.sign () (utf8 (authorityEd25519Domain ++ cp '.' :: body)))) :=
    fun body hbody => @signCredEd25519_ascii oneKey () body hbody
  obtain ⟨credential, hprepared, hjkt, hclaims, htoken⟩ :=
    prepare_signed rfl hsubject hsigner hbound hnow hshort (by decide) hsig
  refine ⟨credential, hprepared, ?_, ?_⟩
  · rw [htoken, hclaims]
    rfl
  · rw [hjkt]
    nofun

theorem sample_accepted : Accepted plainInterpreter (loadPublicKey plainInterpreter oneKey)
    (oneKeyToken sampleCredentialClaims) oneKeyJwks ⟨none, none, .at 0, none⟩ (backClaims sampleCredentialClaims) := by
  have hget := Enforcement.get_backClaims sampleClaims_nodup sampleClaims_plain
  have halg : get (txt "alg") sampleCredentialClaims = .str claimAlgEd25519 :=
    sampleClaims_get (by simp [sampleCredentialClaims, credentialClaims, sampleArgs, optionalMember])
  have hexp : get (txt "exp") sampleCredentialClaims = .int 60 :=
    sampleClaims_get (by simp [sampleCredentialClaims, credentialClaims])
  have hiat : get (txt "iat") sampleCredentialClaims = .int 0 :=
    sampleClaims_get (by simp [sampleCredentialClaims, credentialClaims])
  have hkid : get (txt "kid") sampleCredentialClaims = .null := rfl
  have hnbf : get (txt "nbf") sampleCredentialClaims = .null := rfl
  refine accepted_oneKeyToken sampleClaims_nodup sampleClaims_plain sampleClaims_tame halg hkid ?_
  simp only [capabilityChecks, List.forall_mem_cons]
  refine ⟨rfl, ?_, ?_, ?_, rfl, rfl, List.forall_mem_nil _⟩
  · rw [timeCheck_none_iff, hget, hexp]
    exact .inr ⟨60, 0, rfl, rfl, rfl⟩
  · rw [timeCheck_none_iff, hget, hnbf]
    exact .inl rfl
  · rw [timeCheck_none_iff, hget, hiat]
    exact .inr ⟨0, 0, rfl, rfl, rfl⟩

/-- A credential for a key is accepted without any proof by the verifier without a secret,
while the broker refuses it. -/
theorem accepted_without_proof : ∃ credential,
    mint plainInterpreter oneKey sampleBroker sampleSecrets (some sampleIdentity) sampleArgs none =
        .ok (some credential) ∧ credential.cnfJkt ≠ none ∧ tgpccPublicJwks oneKey sampleSecrets.ed25519 = .ok oneKeyJwks ∧
      (verifyWithJwks plainInterpreter oneKey (some credential.token) oneKeyJwks ⟨none, none, .at 0, none⟩).ok = true ∧
      (verify plainInterpreter oneKey sampleBroker sampleSecrets none (some credential.token) withoutProof).ok = false := by
  obtain ⟨credential, hprepared, htoken, hjkt⟩ := sample_prepared
  have hmint : mint plainInterpreter oneKey sampleBroker sampleSecrets (some sampleIdentity) sampleArgs none =
      .ok (some credential) := by
    unfold mint
    rw [hprepared]
    rfl
  refine ⟨credential, hmint, hjkt, tgpccPublicJwks_oneKey, ?_, ?_⟩
  · rw [verifyWithJwks_ok_iff, htoken]
    exact ⟨_, sample_accepted⟩
  · by_contra hok
    obtain ⟨jkt, -, bind, -, hproof⟩ := minted_proof hprepared nofun rfl (Bool.not_eq_false _ ▸ hok)
    rw [verifyPopProof_nil rfl] at hproof
    cases hproof

end TexGovernance.Authority
