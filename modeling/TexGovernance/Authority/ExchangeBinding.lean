import TexGovernance.Authority.Exchange

/-!
# What a token exchange grants

The broker grants no more than was asked for and than its policy allows, and asks for a proof that
is bound to the exchange.
-/

namespace TexGovernance.Authority
open PyStr PyBytes PyCodec JsonLoads JsonText PyValue
open PyRepr (utf8 Plain)
open Engine (Uuid)
open Enforcement (b64url b64urlDecode b64urlDecode_b64url backClaims)

def Allowed {Assertion : Type} (broker : ExchangeBroker Assertion) (identity : AttestedIdentity)
    (requested : List Str) (scope : Str) : Prop :=
  match broker.scopePolicy with
  | some policy => ∃ allowed, policy identity requested = .ok allowed ∧ scope ∈ allowed
  | none => broker.allowUnrestrictedExchange = true

def NeedsProof {Assertion : Type} (broker : ExchangeBroker Assertion) (subject : SubjectVerification) : Prop :=
  broker.requireExchangePop = true ∧ ∃ m rest, subject.cnfJwk = some (m :: rest)

def ProofHolds (py : Interpreter) (ed : Ed25519) (subject : SubjectVerification) (call : ExchangeCall) : Prop :=
  ∃ jwk key jkt, subject.cnfJwk = some jwk ∧ loadPublicKey py ed (.obj jwk) = .ok key ∧
    thumbprint ed key = .ok jkt ∧
    (verifyPopProof py ed call.exchangePopProof (exchangeContext jkt call)).ok = true

def Attests {Assertion : Type} (broker : ExchangeBroker Assertion) (assertion : Assertion) (call : ExchangeCall)
    (subject : SubjectVerification) : Prop :=
  ∃ source, broker.identitySource = some source ∧ source assertion call.now.source call.audience = .ok subject

structure Granted (py : Interpreter) (ed : Ed25519) {Assertion : Type} (broker : ExchangeBroker Assertion)
    (assertion : Assertion) (call : ExchangeCall) (credential : MintedCredential)
    (subject : SubjectVerification) : Prop where
  attested : Attests broker assertion call subject
  verified : subject.verified = true
  requested : ∀ scope ∈ credential.scope, scope ∈ call.requestedScope.set
  allowed : ∀ scope ∈ credential.scope,
    Allowed broker subject.asAttestedIdentity call.requestedScope.set scope
  proof : NeedsProof broker subject → ProofHolds py ed subject call

def ProofAccepted (py : Interpreter) (ed : Ed25519) (proof : Option Str) (audience action : Str) : Prop :=
  ∃ (Assertion : Type) (broker : ExchangeBroker Assertion) (secrets : Secrets ed) (assertion : Assertion)
    (call : ExchangeCall) (issue : Option (MintedCredential → Except Raised (Option Uuid)))
    (result : ExchangeResult) (credential : MintedCredential) (subject : SubjectVerification),
    call.exchangePopProof = proof ∧ call.audience = audience ∧ call.action = action ∧
      Attests broker assertion call subject ∧ NeedsProof broker subject ∧
      exchange py ed broker secrets assertion call issue = .ok result ∧ result.credential = some credential

structure NeverEscalates (py : Interpreter) (ed : Ed25519) (audience action : Str) : Prop where
  granted : ∀ (Assertion : Type) (broker : ExchangeBroker Assertion) (secrets : Secrets ed)
    (assertion : Assertion) (call : ExchangeCall)
    (issue : Option (MintedCredential → Except Raised (Option Uuid))) (result : ExchangeResult)
    (credential : MintedCredential), call.audience = audience → call.action = action →
    exchange py ed broker secrets assertion call issue = .ok result → result.credential = some credential →
    ∃ subject, Granted py ed broker assertion call credential subject
  bound : ∀ proof audience' action', ProofAccepted py ed proof audience action →
    ProofAccepted py ed proof audience' action' → audience' = audience ∧ action' = action

variable {py : Interpreter} {ed : Ed25519} {Assertion : Type} {broker : ExchangeBroker Assertion}
  {secrets : Secrets ed} {assertion : Assertion} {call : ExchangeCall}
  {issue : Option (MintedCredential → Except Raised (Option Uuid))} {result : ExchangeResult}
  {credential : MintedCredential} {subject : SubjectVerification}

theorem grantedScope_ok {identity : AttestedIdentity} {requested granted : List Str}
    (h : grantedScope broker identity requested = .ok (some granted)) :
    ∀ scope ∈ granted, scope ∈ requested ∧ Allowed broker identity requested scope := by
  unfold grantedScope at h
  split at h
  · next policy hpolicy =>
    obtain ⟨allowed, hallowed, h⟩ := Pipeline.bind_ok h
    obtain rfl := Option.some.inj (Except.ok.inj h)
    intro scope hscope
    obtain ⟨hrequested, hmem⟩ := List.mem_filter.mp hscope
    refine ⟨hrequested, ?_⟩
    unfold Allowed
    rw [hpolicy]
    exact ⟨allowed, hallowed, of_decide_eq_true hmem⟩
  · next hpolicy =>
    have h := Except.ok.inj h
    split at h
    · next hunrestricted =>
      obtain rfl := Option.some.inj h
      refine fun scope hscope => ⟨hscope, ?_⟩
      unfold Allowed
      rw [hpolicy]
      exact hunrestricted
    · cases h

theorem resolveExchangeCnf_ok {key : Option ed.PublicKey}
    (h : resolveExchangeCnf py ed broker subject call = .ok (.ok key)) (hneeds : NeedsProof broker subject) :
    ProofHolds py ed subject call := by
  obtain ⟨hrequire, m, rest, hjwk⟩ := hneeds
  unfold resolveExchangeCnf at h
  rw [hjwk] at h
  dsimp only at h
  split at h
  · cases h
  · next key hkey =>
    rw [if_pos hrequire] at h
    split at h
    · cases h
    · obtain ⟨jkt, hjkt, h⟩ := Pipeline.bind_ok h
      have h := Except.ok.inj h
      split at h
      · next hproof => exact ⟨m :: rest, key, jkt, hjwk, hkey, hjkt, hproof⟩
      · cases h

theorem mint_scope {broker : CredentialBroker} {identity : Option AttestedIdentity} {args : MintArgs py ed}
    (h : mint py ed broker secrets identity args issue = .ok (some credential)) :
    credential.scope = scopeTuple args.scope := by
  obtain ⟨prepared?, hprepared, h⟩ := Pipeline.bind_ok h
  split at h
  · cases h
  · next prepared =>
    have hscope : prepared.scope = scopeTuple args.scope := by
      unfold prepare at hprepared
      split at hprepared
      · cases hprepared
      · split at hprepared
        · obtain ⟨bound, -, hprepared⟩ := Pipeline.bind_ok hprepared
          split at hprepared
          · cases hprepared
          · obtain ⟨issued, -, hprepared⟩ := Pipeline.bind_ok hprepared
            obtain ⟨body, -, hprepared⟩ := Pipeline.bind_ok hprepared
            obtain ⟨sig, -, hprepared⟩ := Pipeline.bind_ok hprepared
            obtain ⟨expiry, -, hprepared⟩ := Pipeline.bind_ok hprepared
            obtain rfl := Option.some.inj (Except.ok.inj hprepared)
            rfl
        · cases hprepared
    split at h
    · obtain rfl := Option.some.inj (Except.ok.inj h)
      exact hscope
    · split at h
      · cases h
      · obtain rfl := Option.some.inj (Except.ok.inj h)
        exact hscope

theorem mem_scopeTuple {scope : Str} {scopes : List Str} : scope ∈ scopeTuple scopes ↔ scope ∈ scopes := by
  unfold scopeTuple PyJson.sortedNames
  rw [(List.perm_insertionSort _ _).mem_iff, List.mem_dedup]

theorem exchange_granted (h : exchange py ed broker secrets assertion call issue = .ok result)
    (hresult : result.credential = some credential) :
    ∃ subject, Granted py ed broker assertion call credential subject := by
  unfold exchange at h
  split at h
  · obtain rfl := Except.ok.inj h
    cases hresult
  · next source hsource =>
    obtain ⟨subject, hsubject, h⟩ := Pipeline.bind_ok h
    split at h
    · next hverified =>
      obtain ⟨granted?, hgranted, h⟩ := Pipeline.bind_ok h
      split at h
      · obtain rfl := Except.ok.inj h
        cases hresult
      · next granted =>
        obtain ⟨key?, hkey, h⟩ := Pipeline.bind_ok h
        split at h
        · obtain rfl := Except.ok.inj h
          cases hresult
        · next key =>
          obtain ⟨minted?, hminted, h⟩ := Pipeline.bind_ok h
          split at h
          · obtain rfl := Except.ok.inj h
            cases hresult
          · next minted =>
            obtain ⟨seconds, -, h⟩ := Pipeline.bind_ok h
            obtain rfl := Except.ok.inj h
            obtain rfl := Option.some.inj hresult
            have hscope : ∀ scope ∈ minted.scope, scope ∈ granted := by
              intro scope hmem
              rw [mint_scope hminted] at hmem
              exact mem_scopeTuple.mp hmem
            exact ⟨subject, ⟨source, hsource, hsubject⟩, hverified,
              fun scope hmem => (grantedScope_ok hgranted scope (hscope scope hmem)).1,
              fun scope hmem => (grantedScope_ok hgranted scope (hscope scope hmem)).2,
              resolveExchangeCnf_ok hkey⟩
    · obtain rfl := Except.ok.inj h
      cases hresult

theorem exchangeBinding_inj {jkt jkt' audience action audience' action' : Str} (hlength : jkt.length = jkt'.length)
    (h : exchangeBinding jkt audience action = exchangeBinding jkt' audience' action') :
    audience ++ cp ':' :: action = audience' ++ cp ':' :: action' := by
  have hparts := (List.append_inj (List.append_cancel_left h) hlength).2
  exact List.cons_injective hparts

theorem pair_unique {audience action audience' action' : Str} (haudience : cp ':' ∉ audience)
    (haction : cp ':' ∉ action) (h : audience ++ cp ':' :: action = audience' ++ cp ':' :: action') :
    audience' = audience ∧ action' = action := by
  have haudience' : cp ':' ∉ audience' := by
    have hcount := congrArg (List.count (cp ':')) h
    simp only [List.count_append, List.count_cons_self, List.count_eq_zero.mpr haudience,
      List.count_eq_zero.mpr haction] at hcount
    exact List.count_eq_zero.mp (by omega)
  have hleft := partition_append haudience action
  have hright := partition_append haudience' action'
  rw [h, hright] at hleft
  obtain ⟨rfl, rfl⟩ := Prod.mk.inj hleft
  exact ⟨rfl, rfl⟩

theorem exists_other_pair {audience action : Str} (h : cp ':' ∈ audience ∨ cp ':' ∈ action) :
    ∃ audience' action', audience' ≠ audience ∧
      audience' ++ cp ':' :: action' = audience ++ cp ':' :: action := by
  rcases h with h | h
  · obtain ⟨front, back, rfl⟩ := List.append_of_mem h
    refine ⟨front, back ++ cp ':' :: action, fun heq => ?_, ?_⟩
    · have hlength := congrArg List.length heq
      simp at hlength
    · simp
  · obtain ⟨front, back, rfl⟩ := List.append_of_mem h
    refine ⟨audience ++ cp ':' :: front, back, fun heq => ?_, ?_⟩
    · have hlength := congrArg List.length heq
      simp at hlength
    · simp

theorem proofHolds_unique {subject' : SubjectVerification} {call' : ExchangeCall}
    (hproof : call'.exchangePopProof = call.exchangePopProof) (h : ProofHolds py ed subject call)
    (h' : ProofHolds py ed subject' call') :
    call.audience ++ cp ':' :: call.action = call'.audience ++ cp ':' :: call'.action := by
  obtain ⟨jwk, key, jkt, -, -, hjkt, hok⟩ := h
  obtain ⟨jwk', key', jkt', -, -, hjkt', hok'⟩ := h'
  obtain ⟨r, hr, hok⟩ := verifyPopProof_ok hok
  obtain ⟨r', hr', hok'⟩ := verifyPopProof_ok hok'
  obtain ⟨body, pub, shown, raw, hraw, hload, -, -, -, hbind, -⟩ := checkProof_ok hr hok
  obtain ⟨body', pub', shown', raw', hraw', hload', -, -, -, hbind', -⟩ := checkProof_ok hr' hok'
  rw [hproof] at hraw'
  obtain rfl := Except.ok.inj (hraw.symm.trans hraw')
  obtain rfl := JsonValue.obj.inj (Except.ok.inj (hload.symm.trans hload'))
  rw [thumbprint_eq] at hjkt hjkt'
  refine exchangeBinding_inj ?_ (Except.ok.inj (hbind.symm.trans hbind'))
  rw [← Except.ok.inj hjkt, ← Except.ok.inj hjkt', length_rawThumbprint, length_rawThumbprint]

theorem isAscii_exchangeBinding {jkt audience action : Str} :
    isAscii (exchangeBinding jkt audience action) = true ↔
      isAscii jkt = true ∧ isAscii audience = true ∧ isAscii action = true := by
  have hfront : isAscii (txt "tex-pop-exchange:") = true := by decide
  have hcolon : ∀ s : Str, isAscii (cp ':' :: s) = isAscii s := fun s => rfl
  rw [exchangeBinding, isAscii_append, isAscii_append, hcolon, isAscii_append, hcolon]
  simp [hfront]

structure WorkingKey (ed : Ed25519) (key : ed.PrivateKey) : Prop where
  reads : ed.fromPublicBytes (ed.rawBytes (ed.publicKey key)) = some (ed.publicKey key)
  verifies : ∀ message, ed.verifies (ed.publicKey key) (ed.sign key message) message = true

def proofBody (ed : Ed25519) (key : ed.PrivateKey) (bind : Str) : Members :=
  [(txt "jwk", .obj (publicJwk (ed.rawBytes (ed.publicKey key)))), (txt "bind", .str bind), (txt "iat", .int 0)]

def writtenProof (ed : Ed25519) (key : ed.PrivateKey) (bind : Str) : Str :=
  let bytes := utf8 (JsonText.dumps asciiOnly (.obj (proofBody ed key bind)))
  b64url bytes ++ cp '.' :: b64url (ed.sign key bytes)

theorem tame_publicJwk (raw : Bytes) (depth : ℕ) : Tame (depth + 1) (.obj (publicJwk raw)) := by
  refine .obj ?_
  simp only [publicJwk, List.forall_mem_cons, Tame.str, true_and]
  exact List.forall_mem_nil _

structure PublicMembers (raw : Bytes) (jwk : Members) : Prop where
  kty : get (txt "kty") jwk = .str (txt "OKP")
  crv : get (txt "crv") jwk = .str (txt "Ed25519")
  x : get? (txt "x") jwk = some (.str (b64url raw))

theorem publicMembers_publicJwk (raw : Bytes) : PublicMembers raw (publicJwk raw) := ⟨rfl, rfl, rfl⟩

theorem publicMembers_back (raw : Bytes) : PublicMembers raw (backClaims (publicJwk raw)) := by
  have hnodup : ((publicJwk raw).map Prod.fst).Nodup := by
    show [txt "crv", txt "kty", txt "x"].Nodup
    decide
  have hplain : ∀ m ∈ publicJwk raw, Plain m.1 := by
    simp only [publicJwk, List.forall_mem_cons, PyRepr.plain_txt, true_and]
    exact List.forall_mem_nil _
  have hget := Enforcement.get_backClaims hnodup hplain
  have htext : ∀ s, Plain s → mapTexts asciiOnly.back (sortKeys (.str s)) = .str s := fun s hs =>
    congrArg JsonValue.str (back_of_plain hs)
  refine ⟨?_, ?_, ?_⟩
  · rw [hget]
    exact htext _ (PyRepr.plain_txt _)
  · rw [hget]
    exact htext _ (PyRepr.plain_txt _)
  · unfold backClaims
    rw [get?_back hnodup hplain]
    exact congrArg some (htext _ (plain_of_visible (Enforcement.visible_b64url raw)))

theorem loadPublicKey_publicMembers {raw : Bytes} {jwk : Members} (h : PublicMembers raw jwk) {key : ed.PublicKey}
    (hkey : ed.fromPublicBytes raw = some key) : loadPublicKey py ed (.obj jwk) = .ok key := by
  have hx : item (txt "x") jwk = .ok (.str (b64url raw)) := by
    unfold item
    rw [h.x]
  unfold loadPublicKey
  simp only [h.kty, h.crv, isText_iff.mpr, and_self, if_true, hx, bind, Except.bind, str, b64urlDecode_b64url, hkey]

section Written

variable (key : ed.PrivateKey) (bound : Str)

theorem nodup_proofBody : ((proofBody ed key bound).map Prod.fst).Nodup := by
  show [txt "jwk", txt "bind", txt "iat"].Nodup
  decide

theorem plain_proofBody : ∀ m ∈ proofBody ed key bound, Plain m.1 := by
  simp only [proofBody, List.forall_mem_cons, PyRepr.plain_txt, true_and]
  exact List.forall_mem_nil _

theorem tame_proofBody (depth : ℕ) : Tame (depth + 2) (.obj (proofBody ed key bound)) := by
  refine .obj ?_
  simp only [proofBody, List.forall_mem_cons]
  exact ⟨tame_publicJwk _ depth, .str bound, tame_of_shortInts (by decide), List.forall_mem_nil _⟩

theorem get_proofBody (name : Str) : get name (backClaims (proofBody ed key bound)) =
    mapTexts asciiOnly.back (sortKeys (get name (proofBody ed key bound))) :=
  Enforcement.get_backClaims (nodup_proofBody key bound) (plain_proofBody key bound) name

theorem checkFresh_proofBody (py : Interpreter) {context : ProofContext} (hnow : context.now = .at 0)
    (hage : 0 ≤ context.maxAge)
    (hskew : 0 ≤ context.maxSkew) (hchallenge : context.challenge = none) :
    ∃ r, checkFresh py context (backClaims (proofBody ed key bound)) = .ok r ∧ r.ok = true := by
  have hiat : get (txt "iat") (backClaims (proofBody ed key bound)) = .int 0 := get_proofBody key bound _
  have hjti : get (txt "jti") (backClaims (proofBody ed key bound)) = .null := get_proofBody key bound _
  have hseconds : context.now.int = .ok 0 := by
    rw [hnow]
    rfl
  unfold checkFresh
  simp only [hiat, hjti, hseconds, hchallenge, tryInt, int, bind, Except.bind, Enforcement.agrees, truthy]
  rw [if_neg (by omega), if_neg (by omega)]
  exact ⟨_, rfl, rfl⟩

variable {key bound}

theorem writtenProof_accepted (hkey : WorkingKey ed key) (hascii : isAscii bound = true) (hne : bound ≠ [])
    {context : ProofContext} (hcnf : context.cnfJkt = .str (rawThumbprint (ed.rawBytes (ed.publicKey key))))
    (hbound : context.bind = bound) (hnow : context.now = .at 0) (hage : 0 ≤ context.maxAge)
    (hskew : 0 ≤ context.maxSkew) (hchallenge : context.challenge = none) :
    (verifyPopProof py ed (some (writtenProof ed key bound)) context).ok = true := by
  have hload : loads py (utf8 (JsonText.dumps asciiOnly (.obj (proofBody ed key bound)))) =
      .ok (.obj (backClaims (proofBody ed key bound))) :=
    loads_visible py (tame_sortKeys (tame_proofBody key bound py.frames))
  have hparts : partition (cp '.') (writtenProof ed key bound) =
      (b64url (utf8 (JsonText.dumps asciiOnly (.obj (proofBody ed key bound)))),
        b64url (ed.sign key (utf8 (JsonText.dumps asciiOnly (.obj (proofBody ed key bound)))))) :=
    partition_append (Enforcement.dot_not_mem_b64url _) _
  have hdot : cp '.' ∈ writtenProof ed key bound := by simp [writtenProof]
  have hjwk : get (txt "jwk") (backClaims (proofBody ed key bound)) =
      .obj (backClaims (publicJwk (ed.rawBytes (ed.publicKey key)))) := get_proofBody key bound _
  have hpub : (popHelpers py ed).load (.obj (backClaims (publicJwk (ed.rawBytes (ed.publicKey key))))) =
      .ok (ed.publicKey key) := loadPublicKey_publicMembers (publicMembers_back _) hkey.reads
  have hsig : signatureHolds ed (ed.publicKey key)
      (b64url (ed.sign key (utf8 (JsonText.dumps asciiOnly (.obj (proofBody ed key bound))))))
      (utf8 (JsonText.dumps asciiOnly (.obj (proofBody ed key bound)))) = true := by
    unfold signatureHolds
    rw [b64urlDecode_b64url]
    exact hkey.verifies _
  have hthumb : (popHelpers py ed).thumbprint (ed.publicKey key) =
      .ok (rawThumbprint (ed.rawBytes (ed.publicKey key))) := thumbprint_eq ed _
  have hbind : get (txt "bind") (backClaims (proofBody ed key bound)) = .str bound := by
    rw [get_proofBody]
    exact congrArg JsonValue.str (back_of_plain (plain_of_isAscii hascii))
  have htruthy : ∀ s : Str, s ≠ [] → str py (orEmpty py (.str s)) = .ok s := by
    intro s hs
    unfold orEmpty
    rw [if_pos (by cases s with
      | nil => exact absurd rfl hs
      | cons c cs => rfl)]
    rfl
  have hjkt : rawThumbprint (ed.rawBytes (ed.publicKey key)) ≠ [] := by
    intro hnil
    have hlength := length_rawThumbprint (ed.rawBytes (ed.publicKey key))
    rw [hnil] at hlength
    cases hlength
  have hjktAscii : isAscii (rawThumbprint (ed.rawBytes (ed.publicKey key))) = true := Enforcement.isAscii_b64url _
  obtain ⟨r, hr, hok⟩ := checkFresh_proofBody key bound py hnow hage hskew hchallenge
  have hcheck : checkProof py ed (popHelpers py ed) context (some (writtenProof ed key bound)) = .ok r := by
    unfold checkProof
    simp only [Option.getD_some, hdot, not_true, if_false, hparts, b64urlDecode_b64url, bind, Except.bind, hload,
      hjwk, hpub, hsig, if_true, checkBody, hthumb, hcnf, htruthy _ hjkt, compareDigest_ascii hjktAscii hjktAscii,
      decide_true, hbind, htruthy _ hne, hbound, compareDigest_ascii hascii hascii, hr]
  unfold verifyPopProof
  rw [hcheck]
  exact hok

end Written

def keySubject (ed : Ed25519) (key : ed.PrivateKey) : SubjectVerification :=
  ⟨true, [], some (txt "agent"), none, some (publicJwk (ed.rawBytes (ed.publicKey key)))⟩

def keyBroker (ed : Ed25519) (key : ed.PrivateKey) : ExchangeBroker Unit where
  issuer := txt "tex-authority"
  allowBearer := false
  identitySource := some fun _ _ _ => .ok (keySubject ed key)
  requireExchangePop := true
  scopePolicy := none
  allowUnrestrictedExchange := true

def keySecrets (ed : Ed25519) : Secrets ed := ⟨some (txt "k"), none⟩

def keyCall (audience action proof : Str) : ExchangeCall :=
  ⟨.many [], audience, action, 60, ⟨.at 0, .at 0, .at 0⟩, some proof, txt "n"⟩

theorem expiresIn_credentialClaims (broker : CredentialBroker) (identity : AttestedIdentity) (subject : Str)
    (args : MintArgs py ed) (jkt : Option Str) (issued exp : ℤ) :
    expiresIn (credentialClaims broker identity subject args jkt issued exp) = .ok (exp - issued) := by
  have hitem : ∀ name v, (name, v) ∈ credentialClaims broker identity subject args jkt issued exp →
      item name (credentialClaims broker identity subject args jkt issued exp) = .ok v := by
    intro name v hmem
    unfold item
    rw [(get?_eq_some_iff (credentialClaims_nodup _ _ _ _ _ _ _)).mpr hmem]
  unfold expiresIn
  rw [hitem (txt "exp") (.int exp) (by simp [credentialClaims]),
    hitem (txt "iat") (.int issued) (by simp [credentialClaims])]
  rfl

theorem resolveExchangeCnf_of_proof {m : Str × JsonValue} {rest : Members} (hjwk : subject.cnfJwk = some (m :: rest))
    {key : ed.PublicKey} (hload : loadPublicKey py ed (.obj (m :: rest)) = .ok key)
    (hne : call.exchangePopProof.getD [] ≠ [])
    (hproof : (verifyPopProof py ed call.exchangePopProof
      (exchangeContext (rawThumbprint (ed.rawBytes key)) call)).ok = true) :
    resolveExchangeCnf py ed broker subject call = .ok (.ok (some key)) := by
  unfold resolveExchangeCnf
  simp only [hjwk, hload, if_neg hne, thumbprint_eq, bind, Except.bind, hproof, if_true]
  split
  · rfl
  · rfl

theorem mint_keyCall (py : Interpreter) (key : ed.PrivateKey) (audience action proof : Str) : ∃ credential seconds,
    mint py ed (keyBroker ed key).toCredentialBroker (keySecrets ed) (some (keySubject ed key).asAttestedIdentity)
        (mintArgs (keyCall audience action proof) [] (some (ed.publicKey key))) none = .ok (some credential) ∧
      expiresIn credential.claims = .ok seconds := by
  let args : MintArgs py ed := mintArgs (keyCall audience action proof) [] (some (ed.publicKey key))
  have hsubject : Enforcement.orDefault (keySubject ed key).asAttestedIdentity.claimedAgentId [] =
      cp 'a' :: txt "gent" := rfl
  have hsigner : signerOf ed (keySecrets ed) args.signAlg = some fun body => signCred (txt "k") body := rfl
  have hbound : bindingOf py ed (keyBroker ed key).toCredentialBroker args.cnfPublicKey =
      .ok (some (some (rawThumbprint (ed.rawBytes (ed.publicKey key))))) := bindingOf_key _
  have hnow : args.now.int = .ok 0 := rfl
  have hshort : shortInts (.obj (credentialClaims (keyBroker ed key).toCredentialBroker
      (keySubject ed key).asAttestedIdentity (cp 'a' :: txt "gent") args
      (some (rawThumbprint (ed.rawBytes (ed.publicKey key)))) 0 (0 + 60))) = true := by
    have hversion : shortInts (.int credVersion) = true := by decide
    have hiat : shortInts (.int 0) = true := by decide
    have hexp : shortInts (.int (0 + 60)) = true := by decide
    have hscope : shortItems ((scopeTuple args.scope).map .str) = true := rfl
    unfold credentialClaims
    simp only [List.cons_append, List.nil_append, shortInts, shortMembers, hscope, Bool.true_and]
      at hversion hiat hexp ⊢
    rw [hversion, hiat, hexp]
    rfl
  obtain ⟨credential, hprepared, -, hclaims, -⟩ := prepare_signed rfl hsubject hsigner hbound hnow hshort
    (show -62135596800 ≤ (0 + 60 : ℤ) ∧ (0 + 60 : ℤ) ≤ 253402300799 by decide)
    fun body hbody => signCred_ascii (PyRepr.plain_txt _) hbody
  refine ⟨credential, 0 + args.ttl - 0, ?_, ?_⟩
  · unfold mint
    rw [hprepared]
    rfl
  · rw [hclaims]
    exact expiresIn_credentialClaims _ _ _ _ _ _ _

theorem proofAccepted_written (py : Interpreter) {key : ed.PrivateKey} (hkey : WorkingKey ed key) {audience action : Str}
    (haudience : isAscii audience = true) (haction : isAscii action = true) :
    ProofAccepted py ed (some (writtenProof ed key
      (exchangeBinding (rawThumbprint (ed.rawBytes (ed.publicKey key))) audience action))) audience action := by
  set proof := writtenProof ed key
    (exchangeBinding (rawThumbprint (ed.rawBytes (ed.publicKey key))) audience action) with hproof
  have hne : proof ≠ [] := by
    rw [hproof]
    unfold writtenProof
    simp
  have haccepted : (verifyPopProof py ed (some proof)
      (exchangeContext (rawThumbprint (ed.rawBytes (ed.publicKey key))) (keyCall audience action proof))).ok = true :=
    writtenProof_accepted hkey
      (isAscii_exchangeBinding.mpr ⟨Enforcement.isAscii_b64url _, haudience, haction⟩)
      (List.append_ne_nil_of_left_ne_nil (by decide) _) rfl rfl rfl (show (0 : ℤ) ≤ 120 by decide)
      (show (0 : ℤ) ≤ 5 by decide) rfl
  have hresolve : resolveExchangeCnf py ed (keyBroker ed key) (keySubject ed key) (keyCall audience action proof) =
      .ok (.ok (some (ed.publicKey key))) :=
    resolveExchangeCnf_of_proof rfl (loadPublicKey_publicMembers (publicMembers_publicJwk _) hkey.reads) hne haccepted
  obtain ⟨credential, seconds, hmint, hseconds⟩ := mint_keyCall py key audience action proof
  have hexchange : exchange py ed (keyBroker ed key) (keySecrets ed) () (keyCall audience action proof) none =
      .ok ⟨true, txt "ok", some credential, some credential.tokenType, some seconds, credential.scope,
        some accessTokenType⟩ := by
    show (resolveExchangeCnf py ed (keyBroker ed key) (keySubject ed key) (keyCall audience action proof) >>= _) = _
    rw [hresolve]
    show (mint py ed (keyBroker ed key).toCredentialBroker (keySecrets ed)
      (some (keySubject ed key).asAttestedIdentity)
      (mintArgs (keyCall audience action proof) [] (some (ed.publicKey key))) none >>= _) = _
    rw [hmint]
    show (expiresIn credential.claims >>= _) = _
    rw [hseconds]
    rfl
  exact ⟨Unit, keyBroker ed key, keySecrets ed, (), keyCall audience action proof, none, _, credential,
    keySubject ed key, rfl, rfl, rfl, ⟨_, rfl, rfl⟩, ⟨rfl, _, _, rfl⟩, hexchange, rfl⟩

theorem proofHolds_of_proofAccepted {proof : Option Str} {audience action : Str}
    (h : ProofAccepted py ed proof audience action) : ∃ subject call, ProofHolds py ed subject call ∧
      call.exchangePopProof = proof ∧ call.audience = audience ∧ call.action = action := by
  obtain ⟨Assertion, broker, secrets, assertion, call, issue, result, credential, subject, hproof, haudience, haction,
    ⟨source, hsource, hsubject⟩, hneeds, hexchange, hcredential⟩ := h
  obtain ⟨subject', hgranted⟩ := exchange_granted hexchange hcredential
  obtain ⟨source', hsource', hsubject'⟩ := hgranted.attested
  obtain rfl := Option.some.inj (hsource.symm.trans hsource')
  obtain rfl := Except.ok.inj (hsubject.symm.trans hsubject')
  exact ⟨subject, call, hgranted.proof hneeds, hproof, haudience, haction⟩

theorem isAscii_of_proofAccepted {proof : Option Str} {audience action : Str}
    (h : ProofAccepted py ed proof audience action) : isAscii audience = true ∧ isAscii action = true := by
  obtain ⟨subject, call, ⟨jwk, key, jkt, -, -, -, hok⟩, -, rfl, rfl⟩ := proofHolds_of_proofAccepted h
  obtain ⟨r, hr, hok⟩ := verifyPopProof_ok hok
  obtain ⟨body, pub, shown, raw, -, -, -, -, -, -, hascii⟩ := checkProof_ok hr hok
  exact (isAscii_exchangeBinding.mp hascii).2

/-- Exchanges for an audience and an action never escalate if and only if neither has a
colon, but for texts outside ASCII, for which no proof is accepted. -/
theorem exchange_never_escalates_iff (py : Interpreter) (ed : Ed25519) (key : ed.PrivateKey)
    (hkey : WorkingKey ed key) (audience action : Str) :
    NeverEscalates py ed audience action ↔
      (isAscii audience = true → isAscii action = true → cp ':' ∉ audience ∧ cp ':' ∉ action) := by
  constructor
  · intro h haudience haction
    rw [← not_or]
    intro hcolon
    obtain ⟨audience', action', hne, hsame⟩ := exists_other_pair hcolon
    have hascii : isAscii (audience' ++ cp ':' :: action') = true := by
      rw [hsame]
      exact isAscii_append.mpr ⟨haudience, haction⟩
    obtain ⟨haudience', hrest⟩ := isAscii_append.mp hascii
    have haction' : isAscii action' = true := hrest
    have hother := proofAccepted_written py hkey haudience' haction'
    unfold exchangeBinding at hother
    rw [hsame] at hother
    exact hne (h.bound _ _ _ (proofAccepted_written py hkey haudience haction) hother).1
  · intro h
    refine ⟨fun Assertion broker secrets assertion call issue result credential _ _ hexchange hcredential =>
      exchange_granted hexchange hcredential, fun proof audience' action' haccepted haccepted' => ?_⟩
    obtain ⟨haudience, haction⟩ := isAscii_of_proofAccepted haccepted
    obtain ⟨haudienceColon, hactionColon⟩ := h haudience haction
    obtain ⟨subject, call, hholds, hproof, rfl, rfl⟩ := proofHolds_of_proofAccepted haccepted
    obtain ⟨subject', call', hholds', hproof', rfl, rfl⟩ := proofHolds_of_proofAccepted haccepted'
    exact pair_unique haudienceColon hactionColon
      (proofHolds_unique (hproof'.trans hproof.symm) hholds hholds')

theorem workingKey_oneKey : WorkingKey oneKey () := ⟨rfl, fun _ => decide_eq_true rfl⟩

theorem exchange_never_escalates_sample : NeverEscalates plainInterpreter oneKey (txt "mail") (txt "send") :=
  (exchange_never_escalates_iff plainInterpreter oneKey () workingKey_oneKey (txt "mail") (txt "send")).mpr
    fun _ _ => ⟨by decide, by decide⟩

/-- A proof for the audience `a` and the action `b:c` is accepted for `a:b` and `c`. -/
theorem proof_accepted_twice :
    (∃ proof, ProofAccepted plainInterpreter oneKey proof (txt "a") (txt "b:c") ∧
      ProofAccepted plainInterpreter oneKey proof (txt "a:b") (txt "c")) ∧
    ¬NeverEscalates plainInterpreter oneKey (txt "a") (txt "b:c") := by
  have ha : isAscii (txt "a") = true ∧ isAscii (txt "b:c") = true := by decide
  have hb : isAscii (txt "a:b") = true ∧ isAscii (txt "c") = true := by decide
  have hfirst := proofAccepted_written plainInterpreter workingKey_oneKey ha.1 ha.2
  have hsecond := proofAccepted_written plainInterpreter workingKey_oneKey hb.1 hb.2
  have hsame : ∀ jkt, exchangeBinding jkt (txt "a:b") (txt "c") = exchangeBinding jkt (txt "a") (txt "b:c") :=
    fun _ => rfl
  rw [hsame] at hsecond
  refine ⟨⟨_, hfirst, hsecond⟩, fun h => ?_⟩
  have heq : txt "a:b" = txt "a" := (h.bound _ _ _ hfirst hsecond).1
  exact absurd heq (by decide)

end TexGovernance.Authority
