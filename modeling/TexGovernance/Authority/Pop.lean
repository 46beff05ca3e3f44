import TexGovernance.Enforcement.Permit

/-!
# Proofs of possession (`authority/pop.py`)

A proof is a text `body.sig` that its holder signed: the public key, what the proof is bound
to, when it was made. The check of it is shared with the resource side, which has helpers of
its own.
-/

namespace TexGovernance.Authority
open PyStr PyBytes PyCodec JsonLoads JsonText PyValue Sha256
open PyRepr (utf8 Plain)
open Enforcement (b64url b64urlDecode)

/-- The Ed25519 keys of the `cryptography` package. -/
structure Ed25519 where
  PublicKey : Type
  PrivateKey : Type
  fromPublicBytes : Bytes → Option PublicKey
  rawBytes : PublicKey → Bytes
  publicKey : PrivateKey → PublicKey
  sign : PrivateKey → Bytes → Bytes
  verifies : PublicKey → Bytes → Bytes → Bool

/-- One pair of keys. -/
def oneKey : Ed25519 where
  PublicKey := Unit
  PrivateKey := Unit
  fromPublicBytes bytes := if bytes.length = 32 then some () else none
  rawBytes _ := List.replicate 32 0
  publicKey _ := ()
  sign _ message := (sha256 message).bytes ++ (sha256 message).bytes
  verifies _ sig message := sig = (sha256 message).bytes ++ (sha256 message).bytes

variable (py : Interpreter) (ed : Ed25519)

/-- `members[name]`. -/
def item (name : Str) (members : Members) : Except Raised JsonValue :=
  match get? name members with
  | none => .error .keyError
  | some v => .ok v

def publicJwk (raw : Bytes) : Members :=
  [(txt "crv", .str (txt "Ed25519")), (txt "kty", .str (txt "OKP")), (txt "x", .str (b64url raw))]

def thumbprintWith (q : Quoting) (jwk : Members) : Except Raised Str := do
  let crv ← item (txt "crv") jwk
  let kty ← item (txt "kty") jwk
  let x ← item (txt "x") jwk
  let text ← PyValue.dumps q (.obj [(txt "crv", crv), (txt "kty", kty), (txt "x", x)])
  let bytes ← raising (utf8Encode text)
  return b64url (sha256 bytes).bytes

def jwkThumbprint (jwk : Members) : Except Raised Str := thumbprintWith keepChars jwk

def loadPublicKey (jwk : JsonValue) : Except Raised ed.PublicKey :=
  match jwk with
  | .obj members =>
    if isText (get (txt "kty") members) (txt "OKP") ∧ isText (get (txt "crv") members) (txt "Ed25519") then do
      let x ← item (txt "x") members
      let text ← str py x
      let raw ← b64urlDecode text
      match ed.fromPublicBytes raw with
      | none => .error (.py .valueError)
      | some key => .ok key
    else .error (.py .valueError)
  | _ => .error (.py .valueError)

def thumbprint (key : ed.PublicKey) : Except Raised Str := jwkThumbprint (publicJwk (ed.rawBytes key))

structure PopResult where
  ok : Bool
  reason : Str
  jti : Option Str

/-- `int(v)`, with `except (TypeError, ValueError)`. -/
def tryInt (v : JsonValue) : Except Raised (Option ℤ) :=
  match int py v with
  | .ok z => .ok (some z)
  | .error e => if e = .typeError ∨ e.isValueError then .ok none else .error e

/-- `pub.verify(_b64url_decode(sig), message)`, whatever it raises. -/
def signatureHolds (key : ed.PublicKey) (sig : Str) (message : Bytes) : Bool :=
  match b64urlDecode sig with
  | .ok raw => ed.verifies key raw message
  | .error _ => false

structure KeyHelpers where
  load : JsonValue → Except Raised ed.PublicKey
  thumbprint : ed.PublicKey → Except Raised Str

structure ProofContext where
  cnfJkt : JsonValue
  bind : Str
  now : Clock
  maxAge : ℤ
  maxSkew : ℤ
  challenge : Option Str

def checkFresh (context : ProofContext) (body : Members) : Except Raised PopResult := do
  match ← tryInt py (get (txt "iat") body) with
  | none => return ⟨false, txt "pop iat invalid", none⟩
  | some iat =>
    let now ← context.now.int
    if now + context.maxSkew < iat then return ⟨false, txt "pop not yet valid", none⟩
    else if iat < now - context.maxAge then return ⟨false, txt "pop expired", none⟩
    else if Enforcement.agrees context.challenge (get (txt "chal") body) = false then
      return ⟨false, txt "pop challenge mismatch", none⟩
    else if truthy py (get (txt "jti") body) then
      let jti ← str py (get (txt "jti") body)
      return ⟨true, txt "ok", some jti⟩
    else return ⟨true, txt "ok", none⟩

def checkBody (helpers : KeyHelpers ed) (context : ProofContext) (body : Members) (pub : ed.PublicKey) :
    Except Raised PopResult := do
  let presented ← helpers.thumbprint pub
  let cnfJkt ← str py (orEmpty py context.cnfJkt)
  if ← compareDigest presented cnfJkt then
    let bound ← str py (orEmpty py (get (txt "bind") body))
    if ← compareDigest bound context.bind then checkFresh py context body
    else return ⟨false, txt "pop binding mismatch", none⟩
  else return ⟨false, txt "cnf thumbprint mismatch", none⟩

/-- The body of the `try`. -/
def checkProof (helpers : KeyHelpers ed) (context : ProofContext) (proof : Option Str) :
    Except Raised PopResult :=
  let text := proof.getD []
  if cp '.' ∉ text then .ok ⟨false, txt "malformed pop proof", none⟩
  else do
    let (bodyB64, sigB64) := partition (cp '.') text
    let bodyBytes ← b64urlDecode bodyB64
    match ← loads py bodyBytes with
    | .obj body =>
      match get (txt "jwk") body with
      | .obj jwk =>
        match helpers.load (.obj jwk) with
        | .error _ => return ⟨false, txt "unsupported pop key", none⟩
        | .ok pub =>
          if signatureHolds ed pub sigB64 bodyBytes then checkBody py ed helpers context body pub
          else return ⟨false, txt "bad pop signature", none⟩
      | _ => return ⟨false, txt "missing pop key", none⟩
    | _ => return ⟨false, txt "malformed pop body", none⟩

/-- `except Exception`. -/
def caught {α : Type} (fallback : α) : Except Raised α → α
  | .ok a => a
  | .error _ => fallback

def popHelpers : KeyHelpers ed := ⟨loadPublicKey py ed, thumbprint ed⟩

def verifyPopProof (proof : Option Str) (context : ProofContext) : PopResult :=
  caught ⟨false, txt "pop verification error", none⟩ (checkProof py ed (popHelpers py ed) context proof)

theorem caught_ok {α : Type} {P : α → Prop} {fallback : α} {x : Except Raised α} (hfallback : ¬P fallback)
    (h : P (caught fallback x)) : ∃ a, x = .ok a ∧ P a := by
  cases x with
  | error e => exact absurd h hfallback
  | ok a => exact ⟨a, rfl, h⟩

variable {py ed}

theorem checkProof_ok {helpers : KeyHelpers ed} {context : ProofContext} {proof : Option Str} {r : PopResult}
    (h : checkProof py ed helpers context proof = .ok r) (hok : r.ok = true) : ∃ body pub jkt raw,
      b64urlDecode (partition (cp '.') (proof.getD [])).1 = .ok raw ∧ loads py raw = .ok (.obj body) ∧
      signatureHolds ed pub (partition (cp '.') (proof.getD [])).2 raw = true ∧
      helpers.thumbprint pub = .ok jkt ∧ str py (orEmpty py context.cnfJkt) = .ok jkt ∧
      str py (orEmpty py (get (txt "bind") body)) = .ok context.bind ∧ isAscii context.bind = true := by
  unfold checkProof at h
  dsimp only at h
  split at h
  · obtain rfl := Except.ok.inj h
    cases hok
  · obtain ⟨raw, hraw, h⟩ := Pipeline.bind_ok h
    obtain ⟨v, hv, h⟩ := Pipeline.bind_ok h
    split at h
    · next body =>
      split at h
      · next jwk hjwk =>
        split at h
        · obtain rfl := Except.ok.inj h
          cases hok
        · next pub hpub =>
          split at h
          · next hsig =>
            obtain ⟨presented, hpresented, h⟩ := Pipeline.bind_ok h
            obtain ⟨jkt, hjkt, h⟩ := Pipeline.bind_ok h
            obtain ⟨same, hsame, h⟩ := Pipeline.bind_ok h
            split at h
            · next htrue =>
              obtain ⟨bound, hbound, h⟩ := Pipeline.bind_ok h
              obtain ⟨bind, hbind, h⟩ := Pipeline.bind_ok h
              split at h
              · next hbindTrue =>
                rw [htrue] at hsame
                rw [hbindTrue] at hbind
                obtain ⟨rfl, -⟩ := compareDigest_true hsame
                obtain ⟨rfl, hascii⟩ := compareDigest_true hbind
                exact ⟨body, pub, presented, raw, hraw, hv, hsig, hpresented, hjkt, hbound, hascii⟩
              · obtain rfl := Except.ok.inj h
                cases hok
            · obtain rfl := Except.ok.inj h
              cases hok
          · obtain rfl := Except.ok.inj h
            cases hok
      · obtain rfl := Except.ok.inj h
        cases hok
    · obtain rfl := Except.ok.inj h
      cases hok

theorem verifyPopProof_ok {proof : Option Str} {context : ProofContext}
    (h : (verifyPopProof py ed proof context).ok = true) :
    ∃ r, checkProof py ed (popHelpers py ed) context proof = .ok r ∧ r.ok = true :=
  caught_ok (P := fun r : PopResult => r.ok = true) Bool.false_ne_true h

def rawThumbprint (raw : Bytes) : Str :=
  b64url (sha256 (utf8 (write asciiOnly (.obj (publicJwk raw))))).bytes

theorem wideChars_of_visible {s : Str} (h : Visible s) : wideChars s = 0 := by
  unfold wideChars
  rw [List.countP_eq_zero]
  intro c hc
  have hbound := (h c hc).2
  simp only [decide_eq_true_eq, not_le]
  exact hbound

theorem thumbprintWith_publicJwk {q : Quoting}
    (hq : ∀ v, wide v = 0 → write q v = write asciiOnly v) (raw : Bytes) :
    thumbprintWith q (publicJwk raw) = .ok (rawThumbprint raw) := by
  have hcrv : item (txt "crv") (publicJwk raw) = .ok (.str (txt "Ed25519")) := rfl
  have hkty : item (txt "kty") (publicJwk raw) = .ok (.str (txt "OKP")) := rfl
  have hx : item (txt "x") (publicJwk raw) = .ok (.str (b64url raw)) := rfl
  have hwide : wide (.obj (publicJwk raw)) = 0 := by
    have hnames : ∀ s ∈ [txt "crv", txt "kty", txt "x", txt "Ed25519", txt "OKP"], wideChars s = 0 := by decide
    simp only [List.forall_mem_cons] at hnames
    obtain ⟨hcrv, hkty, hx, hed, hokp, -⟩ := hnames
    simp only [wide, wideMembers, publicJwk, hcrv, hkty, hx, hed, hokp,
      wideChars_of_visible (Enforcement.visible_b64url raw)]
  have htame : Tame 1 (.obj (publicJwk raw)) := by
    refine .obj ?_
    simp only [publicJwk, List.forall_mem_cons, Tame.str, true_and]
    exact List.forall_mem_nil _
  have hdumps : PyValue.dumps q (.obj (publicJwk raw)) = .ok (write asciiOnly (.obj (publicJwk raw))) := by
    have hsorted : sortKeys (.obj (publicJwk raw)) = .obj (publicJwk raw) := rfl
    unfold PyValue.dumps JsonText.dumps
    rw [if_pos (shortInts_of_tame htame), hsorted, hq _ hwide]
  have hencode := PyRepr.utf8Encode_eq (plain_of_visible htame.visible)
  unfold thumbprintWith
  rw [hcrv, hkty, hx]
  simp only [publicJwk, bind, Except.bind] at hdumps ⊢
  rw [hdumps]
  simp only [publicJwk] at hencode
  simp only [hencode]
  rfl

theorem thumbprint_eq (ed : Ed25519) (key : ed.PublicKey) : thumbprint ed key = .ok (rawThumbprint (ed.rawBytes key)) :=
  thumbprintWith_publicJwk (fun v hv => (write_narrow v hv).symm) _

theorem length_rawThumbprint (raw : Bytes) : (rawThumbprint raw).length = 43 := by
  unfold rawThumbprint b64url
  rw [UrlBase64.length_encode, (sha256 _).length_eq]

theorem truthy_of_verifyPopProof {proof : Option Str} {context : ProofContext}
    (h : (verifyPopProof py ed proof context).ok = true) : truthy py context.cnfJkt = true := by
  obtain ⟨r, hr, hok⟩ := verifyPopProof_ok h
  obtain ⟨body, pub, jkt, raw, -, -, -, hjkt, hstr, -⟩ := checkProof_ok hr hok
  by_contra hfalsy
  have hempty : str py (orEmpty py context.cnfJkt) = .ok [] := by
    unfold orEmpty
    rw [if_neg hfalsy]
    rfl
  have hthumb : thumbprint ed pub = .ok jkt := hjkt
  rw [thumbprint_eq] at hthumb
  have hjktEmpty : jkt = [] := Except.ok.inj (hstr.symm.trans hempty)
  have hlength := length_rawThumbprint (ed.rawBytes pub)
  rw [Except.ok.inj hthumb, hjktEmpty] at hlength
  cases hlength

theorem verifyPopProof_nil {proof : Option Str} (h : proof.getD [] = []) (context : ProofContext) :
    (verifyPopProof py ed proof context).ok = false := by
  unfold verifyPopProof checkProof
  rw [h]
  rfl

end TexGovernance.Authority
