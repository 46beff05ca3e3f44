import TexGovernance.Enforcement.Permit

/-!
# What a permit's verification accepts

Behind an unforgeable signature stands the text of a permit that was minted.
-/

namespace TexGovernance.Enforcement
open PyStr PyBytes PyCodec JsonLoads JsonText PyValue CaseFold
open PyRepr (utf8 Plain)
open Engine (Uuid)

variable (py : Interpreter) (uuidOf : Str → Except Raised Uuid)

theorem verifyClaims_eq {clock : Clock} {expected : Expected} {claims : Members} {exp now : ℤ}
    (hexp : int py (getOr (txt "exp") (.int 0) claims) = .ok exp) (hnow : clock.int = .ok now) :
    (exp < now → ∃ v, verifyClaims py clock expected claims = .ok v ∧ v.ok = false) ∧
    (now ≤ exp → ∀ digest, digestAgrees py expected.contentDigest claims = .ok digest →
      ∃ v, verifyClaims py clock expected claims = .ok v ∧
        (v.ok = true ↔ digest = true ∧ agrees expected.audience (get (txt "aud") claims) = true ∧
          agrees expected.actionType (get (txt "act") claims) = true ∧
          agrees expected.tenant (get (txt "tn") claims) = true ∧
          agrees expected.agentId (get (txt "aid") claims) = true)) ∧
    (now ≤ exp → ∀ e, digestAgrees py expected.contentDigest claims = .error e →
      verifyClaims py clock expected claims = .error e) := by
  unfold verifyClaims
  rw [hexp, hnow]
  refine ⟨fun hlt => ⟨⟨false, txt "expired", some claims⟩, if_pos hlt, rfl⟩, fun hle digest hdigest => ?_,
    fun hle e he => ?_⟩
  · show ∃ v, (if exp < now then _ else _) = _ ∧ _
    rw [if_neg (not_lt.mpr hle), hdigest]
    refine ⟨_, rfl, ?_⟩
    cases digest <;> cases agrees expected.audience (get (txt "aud") claims) <;>
      cases agrees expected.actionType (get (txt "act") claims) <;>
      cases agrees expected.tenant (get (txt "tn") claims) <;>
      cases agrees expected.agentId (get (txt "aid") claims) <;> simp
  · show (if exp < now then _ else _) = _
    rw [if_neg (not_lt.mpr hle), he]
    rfl

def seen (name : Str) : JsonValue → JsonValue
  | .null => if name = txt "cd" then .str [] else .null
  | v => mapTexts asciiOnly.back v

def supplied (expected : Expected) : List (Str × Str) :=
  [(txt "cd", expected.contentDigest), (txt "aud", expected.audience), (txt "act", expected.actionType),
    (txt "tn", expected.tenant), (txt "aid", expected.agentId)].filterMap fun p => p.2.map (p.1, ·)

theorem forall_supplied {expected : Expected} {P : Str × Str → Prop} :
    (∀ p ∈ supplied expected, P p) ↔
      (∀ s, expected.contentDigest = some s → P (txt "cd", s)) ∧
      (∀ s, expected.audience = some s → P (txt "aud", s)) ∧
      (∀ s, expected.actionType = some s → P (txt "act", s)) ∧
      (∀ s, expected.tenant = some s → P (txt "tn", s)) ∧
      (∀ s, expected.agentId = some s → P (txt "aid", s)) := by
  simp only [supplied, List.forall_mem_filterMap, List.forall_mem_cons, Option.map_eq_some_iff]
  simp

def Matches (m : MintedPermit) (expected : Expected) : Prop :=
  ∀ p ∈ supplied expected, get p.1 m.claims = .str p.2

def Reads (m : MintedPermit) (expected : Expected) : Prop :=
  ∀ p ∈ supplied expected, seen p.1 (get p.1 m.claims) = .str p.2

def Clear (m : MintedPermit) (expected : Expected) : Prop :=
  ∀ p ∈ supplied expected, seen p.1 (get p.1 m.claims) = get p.1 m.claims

theorem clear_iff (m : MintedPermit) (expected : Expected) :
    (Reads m expected ↔ Matches m expected) ↔ (Matches m expected ∨ Reads m expected → Clear m expected) := by
  constructor
  · intro hiff hone p hp
    have hmatches : Matches m expected := hone.elim id hiff.mp
    rw [hiff.mpr hmatches p hp, hmatches p hp]
  · intro hclear
    refine ⟨fun hreads p hp => ?_, fun hmatches p hp => ?_⟩
    · rw [← hclear (.inr hreads) p hp]
      exact hreads p hp
    · rw [hclear (.inl hmatches) p hp]
      exact hmatches p hp

def DigestsAscii (m : MintedPermit) (expected : Expected) : Prop :=
  ∀ s, expected.contentDigest = some s → isAscii s = true ∧
    ∀ t, get (txt "cd") m.claims = .str t → isAscii t = true

/-- What the proofs use of the claims that `mint` writes. -/
structure PermitForm (claims : Members) (exp : ℤ) : Prop where
  nodup : (claims.map Prod.fst).Nodup
  plain : ∀ p ∈ claims, Plain p.1
  leaf : ∀ p ∈ claims, sortKeys p.2 = p.2
  tame : ∀ p ∈ claims, ∀ depth, Tame depth p.2
  version : (txt "v", .int permitVersion) ∈ claims
  exp : (txt "exp", .int exp) ∈ claims
  text : ∀ p ∈ claims, p.1 = txt "cd" → p.2 = .null ∨ ∃ t, p.2 = .str t

theorem natText_short {n : ℕ} (h : n < 10 ^ 18) : (natText n).length ≤ maxStrDigits := by
  unfold natText
  rw [List.length_map]
  refine le_trans ((Nat.length_toDigits_le_iff (by decide) (by decide)).mpr h) ?_
  decide

theorem sortKeys_optional (o : Option Str) : sortKeys (optional o) = optional o := by
  cases o <;> rfl

theorem tame_optional (o : Option Str) (depth : ℕ) : Tame depth (optional o) := by
  cases o with
  | none => exact .null
  | some s => exact .str s

theorem optional_cases (o : Option Str) : optional o = .null ∨ ∃ t, optional o = .str t := by
  cases o with
  | none => exact .inl rfl
  | some s => exact .inr ⟨s, rfl⟩

theorem permitForm (call : MintCall) (pid did : Uuid) (nonce : Str) {exp : ℤ} (cd : Option Str)
    (hlow : -62135596800 ≤ exp) (hhigh : exp ≤ 253402300799) :
    PermitForm (permitClaims call pid did nonce exp cd) exp where
  nodup := by
    show [txt "v", txt "pid", txt "did", txt "tn", txt "aid", txt "aud", txt "act", txt "cd", txt "nonce",
      txt "exp"].Nodup
    decide
  plain := by
    simp only [permitClaims, List.forall_mem_cons, PyRepr.plain_txt, true_and]
    exact List.forall_mem_nil _
  leaf := by
    simp only [permitClaims, List.forall_mem_cons, sortKeys_optional, sortKeys, true_and]
    exact List.forall_mem_nil _
  tame := by
    have hexp : (natText exp.natAbs).length ≤ maxStrDigits := natText_short (by omega)
    simp only [permitClaims, List.forall_mem_cons, tame_optional, Tame.str, implies_true, true_and]
    exact ⟨fun _ => .int (by decide), fun _ => .int hexp, List.forall_mem_nil _⟩
  version := by simp [permitClaims]
  exp := by simp [permitClaims]
  text := by
    have hstr : ∀ s, JsonValue.str s = .null ∨ ∃ t, JsonValue.str s = .str t := fun s => .inr ⟨s, rfl⟩
    have hversion : txt "v" ≠ txt "cd" := by decide
    have hexp : txt "exp" ≠ txt "cd" := by decide
    simp only [permitClaims, List.forall_mem_cons, optional_cases, hstr, hversion, hexp, implies_true, true_and,
      false_implies]
    exact List.forall_mem_nil _

theorem mint_form {secret : Option Str} {call : MintCall} {m : MintedPermit}
    (h : mint uuidOf secret call = .ok (some m)) : PermitForm m.claims m.expiry := by
  obtain ⟨key, pid, did, nonce, cd, body, -, -, hclaims, -, -, -, hlow, hhigh, -⟩ := mint_ok h
  rw [hclaims]
  exact permitForm call pid did nonce cd hlow hhigh

section Minted

variable {claims : Members} {exp : ℤ} (hform : PermitForm claims exp)
include hform

theorem PermitForm.canonical :
    canonical (.obj claims) = .ok (b64url (utf8 (JsonText.dumps asciiOnly (.obj claims)))) := by
  have hshort : shortInts (.obj claims) = true :=
    shortInts_of_tame (.obj fun m hm => hform.tame m hm 0)
  unfold Enforcement.canonical PyValue.dumps
  rw [if_pos hshort]
  rfl

theorem PermitForm.get_of_mem {name : Str} {v : JsonValue} (h : (name, v) ∈ claims) : get name claims = v := by
  unfold PyValue.get getOr
  rw [(get?_eq_some_iff hform.nodup).mpr h]
  rfl

theorem PermitForm.get?_back (name : Str) :
    get? name (backClaims claims) = (get? name claims).map (mapTexts asciiOnly.back) := by
  unfold backClaims
  rw [PyValue.get?_back hform.nodup hform.plain]
  cases hget : get? name claims with
  | none => rfl
  | some v =>
    have hleaf : sortKeys v = v := hform.leaf _ ((get?_eq_some_iff hform.nodup).mp hget)
    rw [Option.map_some, Option.map_some, hleaf]

theorem PermitForm.get_back (name : Str) :
    get name (backClaims claims) = mapTexts asciiOnly.back (get name claims) := by
  unfold PyValue.get getOr
  rw [hform.get?_back]
  cases get? name claims with
  | none => rfl
  | some v => rfl

theorem PermitForm.readClaims : readClaims py (b64url (utf8 (JsonText.dumps asciiOnly (.obj claims)))) =
    .ok (some (.obj (backClaims claims))) :=
  readClaims_dumps py (.obj fun m hm => hform.tame m hm _)

theorem PermitForm.verifyBody (clock : Clock) (expected : Expected) :
    verifyBody py clock expected (b64url (utf8 (JsonText.dumps asciiOnly (.obj claims)))) =
      verifyClaims py clock expected (backClaims claims) := by
  have hversion : get (txt "v") (backClaims claims) = .int permitVersion := by
    rw [hform.get_back, hform.get_of_mem hform.version]
    rfl
  unfold Enforcement.verifyBody
  rw [hform.readClaims]
  show (if isInt py (get (txt "v") (backClaims claims)) permitVersion then _ else _) = _
  rw [hversion]
  rfl

theorem PermitForm.agrees_iff {name : Str} (hname : name ≠ txt "cd") (expected : Option Str) :
    agrees expected (get name (backClaims claims)) = true ↔
      ∀ s, expected = some s → seen name (get name claims) = .str s := by
  have hseen : seen name (get name claims) = mapTexts asciiOnly.back (get name claims) := by
    cases get name claims <;> first | rfl | exact if_neg hname
  rw [hform.get_back, hseen]
  cases expected with
  | none => simp [agrees]
  | some s => simp [agrees, isText_iff]

theorem PermitForm.cdText : ∃ t, seen (txt "cd") (get (txt "cd") claims) = .str t ∧
    str py (orEmpty py (get (txt "cd") (backClaims claims))) = .ok t ∧
    (isAscii t = true ↔ ∀ c, get (txt "cd") claims = .str c → isAscii c = true) := by
  have hcases : get (txt "cd") claims = .null ∨ ∃ c, get (txt "cd") claims = .str c := by
    cases hget : get? (txt "cd") claims with
    | none =>
      left
      unfold PyValue.get getOr
      rw [hget]
      rfl
    | some v =>
      have hmem := (get?_eq_some_iff hform.nodup).mp hget
      rw [hform.get_of_mem hmem]
      exact hform.text _ hmem rfl
  rw [hform.get_back]
  rcases hcases with hcd | ⟨c, hcd⟩
  · rw [hcd]
    exact ⟨[], rfl, rfl, fun _ _ hc => (nomatch hc), fun _ => rfl⟩
  · rw [hcd]
    refine ⟨asciiOnly.back c, rfl, ?_, ?_⟩
    · show str py (if (!(asciiOnly.back c).isEmpty) = true then .str (asciiOnly.back c) else .str []) = _
      cases asciiOnly.back c with
      | nil => rfl
      | cons _ _ => rfl
    · rw [isAscii_back]
      simp

end Minted

theorem mint_returns {key : Str} (hkey : Plain key) {call : MintCall} {did : Uuid}
    (hdid : decisionUuid uuidOf call.decisionId = .ok did) {issued : ℤ} (hnow : call.now.int = .ok issued)
    {cd : Option Str} (hcd : committedDigest call = .ok cd)
    (hrange : -62135596800 ≤ issued + call.ttlSeconds ∧ issued + call.ttlSeconds ≤ 253402300799) :
    ∃ m, mint uuidOf (some key) call = .ok (some m) := by
  have hform := permitForm call (call.permitId.getD call.uuid4) did (orDefault call.nonce call.newNonce) cd
    hrange.1 hrange.2
  obtain ⟨sig, hsig⟩ := sign_of_plain hkey (isAscii_b64url (utf8 (JsonText.dumps asciiOnly
    (.obj (permitClaims call (call.permitId.getD call.uuid4) did (orDefault call.nonce call.newNonce)
      (issued + call.ttlSeconds) cd)))))
  unfold mint
  simp only [hdid, hnow, hcd, bind, Except.bind, hform.canonical, hsig, fromTimestamp, if_pos hrange]
  exact ⟨_, rfl⟩

def Current (clock : Clock) (m : MintedPermit) : Prop := ∃ now, clock.int = .ok now ∧ now ≤ m.expiry

def FitsMinted (clock : Clock) (expected : Expected) (m : MintedPermit) : Prop :=
  ∃ now, clock.int = .ok now ∧
    (now ≤ m.expiry → DigestsAscii m expected ∧ (Matches m expected ∨ Reads m expected → Clear m expected))

theorem digestAgrees_spec {m : MintedPermit} (hform : PermitForm m.claims m.expiry) (expected : Expected) :
    (DigestsAscii m expected → ∃ digest, digestAgrees py expected.contentDigest (backClaims m.claims) = .ok digest ∧
      (digest = true ↔ ∀ s, expected.contentDigest = some s →
        seen (txt "cd") (get (txt "cd") m.claims) = .str s)) ∧
    (¬DigestsAscii m expected → ∃ e, digestAgrees py expected.contentDigest (backClaims m.claims) = .error e) := by
  obtain ⟨t, hseen, hstr, hascii⟩ := hform.cdText py
  unfold DigestsAscii digestAgrees
  rw [← hascii, hseen]
  cases expected.contentDigest with
  | none =>
    refine ⟨fun _ => ⟨true, rfl, by simp⟩, fun hnot => absurd ?_ hnot⟩
    intro s hs
    cases hs
  | some s =>
    have hdigests : (∀ s', some s = some s' → isAscii s' = true ∧ isAscii t = true) ↔
        isAscii t = true ∧ isAscii s = true := by
      simp [and_comm]
    rw [hdigests]
    show (_ → ∃ digest, (str py _ >>= fun cd => compareDigest cd s) = _ ∧ _) ∧
      (_ → ∃ e, (str py _ >>= fun cd => compareDigest cd s) = _)
    rw [hstr]
    refine ⟨fun hboth => ⟨decide (t = s), if_pos hboth, by simp⟩, fun hnot => ⟨.typeError, if_neg hnot⟩⟩

theorem verifyClaims_minted {m : MintedPermit} (hform : PermitForm m.claims m.expiry) (clock : Clock)
    (expected : Expected) :
    (∃ v, verifyClaims py clock expected (backClaims m.claims) = .ok v ∧
      (v.ok = true ↔ Current clock m ∧ Matches m expected)) ↔ FitsMinted clock expected m := by
  have hexp : int py (getOr (txt "exp") (.int 0) (backClaims m.claims)) = .ok m.expiry := by
    unfold getOr
    rw [hform.get?_back, (get?_eq_some_iff hform.nodup).mpr hform.exp]
    rfl
  unfold FitsMinted Current
  cases hnow : clock.int with
  | error e =>
    have hraise : verifyClaims py clock expected (backClaims m.claims) = .error e := by
      unfold verifyClaims
      rw [hexp, hnow]
      rfl
    rw [hraise]
    refine iff_of_false ?_ ?_
    · rintro ⟨v, hv, -⟩
      cases hv
    · rintro ⟨now, h, -⟩
      cases h
  | ok now =>
    obtain ⟨hlate, hsound, hraises⟩ := verifyClaims_eq py hexp hnow
    have hnow' : ∀ {P : ℤ → Prop}, (∃ now', (Except.ok now : Except Raised ℤ) = .ok now' ∧ P now') ↔ P now := by
      simp
    rw [hnow', hnow']
    by_cases hle : now ≤ m.expiry
    · obtain ⟨hcompares, htypes⟩ := digestAgrees_spec py hform expected
      by_cases hascii : DigestsAscii m expected
      · obtain ⟨digest, hdigest, htrue⟩ := hcompares hascii
        obtain ⟨v, hv, hok⟩ := hsound hle digest hdigest
        have hreads : v.ok = true ↔ Reads m expected := by
          unfold Reads
          rw [hok, htrue, hform.agrees_iff (by decide), hform.agrees_iff (by decide),
            hform.agrees_iff (by decide), hform.agrees_iff (by decide), forall_supplied]
        have hv' : ∀ {P : PermitVerification → Prop},
            (∃ v', verifyClaims py clock expected (backClaims m.claims) = .ok v' ∧ P v') ↔ P v := by
          simp [hv]
        rw [hv', hreads]
        simp only [hle, hascii, true_and, true_implies]
        exact clear_iff m expected
      · obtain ⟨e, he⟩ := htypes hascii
        rw [hraises hle e he]
        simp [hle, hascii]
    · obtain ⟨v, hv, hfalse⟩ := hlate (not_le.mp hle)
      rw [hv]
      simp [hle, hfalse]

section Verify

variable (secret : Option Str) (made : Set MintCall) (token : Str)

/-- The token is what `mint` returned of one of the calls. -/
def MintedToken : Prop :=
  ∃ call ∈ made, ∃ m, mint uuidOf secret call = .ok (some m) ∧ m.token = token

/-- Who has not the secret makes no signature: where the token bears the right one, it was minted. -/
def Unforged : Prop :=
  ∀ key, secret = some key → cp '.' ∈ token →
    sign key (partition (cp '.') token).1 = .ok (partition (cp '.') token).2 →
    MintedToken uuidOf secret made token

/-- Verification returns, accepts only what was minted, and of that exactly what has not
expired and is what the caller asks for. -/
def Meets (clock : Clock) (expected : Expected) : Prop :=
  ∃ v, verify py secret (some token) clock expected = .ok v ∧
    (v.ok = true → MintedToken uuidOf secret made token) ∧
    ∀ call ∈ made, ∀ m, mint uuidOf secret call = .ok (some m) → m.token = token →
      (v.ok = true ↔ Current clock m ∧ Matches m expected)

def Fits (clock : Clock) (expected : Expected) : Prop :=
  ∀ key, secret = some key → cp '.' ∈ token → Plain key ∧ isAscii token = true ∧
    ∀ call ∈ made, ∀ m, mint uuidOf secret call = .ok (some m) → m.token = token →
      FitsMinted clock expected m

variable {secret made token}

theorem isAscii_partition (h : cp '.' ∈ token) : isAscii token = true ↔
    isAscii (partition (cp '.') token).1 = true ∧ isAscii (partition (cp '.') token).2 = true := by
  have hjoin := partition_join h
  have hdot : (decide ((cp '.').val < 0x80)) = true := by decide
  conv_lhs => rw [hjoin]
  unfold isAscii
  rw [List.all_append, List.all_cons, hdot, Bool.true_and, Bool.and_eq_true]

theorem mint_parts {key : Str} {call : MintCall} {m : MintedPermit}
    (h : mint uuidOf (some key) call = .ok (some m)) (htoken : m.token = token) : cp '.' ∈ token ∧
    (partition (cp '.') token).1 = b64url (utf8 (JsonText.dumps asciiOnly (.obj m.claims))) ∧
    sign key (partition (cp '.') token).1 = .ok (partition (cp '.') token).2 := by
  obtain ⟨key', pid, did, nonce, cd, body, hkey, -, -, hbody, hsig, hjoined, -⟩ := mint_ok h
  obtain rfl := Option.some.inj hkey
  have hdot : cp '.' ∉ body := by
    rw [hbody]
    exact dot_not_mem_b64url _
  have hparts : partition (cp '.') token = (body, m.signature) := by
    rw [← htoken, hjoined]
    exact partition_append hdot _
  rw [hparts, ← htoken, hjoined]
  exact ⟨by simp, hbody, hsig⟩

theorem verify_steps {key : Str} (hdot : cp '.' ∈ token) (clock : Clock) (expected : Expected) :
    verify py (some key) (some token) clock expected =
      (sign key (partition (cp '.') token).1 >>= fun expectedSig =>
        compareDigest (partition (cp '.') token).2 expectedSig >>= fun same =>
          if same then verifyBody py clock expected (partition (cp '.') token).1
          else .ok ⟨false, txt "bad signature", none⟩) :=
  if_neg (not_not.mpr hdot)

theorem verify_unsigned {key : Str} (hdot : cp '.' ∈ token)
    (hunsigned : sign key (partition (cp '.') token).1 ≠ .ok (partition (cp '.') token).2) (clock : Clock)
    (expected : Expected) :
    (∃ v, verify py (some key) (some token) clock expected = .ok v ∧ v.ok = false) ∧ Plain key ∧
        isAscii token = true ∨
      (∃ e, verify py (some key) (some token) clock expected = .error e) ∧
        ¬(Plain key ∧ isAscii token = true) := by
  rw [verify_steps py hdot, isAscii_partition hdot]
  cases hsign : sign key (partition (cp '.') token).1 with
  | error e =>
    refine .inr ⟨⟨e, rfl⟩, fun hboth => ?_⟩
    obtain ⟨sig, hsig⟩ := sign_of_plain hboth.1 hboth.2.1
    rw [hsign] at hsig
    cases hsig
  | ok expectedSig =>
    obtain ⟨hkey, hbody, hexpected⟩ := sign_ok hsign
    by_cases hsig : isAscii (partition (cp '.') token).2 = true
    · left
      have hne : (partition (cp '.') token).2 ≠ expectedSig := fun heq =>
        hunsigned (by rw [hsign, heq])
      refine ⟨⟨⟨false, txt "bad signature", none⟩, ?_, rfl⟩, hkey, hbody, hsig⟩
      show (compareDigest _ expectedSig >>= _) = _
      rw [compareDigest_ascii hsig hexpected, decide_eq_false hne]
      rfl
    · right
      refine ⟨⟨.typeError, ?_⟩, fun hboth => hsig hboth.2.2⟩
      show (compareDigest _ expectedSig >>= _) = _
      rw [compareDigest, if_neg fun hboth => hsig hboth.1]
      rfl

theorem verify_signed {key : Str} (hdot : cp '.' ∈ token)
    (hsigned : sign key (partition (cp '.') token).1 = .ok (partition (cp '.') token).2) (clock : Clock)
    (expected : Expected) : verify py (some key) (some token) clock expected =
      verifyBody py clock expected (partition (cp '.') token).1 := by
  obtain ⟨-, -, hsig⟩ := sign_ok hsigned
  rw [verify_steps py hdot, hsigned]
  show (compareDigest _ (partition (cp '.') token).2 >>= _) = _
  rw [compareDigest_ascii hsig hsig, decide_eq_true rfl]
  rfl

end Verify

/-- Verification meets its purpose exactly on the tokens, clocks and expected values that fit. -/
theorem permit_verify_exact (fold : CaseFolding) (process : Process) (made : Set MintCall) (token : Str)
    (clock : Clock) (expected : Expected)
    (hunforged : Unforged uuidOf (permitSecret fold process) made token) :
    Meets py uuidOf (permitSecret fold process) made token clock expected ↔
      Fits uuidOf (permitSecret fold process) made token clock expected := by
  unfold Meets Fits
  cases hsecret : permitSecret fold process with
  | none =>
    refine iff_of_true ⟨_, rfl, nofun, fun call _ m hmint => ?_⟩ nofun
    cases hmint
  | some key =>
    rw [hsecret] at hunforged
    by_cases hdot : cp '.' ∈ token
    · by_cases hsigned : sign key (partition (cp '.') token).1 = .ok (partition (cp '.') token).2
      · obtain ⟨call, hcall, m, hmint, htoken⟩ := hunforged key rfl hdot hsigned
        obtain ⟨hkey, hbody, hsig⟩ := sign_ok hsigned
        have hascii : isAscii token = true := (isAscii_partition hdot).mpr ⟨hbody, hsig⟩
        rw [verify_signed py hdot hsigned]
        have hverify : ∀ call' m', mint uuidOf (some key) call' = .ok (some m') → m'.token = token →
            ((∃ v, verifyBody py clock expected (partition (cp '.') token).1 = .ok v ∧
              (v.ok = true ↔ Current clock m' ∧ Matches m' expected)) ↔ FitsMinted clock expected m') := by
          intro call' m' hmint' htoken'
          have hform := mint_form uuidOf hmint'
          rw [(mint_parts uuidOf hmint' htoken').2.1, hform.verifyBody]
          exact verifyClaims_minted py hform clock expected
        constructor
        · rintro ⟨v, hv, -, hall⟩ key' hkey' -
          obtain rfl := Option.some.inj hkey'
          refine ⟨hkey, hascii, fun call' hcall' m' hmint' htoken' => ?_⟩
          exact (hverify call' m' hmint' htoken').mp ⟨v, hv, hall call' hcall' m' hmint' htoken'⟩
        · intro hfits
          obtain ⟨-, -, hall⟩ := hfits key rfl hdot
          obtain ⟨v, hv, -⟩ := (hverify call m hmint htoken).mpr (hall call hcall m hmint htoken)
          refine ⟨v, hv, fun _ => ⟨call, hcall, m, hmint, htoken⟩, fun call' hcall' m' hmint' htoken' => ?_⟩
          obtain ⟨v', hv', hok⟩ := (hverify call' m' hmint' htoken').mpr (hall call' hcall' m' hmint' htoken')
          obtain rfl := Except.ok.inj (hv.symm.trans hv')
          exact hok
      · have hnone : ∀ call ∈ made, ∀ m, mint uuidOf (some key) call = .ok (some m) → ¬m.token = token :=
          fun call _ m hmint htoken => hsigned (mint_parts uuidOf hmint htoken).2.2
        rcases verify_unsigned py hdot hsigned clock expected with ⟨⟨v, hv, hfalse⟩, hencodes⟩ | ⟨⟨e, he⟩, hencodes⟩
        · refine iff_of_true ⟨v, hv, ?_, fun call hcall m hmint htoken => absurd htoken (hnone call hcall m hmint)⟩ ?_
          · rw [hfalse]
            nofun
          · intro key' hkey' _
            obtain rfl := Option.some.inj hkey'
            exact ⟨hencodes.1, hencodes.2, fun call hcall m hmint htoken =>
              absurd htoken (hnone call hcall m hmint)⟩
        · rw [he]
          refine iff_of_false ?_ fun hfits => ?_
          · rintro ⟨v, hv, -⟩
            cases hv
          · obtain ⟨hplain, hascii, -⟩ := hfits key rfl hdot
            exact hencodes ⟨hplain, hascii⟩
    · have hmalformed : verify py (some key) (some token) clock expected =
          .ok ⟨false, txt "malformed permit", none⟩ := if_pos hdot
      refine iff_of_true ⟨_, hmalformed, nofun, fun call _ m hmint htoken => ?_⟩ fun _ _ h => absurd h hdot
      exact absurd (mint_parts uuidOf hmint htoken).1 hdot

def sampleProcess : Process := ⟨none, none, some (txt "k"), []⟩

theorem sampleUuid_uuid : Engine.isUuidText (txt "00000000-0000-0000-0000-000000000001") = true := by
  decide

def sampleUuid : Uuid := ⟨txt "00000000-0000-0000-0000-000000000001", sampleUuid_uuid⟩

def sampleCall : MintCall where
  decisionId := .uuid sampleUuid
  tenant := txt "acme"
  actionType := txt "send"
  agentId := none
  recipient := some (txt "mail")
  content := none
  contentSha256 := none
  ttlSeconds := 30
  permitId := none
  nonce := none
  now := .at 100
  uuid4 := sampleUuid
  newNonce := txt "n"

def noUuid : Str → Except Raised Uuid := fun _ => .error (.py .valueError)

theorem permit_verify_exact_sample : ∃ m, mint noUuid (some (txt "k")) sampleCall = .ok (some m) ∧
    (Meets plainInterpreter noUuid (permitSecret foldedTexts sampleProcess) {sampleCall} m.token (.at 110)
        ⟨none, some (txt "mail"), none, none, none⟩ ↔
      Fits noUuid (permitSecret foldedTexts sampleProcess) {sampleCall} m.token (.at 110)
        ⟨none, some (txt "mail"), none, none, none⟩) := by
  obtain ⟨m, hm⟩ : ∃ m, mint noUuid (some (txt "k")) sampleCall = .ok (some m) :=
    mint_returns noUuid (PyRepr.plain_txt "k") rfl rfl rfl (by decide)
  have hunforged : Unforged noUuid (permitSecret foldedTexts sampleProcess) {sampleCall} m.token :=
    fun _ _ _ _ => ⟨sampleCall, rfl, m, hm, rfl⟩
  exact ⟨m, hm, permit_verify_exact plainInterpreter noUuid foldedTexts sampleProcess {sampleCall} m.token
    (.at 110) ⟨none, some (txt "mail"), none, none, none⟩ hunforged⟩

/-- A body with a letter outside ASCII makes verification raise. -/
theorem permit_verify_raises : ¬∀ (py : Interpreter) (uuidOf : Str → Except Raised Uuid) (fold : CaseFolding)
    (process : Process) (made : Set MintCall) (token : Str) (clock : Clock) (expected : Expected),
    Unforged uuidOf (permitSecret fold process) made token →
      Meets py uuidOf (permitSecret fold process) made token clock expected := by
  intro hall
  have hsign : sign (txt "k") (txt "é") = .error (.py .unicodeEncodeError) := by decide
  have hparts : partition (cp '.') (txt "é.x") = (txt "é", txt "x") := by decide
  have hunforged : Unforged noUuid (permitSecret foldedTexts sampleProcess) ∅ (txt "é.x") := by
    intro key hkey _ hsigned
    obtain rfl : txt "k" = key := Option.some.inj hkey
    rw [hparts, hsign] at hsigned
    cases hsigned
  obtain ⟨v, hv, -⟩ := hall plainInterpreter noUuid foldedTexts sampleProcess ∅ (txt "é.x") (.at 0)
    ⟨none, none, none, none, none⟩ hunforged
  have hraises : verify plainInterpreter (some (txt "k")) (some (txt "é.x")) (.at 0) ⟨none, none, none, none, none⟩ =
      .error (.py .unicodeEncodeError) := by
    rw [verify_steps plainInterpreter (by decide), hparts, hsign]
    rfl
  have hsecret : permitSecret foldedTexts sampleProcess = some (txt "k") := rfl
  rw [hsecret, hraises] at hv
  cases hv

end TexGovernance.Enforcement
