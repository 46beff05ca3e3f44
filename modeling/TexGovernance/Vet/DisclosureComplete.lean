import TexGovernance.Lib.Pipeline
import TexGovernance.Vet.SelectiveDisclosure

/-!
# Complete disclosures

What an issuer signed verifies, and what a holder derives from it verifies, where the issuance
header is empty. The presentation check leaves the header out of what it takes to be signed.
-/

namespace TexGovernance.Vet.SelectiveDisclosure
open PyStr PyBytes PyCodec JsonLoads JsonText PyValue PyDict Sha256 Hmac
open PyRepr (Plain utf8)
open Enforcement (b64url b64urlDecode b64urlDecode_b64url)
open Pqcrypto Pipeline

def escapedChar (c : CodePoint) : Str :=
  if c = cp '~' then txt "~0" else if c = cp '/' then txt "~1" else [c]

theorem escaped_eq (key : Str) : escaped key = key.flatMap escapedChar := by
  unfold escaped replaceChar
  rw [List.flatMap_assoc]
  refine List.flatMap_congr fun c _ => ?_
  unfold escapedChar
  by_cases htilde : c = cp '~'
  · rw [if_pos htilde, if_pos htilde]
    decide
  · rw [if_neg htilde, if_neg htilde, List.flatMap_singleton]

theorem slash_notMem_escaped (key : Str) : cp '/' ∉ escaped key := by
  rw [escaped_eq, List.mem_flatMap]
  intro ⟨c, _, hc⟩
  unfold escapedChar at hc
  split at hc
  · revert hc
    decide
  · split at hc
    · revert hc
      decide
    · next hslash => exact hslash (List.mem_singleton.mp hc).symm

theorem escapedChar_inj {c d : CodePoint} {s t : Str} (h : escapedChar c ++ s = escapedChar d ++ t) :
    c = d ∧ s = t := by
  have htilde : txt "~0" = [cp '~', cp '0'] := by decide
  have hslash : txt "~1" = [cp '~', cp '1'] := by decide
  have hdigits : cp '0' ≠ cp '1' := by decide
  unfold escapedChar at h
  rw [htilde, hslash] at h
  split at h <;> split at h <;> grind

theorem escaped_inj {key key' : Str} (h : escaped key = escaped key') : key = key' := by
  rw [escaped_eq, escaped_eq] at h
  have hne (c : CodePoint) : escapedChar c ≠ [] := by
    unfold escapedChar
    split
    · decide
    · split
      · decide
      · exact List.cons_ne_nil _ _
  induction key generalizing key' with
  | nil =>
    cases key' with
    | nil => rfl
    | cons d key' => exact absurd (List.append_eq_nil_iff.mp h.symm).1 (hne d)
  | cons c key ih =>
    cases key' with
    | nil => exact absurd (List.append_eq_nil_iff.mp h).1 (hne c)
    | cons d key' =>
      obtain ⟨hc, hrest⟩ := escapedChar_inj h
      rw [hc, ih hrest]

def Under (pointer p : Str) : Prop := p = pointer ∨ ∃ t, p = pointer ++ cp '/' :: t

theorem Under.parent {parent key p : Str} (h : Under (pointerAt parent key) p) : Under parent p := by
  obtain rfl | ⟨t, rfl⟩ := h
  · exact .inr ⟨_, rfl⟩
  · refine .inr ⟨escaped key ++ cp '/' :: t, ?_⟩
    unfold pointerAt
    rw [List.append_assoc, List.cons_append]

theorem Under.key {parent key p : Str} (h : Under (pointerAt parent key) p) :
    (p.drop (parent.length + 1)).takeWhile (fun c => c ≠ cp '/') = escaped key := by
  have hfront : ∀ c ∈ escaped key, (decide (c ≠ cp '/')) = true := fun c hc =>
    decide_eq_true fun heq => slash_notMem_escaped key (heq ▸ hc)
  have hdrop (rest : Str) : (parent ++ cp '/' :: rest).drop (parent.length + 1) = rest := by
    rw [List.drop_append, List.drop_eq_nil_of_le (Nat.le_succ _), Nat.add_sub_cancel_left]
    rfl
  obtain rfl | ⟨t, rfl⟩ := h
  · unfold pointerAt
    rw [hdrop]
    exact List.takeWhile_eq_self_iff.mpr hfront
  · unfold pointerAt
    rw [List.append_assoc, List.cons_append, hdrop, List.takeWhile_append_of_pos hfront]
    rw [List.takeWhile_cons_of_neg (by decide), List.append_nil]

theorem key_unique {parent key key' p : Str} (h : Under (pointerAt parent key) p)
    (h' : Under (pointerAt parent key') p) : key = key' := escaped_inj (h.key.symm.trans h'.key)

mutual

theorem under_flattenClaims (parent : Str) : ∀ members : Members, ∀ c ∈ flattenClaims parent members,
    ∃ key ∈ members.map Prod.fst, Under (pointerAt parent key) c.pointer
  | [] => List.forall_mem_nil _
  | (key, value) :: rest => by
    intro c hc
    rw [flattenClaims] at hc
    obtain hc | hc := List.mem_append.mp hc
    · exact ⟨key, List.mem_cons_self, under_flattenValue _ key value c hc⟩
    · obtain ⟨other, hother, hunder⟩ := under_flattenClaims parent rest c hc
      exact ⟨other, List.mem_cons_of_mem _ hother, hunder⟩

theorem under_flattenValue (pointer key : Str) : ∀ value : JsonValue, ∀ c ∈ flattenValue pointer key value,
    Under pointer c.pointer
  | .obj members => by
    intro c hc
    have hbelow := under_flattenClaims pointer members
    rw [flattenValue] at hc
    split at hc
    · exact .inl (congrArg Claim.pointer (List.mem_singleton.mp hc))
    · next claim claims hclaims =>
      rw [hclaims] at hbelow
      obtain ⟨other, -, hunder⟩ := hbelow c hc
      exact hunder.parent
  | .null | .bool _ | .int _ | .float _ | .str _ | .arr _ =>
    fun _ hc => .inl (congrArg Claim.pointer (List.mem_singleton.mp hc))

end

theorem KeysOnce.value {key : Str} {nested rest : Members} (h : KeysOnce ((key, .obj nested) :: rest)) :
    KeysOnce nested := by
  obtain ⟨-, hinner⟩ := h
  exact hinner key nested List.mem_cons_self

theorem KeysOnce.tail {member : Str × JsonValue} {rest : Members} (h : KeysOnce (member :: rest)) :
    KeysOnce rest := by
  obtain ⟨hnodup, hinner⟩ := h
  exact ⟨(List.nodup_cons.mp hnodup).2, fun key nested hmem => hinner key nested (List.mem_cons_of_mem _ hmem)⟩

mutual

theorem nodup_flattenClaims (parent : Str) : ∀ members : Members, KeysOnce members →
    ((flattenClaims parent members).map Claim.pointer).Nodup
  | [], _ => List.nodup_nil
  | (key, value) :: rest, h => by
    have hkey : key ∉ rest.map Prod.fst := by
      obtain ⟨hnodup, -⟩ := h
      exact (List.nodup_cons.mp hnodup).1
    rw [flattenClaims, List.map_append, List.nodup_append']
    refine ⟨nodup_flattenValue _ key value fun nested hvalue => ?_, nodup_flattenClaims parent rest h.tail, ?_⟩
    · rw [hvalue] at h
      exact h.value
    · intro p hfirst hrest
      obtain ⟨c, hc, rfl⟩ := List.mem_map.mp hfirst
      obtain ⟨d, hd, hsame⟩ := List.mem_map.mp hrest
      obtain ⟨other, hother, hunder⟩ := under_flattenClaims parent rest d hd
      rw [hsame] at hunder
      rw [key_unique (under_flattenValue _ key value c hc) hunder] at hkey
      exact hkey hother

theorem nodup_flattenValue (pointer key : Str) : ∀ value : JsonValue,
    (∀ nested, value = .obj nested → KeysOnce nested) → ((flattenValue pointer key value).map Claim.pointer).Nodup
  | .obj members, h => by
    have hnodup := nodup_flattenClaims pointer members (h members rfl)
    rw [flattenValue]
    split
    · exact List.nodup_singleton _
    · next claim claims hclaims =>
      rw [hclaims] at hnodup
      exact hnodup
  | .null, _ | .bool _, _ | .int _, _ | .float _, _ | .str _, _ | .arr _, _ => List.nodup_singleton _

end

theorem ok_bind {α β : Type} {x : Except Raised α} {a : α} (h : x = .ok a) (f : α → Except Raised β) :
    (x >>= f) = f a := by
  rw [h]
  rfl

theorem toField_text {low : ℕ} {s : Str} {field : TextField low} (h : toField low s = .ok field) : field.text = s := by
  unfold toField at h
  split at h
  · exact congrArg TextField.text (Except.ok.inj h).symm
  · cases h

theorem toHexField_text {s : Str} {field : HexField} (h : toHexField s = .ok field) : field.text = s := by
  unfold toHexField at h
  split at h
  · exact congrArg HexField.text (Except.ok.inj h).symm
  · cases h

theorem toField_ok {low : ℕ} {s : Str} (hplain : Plain s) (hlong : low ≤ s.length) :
    toField low s = .ok ⟨s, hplain, hlong⟩ := dif_pos ⟨hplain, hlong⟩

theorem toHexField_ok {s : Str} (hplain : Plain s) (hlength : s.length = 64) :
    toHexField s = .ok ⟨s, hplain, hlength⟩ := dif_pos ⟨hplain, hlength⟩

def Commits (d : ClaimDisclosure) : Prop := ∃ payload,
  canonicalJson (.arr [.str d.salt.text, .str d.claimName.text, d.claimValue]) = .ok payload ∧
    d.commitment.text = hex (sha256 payload).bytes

theorem Commits.makeCommitment {d : ClaimDisclosure} (h : Commits d) :
    makeCommitment d.salt.text d.claimName.text d.claimValue = .ok d.commitment.text := by
  obtain ⟨payload, hpayload, hhex⟩ := h
  unfold SelectiveDisclosure.makeCommitment
  rw [ok_bind hpayload, hhex]
  rfl

theorem Commits.isAscii {d : ClaimDisclosure} (h : Commits d) : isAscii d.commitment.text = true := by
  obtain ⟨payload, -, hhex⟩ := h
  rw [hhex]
  exact isAscii_of_visible (visible_hex _)

theorem commits_of_make {salt name : Str} {value : JsonValue} {commitment : Str}
    (h : makeCommitment salt name value = .ok commitment) : ∃ payload,
      canonicalJson (.arr [.str salt, .str name, value]) = .ok payload ∧ commitment = hex (sha256 payload).bytes := by
  obtain ⟨payload, hpayload, hrest⟩ := bind_ok h
  exact ⟨payload, hpayload, (Except.ok.inj hrest).symm⟩

theorem commits_of_disclose {salt : SaltBytes} {claim : Claim} {d : ClaimDisclosure}
    (h : disclose salt claim = .ok d) : Commits d ∧ d.claim = claim := by
  obtain ⟨commitmentHex, hmake, h⟩ := bind_ok h
  obtain ⟨pointer, hpointer, h⟩ := bind_ok h
  obtain ⟨name, hname, h⟩ := bind_ok h
  obtain ⟨saltField, hsalt, h⟩ := bind_ok h
  obtain ⟨commitment, hcommitment, h⟩ := bind_ok h
  obtain rfl := Except.ok.inj h
  obtain ⟨payload, hpayload, hhex⟩ := commits_of_make hmake
  have hpointer := toField_text hpointer
  have hname := toField_text hname
  have hsalt := toField_text hsalt
  have hcommitment := toHexField_text hcommitment
  refine ⟨⟨payload, ?_, hcommitment.trans hhex⟩, ?_⟩
  · rw [hsalt, hname]
    exact hpayload
  · unfold ClaimDisclosure.claim
    rw [hpointer, hname]

theorem discloseAll_ok {salts : ℕ → SaltBytes} {claims : List Claim} {ds : List ClaimDisclosure}
    (h : discloseAll salts claims = .ok ds) : (∀ d ∈ ds, Commits d) ∧ ds.map ClaimDisclosure.claim = claims := by
  induction claims generalizing salts ds with
  | nil =>
    obtain rfl := Except.ok.inj h
    exact ⟨List.forall_mem_nil _, rfl⟩
  | cons claim claims ih =>
    obtain ⟨d, hd, h⟩ := bind_ok h
    obtain ⟨rest, hrest, h⟩ := bind_ok h
    obtain rfl := Except.ok.inj h
    obtain ⟨hcommits, hclaim⟩ := commits_of_disclose hd
    obtain ⟨hall, hclaims⟩ := ih hrest
    refine ⟨List.forall_mem_cons.mpr ⟨hcommits, hall⟩, ?_⟩
    rw [List.map_cons, hclaim, hclaims]

theorem recomputes_of_commits {ds : List ClaimDisclosure} (h : ∀ d ∈ ds, Commits d) : recomputes ds = .ok true := by
  induction ds with
  | nil => rfl
  | cons d ds ih =>
    obtain ⟨hd, hds⟩ := List.forall_mem_cons.mp h
    have hcompare : compareDigest d.commitment.text d.commitment.text = .ok true := by
      rw [compareDigest_ascii hd.isAscii hd.isAscii, decide_eq_true rfl]
    unfold recomputes
    rw [ok_bind hd.makeCommitment, ok_bind hcompare, if_pos rfl]
    exact ih hds

def LeavesOf (ds : List ClaimDisclosure) (leaves : List Bytes) : Prop := (hexes ds).mapM hashLeaf = .ok leaves

theorem merkle_ok {hs : List Str} {rootHex : Str} {proofs : List (List Str)}
    (h : merkleRootAndProofs hs = .ok (rootHex, proofs)) : hs ≠ [] ∧ ∃ leaves, hs.mapM hashLeaf = .ok leaves ∧
      rootHex = hex (rootOf leaves) ∧ proofs = (List.range leaves.length).map (proofOf leaves) := by
  unfold merkleRootAndProofs at h
  split at h
  · cases h
  · next hne =>
    obtain ⟨leaves, hleaves, h⟩ := bind_ok h
    obtain ⟨rfl, rfl⟩ := Prod.mk.inj (Except.ok.inj h)
    exact ⟨hne, leaves, hleaves, rfl, rfl⟩

theorem length_leaves {hs : List Str} {leaves : List Bytes} (h : hs.mapM hashLeaf = .ok leaves) :
    leaves.length = hs.length := ((mapM_ok_iff _ _ _).mp h).length_eq.symm

theorem climbSiblings_hex (current : Bytes) (idx width : ℤ) (path : List Bytes) :
    climbSiblings current idx width (path.map hex) = .ok (DuplicateTree.walk hashPair current idx width path) := by
  induction path generalizing current idx width with
  | nil => rfl
  | cons sibling rest ih =>
    have hsibling : raising (fromhex (hex sibling)) = .ok sibling := by rw [fromhex_hex, raising_ok]
    rw [List.map_cons, climbSiblings, ok_bind hsibling, DuplicateTree.walk]
    cases DuplicateTree.stepPair current sibling idx width with
    | none => rfl
    | some p => exact ih _ _ _

theorem leaf_at {hs : List Str} {leaves : List Bytes} (h : hs.mapM hashLeaf = .ok leaves) {i : ℕ} {c : Str}
    (hi : hs[i]? = some c) : ∃ leaf, leaves[i]? = some leaf ∧ hashLeaf c = .ok leaf := by
  obtain ⟨hbound, hc⟩ := List.getElem?_eq_some_iff.mp hi
  have hbound' : i < leaves.length := by rw [length_leaves h]; exact hbound
  have hleaf := ((mapM_ok_iff _ _ _).mp h).get hbound hbound'
  rw [List.get_eq_getElem, List.get_eq_getElem, hc] at hleaf
  exact ⟨_, List.getElem?_eq_getElem hbound', hleaf⟩

theorem inclusion_ok {hs : List Str} {leaves : List Bytes} (h : hs.mapM hashLeaf = .ok leaves) {i : ℕ} {c : Str}
    (hi : hs[i]? = some c) :
    verifyMerkleInclusion c i hs.length (proofOf leaves i) (hex (rootOf leaves)) = .ok true := by
  obtain ⟨leaf, hleaf, hhash⟩ := leaf_at h hi
  obtain ⟨root, hclimb, hwalk⟩ := @DuplicateTree.walk_inclusionPath _ hashPair _ leaves.length _ _ _ hleaf
    (Nat.le_succ _)
  have hroot : rootOf leaves = root := by
    unfold rootOf
    rw [hclimb]
    rfl
  unfold verifyMerkleInclusion proofOf
  rw [ok_bind hhash, climbSiblings_hex, ← length_leaves h, hwalk, hroot]
  exact congrArg Except.ok (decide_eq_true rfl)

section Issuance

variable {rt : IssuerRuntime} {call : IssueCall} {salts : ℕ → SaltBytes} {base : BaseProof}

structure SignedBy (rt : IssuerRuntime) (call : IssueCall) (rootHex : Str) (provider : SignatureProvider)
    (key : SignatureKeyPair) (root signatureBytes : Bytes) : Prop where
  provider_eq : rt.providers call.algorithm = .ok provider
  key_eq : issuerKey rt call = .ok key
  root_eq : fromhex rootHex = .ok root
  sign_eq : provider.sign (signingInput root call.header) key = .ok signatureBytes

structure Issued (rt : IssuerRuntime) (call : IssueCall) (base : BaseProof) : Prop where
  commits : ∀ d ∈ base.commitments, Commits d
  claims : base.commitments.map ClaimDisclosure.claim = call.credentialSubject.claims
  tree : ∃ proofs, merkleRootAndProofs (hexes base.commitments) = .ok (base.merkleRoot.text, proofs)
  algorithm : base.algorithm = call.algorithm
  header : base.header.text = headerText call.header
  signed : ∃ provider key root signatureBytes,
    SignedBy rt call base.merkleRoot.text provider key root signatureBytes ∧
      base.issuerPublicKey.text = b64url key.publicKey ∧ base.signature.text = b64url signatureBytes

theorem raising_inj {α : Type} {x : Except PyErr α} {a : α} (h : raising x = .ok a) : x = .ok a := by
  cases x with
  | error e => cases h
  | ok b => rw [Except.ok.inj h]

theorem signBase_ok {commitments : List ClaimDisclosure} {rootHex : Str}
    (h : signBase rt call commitments rootHex = .ok base) : base.commitments = commitments ∧
      base.merkleRoot.text = rootHex ∧ base.algorithm = call.algorithm ∧ base.header.text = headerText call.header ∧
      ∃ provider key root signatureBytes, SignedBy rt call rootHex provider key root signatureBytes ∧
        base.issuerPublicKey.text = b64url key.publicKey ∧ base.signature.text = b64url signatureBytes := by
  obtain ⟨provider, hprovider, h⟩ := bind_ok h
  obtain ⟨key, hkey, h⟩ := bind_ok h
  obtain ⟨root, hroot, h⟩ := bind_ok h
  obtain ⟨signatureBytes, hsign, h⟩ := bind_ok h
  obtain ⟨cryptosuite, -, h⟩ := bind_ok h
  obtain ⟨issuerPublicKey, hpublic, h⟩ := bind_ok h
  obtain ⟨issuerKeyId, -, h⟩ := bind_ok h
  obtain ⟨merkleRoot, hmerkle, h⟩ := bind_ok h
  obtain ⟨signature, hsignature, h⟩ := bind_ok h
  obtain ⟨header, hheader, h⟩ := bind_ok h
  obtain rfl := Except.ok.inj h
  exact ⟨rfl, toHexField_text hmerkle, rfl, toField_text hheader, provider, key, root, signatureBytes,
    ⟨hprovider, hkey, raising_inj hroot, hsign⟩, toField_text hpublic, toField_text hsignature⟩

theorem issue_ok (h : issueCredential rt call salts = .ok base) : ∃ rootHex proofs,
    call.credentialSubject.members ≠ [] ∧ call.credentialSubject.claims ≠ [] ∧
      discloseAll salts call.credentialSubject.claims = .ok base.commitments ∧
      merkleRootAndProofs (hexes base.commitments) = .ok (rootHex, proofs) ∧
      signBase rt call base.commitments rootHex = .ok base := by
  unfold issueCredential at h
  split at h
  · cases h
  · next hmembers =>
    split at h
    · cases h
    · next hclaims =>
      obtain ⟨commitments, hdisclose, h⟩ := bind_ok h
      obtain ⟨⟨rootHex, proofs⟩, htree, hsign⟩ := bind_ok h
      obtain ⟨rfl, -⟩ := signBase_ok hsign
      exact ⟨rootHex, proofs, hmembers, hclaims, hdisclose, htree, hsign⟩

theorem issued_of_ok (h : issueCredential rt call salts = .ok base) : Issued rt call base := by
  obtain ⟨rootHex, proofs, -, -, hdisclose, htree, hsign⟩ := issue_ok h
  obtain ⟨-, rfl, halgorithm, hheader, hsigned⟩ := signBase_ok hsign
  obtain ⟨hcommits, hclaims⟩ := discloseAll_ok hdisclose
  exact ⟨hcommits, hclaims, ⟨proofs, htree⟩, halgorithm, hheader, hsigned⟩

def Trusted (rt : IssuerRuntime) (call : IssueCall) : Prop := ∀ provider key message signature,
  rt.providers call.algorithm = .ok provider → issuerKey rt call = .ok key →
    provider.sign message key = .ok signature → provider.verify message signature key.publicKey = .ok true

theorem Issued.signedRoot_ok (h : Issued rt call base) (htrusted : Trusted rt call) :
    signedRoot rt base.algorithm base.issuerPublicKey.text base.signature.text base.merkleRoot.text call.header =
      .ok true := by
  obtain ⟨provider, key, root, signatureBytes, hsigned, hpublic, hsignature⟩ := h.signed
  have hroot : raising (fromhex base.merkleRoot.text) = .ok root := by rw [hsigned.root_eq, raising_ok]
  unfold signedRoot
  rw [hpublic, hsignature, ok_bind (b64urlDecode_b64url _), ok_bind (b64urlDecode_b64url _), ok_bind hroot,
    h.algorithm, ok_bind hsigned.provider_eq]
  exact htrusted provider key _ _ hsigned.provider_eq hsigned.key_eq hsigned.sign_eq

theorem Issued.verifies (h : Issued rt call base) (htrusted : Trusted rt call) (hheader : call.header = []) :
    verifyBaseProof rt base = .ok true := by
  obtain ⟨proofs, htree⟩ := h.tree
  obtain ⟨-, leaves, -, hroot, -⟩ := merkle_ok htree
  have hascii : isAscii base.merkleRoot.text = true := by
    rw [hroot]
    exact isAscii_of_visible (visible_hex _)
  have hcompare : compareDigest base.merkleRoot.text base.merkleRoot.text = .ok true := by
    rw [compareDigest_ascii hascii hascii, decide_eq_true rfl]
  have hempty : utf8 base.header.text = call.header := by
    rw [h.header, hheader]
    rfl
  have hchecks : baseChecks rt base = .ok true := by
    unfold baseChecks
    rw [ok_bind (recomputes_of_commits h.commits), if_pos rfl, ok_bind htree]
    change (compareDigest base.merkleRoot.text base.merkleRoot.text >>= _) = _
    rw [ok_bind hcompare, if_pos rfl, hempty]
    exact h.signedRoot_ok htrusted
  unfold verifyBaseProof
  rw [hchecks]
  rfl

theorem plain_decodeIgnoring (rounds : ℕ) (bs : Bytes) : Plain (decodeIgnoring rounds bs) := by
  induction rounds generalizing bs with
  | zero => exact List.forall_mem_nil _
  | succ rounds ih =>
    cases bs with
    | nil => exact List.forall_mem_nil _
    | cons b bs =>
      unfold decodeIgnoring
      split
      · exact ih bs
      · next n rest hdecode =>
        split
        · next hencode =>
          obtain ⟨head, hhead, -⟩ := Option.map_eq_some_iff.mp hencode
          have hone : utf8Encode [Fin.ofNat 0x110000 n] = .ok (head ++ []) := by simp only [utf8Encode, hhead]
          exact PyRepr.Plain.cons (PyRepr.plain_of_utf8Encode hone _ List.mem_cons_self) (ih rest)
        · exact ih bs

theorem plain_hex (bs : Bytes) : Plain (hex bs) := plain_of_isAscii (isAscii_of_visible (visible_hex bs))

theorem plain_bindingOf (root header : Bytes) : Plain (bindingOf root header) := plain_hex _

theorem length_bindingOf (root header : Bytes) : (bindingOf root header).length = 64 := by
  unfold bindingOf
  rw [hex_length, Digest.length_eq]

theorem nodup_pointers (h : Issued rt call base) :
    (base.commitments.map fun c => c.claimPointer.text).Nodup := by
  have hnodup := nodup_flattenClaims [] _ call.credentialSubject.keysOnce
  change (call.credentialSubject.claims.map Claim.pointer).Nodup at hnodup
  rw [← h.claims, List.map_map] at hnodup
  exact hnodup

theorem lookUp_ok (h : Issued rt call base) {pointer : Str}
    (hpointer : ∃ c ∈ call.credentialSubject.claims, c.pointer = pointer) :
    ∃ place, lookUp base pointer = .ok place ∧ base.commitments[place.1]? = some place.2 ∧
      place.2.claimPointer.text = pointer := by
  obtain ⟨c, hc, rfl⟩ := hpointer
  rw [← h.claims] at hc
  obtain ⟨d, hd, rfl⟩ := List.mem_map.mp hc
  obtain ⟨i, hi⟩ := List.mem_iff_getElem?.mp hd
  have hkeys : ((base.commitments.zipIdx.map fun c => (c.1.claimPointer.text, c.2)).map Prod.fst).Nodup := by
    have hfirst := nodup_pointers h
    rw [← List.zipIdx_map_fst 0 base.commitments, List.map_map] at hfirst
    rw [List.map_map]
    exact hfirst
  have hmem : (d.claimPointer.text, i) ∈ base.commitments.zipIdx.map fun c => (c.1.claimPointer.text, c.2) :=
    List.mem_map.mpr ⟨(d, i), List.mem_zipIdx_iff_getElem?.mpr hi, rfl⟩
  have hget : (pointerToIndex base).get? d.claimPointer.text = some i := Dict.get?_ofItems_of_nodup hkeys hmem
  refine ⟨(i, d), ?_, hi, rfl⟩
  change lookUp base d.claimPointer.text = _
  simp only [lookUp, hget, hi]

variable {pointers : List Str}

theorem lookUps_ok (h : Issued rt call base)
    (hpointers : ∀ p ∈ pointers, ∃ c ∈ call.credentialSubject.claims, c.pointer = p) :
    ∃ found, pointers.mapM (lookUp base) = .ok found ∧ List.Forall₂ (fun p place =>
      base.commitments[place.1]? = some place.2 ∧ place.2.claimPointer.text = p) pointers found := by
  induction pointers with
  | nil => exact ⟨[], rfl, .nil⟩
  | cons p pointers ih =>
    obtain ⟨hp, hrest⟩ := List.forall_mem_cons.mp hpointers
    obtain ⟨place, hplace, hfound⟩ := lookUp_ok h hp
    obtain ⟨found, hmap, hall⟩ := ih hrest
    refine ⟨place :: found, ?_, .cons hfound hall⟩
    rw [List.mapM_cons, ok_bind hplace, ok_bind hmap]
    rfl

/-- What a derived proof holds; `found` are the places and the disclosures of the pointers. -/
structure DerivedFrom (base : BaseProof) (found : List (ℕ × ClaimDisclosure)) (leaves : List Bytes) (header : Bytes)
    (derived : DerivedProof) : Prop where
  algorithm : derived.algorithm = base.algorithm
  issuerPublicKey : derived.issuerPublicKey.text = base.issuerPublicKey.text
  signature : derived.baseSignature.text = base.signature.text
  merkleRoot : derived.merkleRoot = base.merkleRoot
  revealed : derived.revealed = found.map Prod.snd
  indices : derived.revealedIndices = found.map fun place => (place.1 : ℤ)
  chains : derived.merkleInclusionProofs = found.map fun place => proofOf leaves place.1
  totalLeaves : derived.totalLeaves = base.commitments.length
  binding : ∃ root, fromhex base.merkleRoot.text = .ok root ∧
    derived.presentationBinding.text = bindingOf root header

theorem Issued.fromhex_root (h : Issued rt call base) : ∃ root, fromhex base.merkleRoot.text = .ok root := by
  obtain ⟨provider, key, root, signatureBytes, hsigned, -, -⟩ := h.signed
  exact ⟨root, hsigned.root_eq⟩

theorem Issued.leaves (h : Issued rt call base) : ∃ leaves, 0 < base.commitments.length ∧
    LeavesOf base.commitments leaves ∧ base.merkleRoot.text = hex (rootOf leaves) ∧
      merkleRootAndProofs (hexes base.commitments) =
        .ok (base.merkleRoot.text, (List.range leaves.length).map (proofOf leaves)) := by
  obtain ⟨proofs, htree⟩ := h.tree
  obtain ⟨hne, leaves, hleaves, hroot, rfl⟩ := merkle_ok htree
  exact ⟨leaves, List.length_pos_iff.mpr fun hnil => hne (congrArg hexes hnil), hleaves, hroot, htree⟩

theorem place_of_lookUp {pointer : Str} {place : ℕ × ClaimDisclosure} (h : lookUp base pointer = .ok place) :
    base.commitments[place.1]? = some place.2 := by
  unfold lookUp at h
  split at h
  · cases h
  · next idx _ =>
    split at h
    · cases h
    · next disclosure hdisclosure =>
      obtain rfl := Except.ok.inj h
      exact hdisclosure

variable {found : List (ℕ × ClaimDisclosure)}

theorem places_of_lookUps
    (h : pointers.mapM (lookUp base) = .ok found) : ∀ place ∈ found, base.commitments[place.1]? = some place.2 := by
  have hall := (mapM_ok_iff _ _ _).mp h
  induction hall with
  | nil => exact List.forall_mem_nil _
  | cons hplace _ ih =>
    refine List.forall_mem_cons.mpr ⟨place_of_lookUp hplace, ih ?_⟩
    exact (mapM_ok_iff _ _ _).mpr (by assumption)

theorem chains_eq {leaves : List Bytes} (hleaves : LeavesOf base.commitments leaves)
    (hfound : ∀ place ∈ found, base.commitments[place.1]? = some place.2) :
    (found.map fun place => (((List.range leaves.length).map (proofOf leaves))[place.1]?).getD []) =
      found.map fun place => proofOf leaves place.1 := by
  refine List.map_congr_left fun place hplace => ?_
  have hbound := (List.getElem?_eq_some_iff.mp (hfound place hplace)).1
  have hsame := length_leaves hleaves
  rw [hexes, List.length_map] at hsame
  rw [List.getElem?_map, List.getElem?_range (by omega)]
  rfl

variable {derived : DerivedProof}

theorem derivedFrom_of_ok (h : Issued rt call base) {leaves : List Bytes} (hleaves : LeavesOf base.commitments leaves)
    {header : Bytes} (hderive : derivePresentation base pointers header = .ok derived) : ∃ found,
      pointers.mapM (lookUp base) = .ok found ∧ DerivedFrom base found leaves header derived := by
  obtain ⟨leaves', -, hleaves', -, htree⟩ := h.leaves
  obtain rfl := Except.ok.inj (hleaves'.symm.trans hleaves)
  obtain ⟨found, hmap, hderive⟩ := bind_ok hderive
  rw [ok_bind htree] at hderive
  obtain ⟨root, hroot, hderive⟩ := bind_ok hderive
  obtain ⟨headerField, -, hderive⟩ := bind_ok hderive
  obtain ⟨binding, hbinding, hderive⟩ := bind_ok hderive
  split at hderive
  · obtain rfl := Except.ok.inj hderive
    exact ⟨found, hmap, rfl, rfl, rfl, rfl, rfl, rfl, chains_eq hleaves' (places_of_lookUps hmap), rfl, root,
      raising_inj hroot, toHexField_text hbinding⟩
  · cases hderive

theorem exists_derived (h : Issued rt call base)
    (hmap : pointers.mapM (lookUp base) = .ok found) (header : Bytes) :
    ∃ derived, derivePresentation base pointers header = .ok derived := by
  obtain ⟨leaves, hsome, -, -, htree⟩ := h.leaves
  obtain ⟨root, hroot⟩ := h.fromhex_root
  have hraise : raising (fromhex base.merkleRoot.text) = .ok root := by rw [hroot, raising_ok]
  have hheader : toField 0 (headerText header) = .ok _ :=
    toField_ok (plain_decodeIgnoring header.length header) (Nat.zero_le _)
  have hbinding := toHexField_ok (plain_bindingOf root header) (length_bindingOf root header)
  have hpos : 1 ≤ (base.commitments.length : ℤ) := by omega
  unfold derivePresentation
  rw [ok_bind hmap, ok_bind htree]
  dsimp only
  rw [ok_bind hraise, ok_bind hheader, ok_bind hbinding, dif_pos hpos]
  exact ⟨_, rfl⟩

theorem included_ok {leaves : List Bytes} (hleaves : LeavesOf base.commitments leaves)
    (hroot : derived.merkleRoot.text = hex (rootOf leaves)) (htotal : derived.totalLeaves = base.commitments.length)
    (hfound : ∀ place ∈ found, base.commitments[place.1]? = some place.2) :
    included derived (found.map Prod.snd) (found.map fun place => (place.1 : ℤ))
      (found.map fun place => proofOf leaves place.1) = .ok true := by
  induction found with
  | nil => rfl
  | cons place found ih =>
    obtain ⟨hplace, hrest⟩ := List.forall_mem_cons.mp hfound
    have hhex : (hexes base.commitments)[place.1]? = some place.2.commitment.text := by
      rw [hexes, List.getElem?_map, hplace]
      rfl
    have hincluded := inclusion_ok hleaves hhex
    rw [hexes, List.length_map, ← htotal, ← hroot] at hincluded
    rw [List.map_cons, List.map_cons, List.map_cons, included, ok_bind hincluded, if_pos rfl]
    exact ih hrest

theorem DerivedFrom.verifies {leaves : List Bytes} {header : Bytes}
    (h : DerivedFrom base found leaves header derived) (hissued : Issued rt call base)
    (hbase : signedRoot rt base.algorithm base.issuerPublicKey.text base.signature.text base.merkleRoot.text [] =
      .ok true) (hleaves : LeavesOf base.commitments leaves)
    (hfound : ∀ place ∈ found, base.commitments[place.1]? = some place.2) :
    verifyPresentation rt derived (some header) = .ok true := by
  obtain ⟨leaves', -, hleaves', hroot, -⟩ := hissued.leaves
  obtain rfl := Except.ok.inj (hleaves'.symm.trans hleaves)
  have hcommits : ∀ d ∈ derived.revealed, Commits d := by
    intro d hd
    rw [h.revealed] at hd
    obtain ⟨place, hplace, rfl⟩ := List.mem_map.mp hd
    exact hissued.commits _ (List.mem_of_getElem? (hfound place hplace))
  have hlengths : ¬ derived.merkleInclusionProofs.length ≠ derived.revealed.length := by
    rw [h.chains, h.revealed, List.length_map, List.length_map]
    exact not_not_intro rfl
  have hincluded : included derived derived.revealed derived.revealedIndices derived.merkleInclusionProofs =
      .ok true := by
    rw [h.revealed, h.indices, h.chains]
    refine included_ok hleaves' ?_ h.totalLeaves hfound
    rw [h.merkleRoot]
    exact hroot
  have hsigned : signedRoot rt derived.algorithm derived.issuerPublicKey.text derived.baseSignature.text
      derived.merkleRoot.text [] = .ok true := by
    rw [h.algorithm, h.issuerPublicKey, h.signature, h.merkleRoot]
    exact hbase
  have hbound : boundTo derived (some header) = .ok true := by
    obtain ⟨root, hfromhex, hbinding⟩ := h.binding
    have hraise : raising (fromhex derived.merkleRoot.text) = .ok root := by rw [h.merkleRoot, hfromhex, raising_ok]
    have hascii : isAscii (bindingOf root header) = true := isAscii_of_visible (visible_hex _)
    unfold boundTo
    dsimp only
    rw [ok_bind hraise, hbinding, compareDigest_ascii hascii hascii, decide_eq_true rfl]
  unfold verifyPresentation presentationChecks
  rw [ok_bind (recomputes_of_commits hcommits), if_pos rfl, if_neg hlengths, ok_bind hincluded, if_pos rfl,
    ok_bind hsigned, if_pos rfl, hbound]
  rfl

def Reveals (subject : CredentialSubject) (pointers : List Str) (derived : DerivedProof) : Prop :=
  List.Forall₂ (fun p d => d.claim ∈ subject.claims ∧ d.claim.pointer = p) pointers derived.revealed

def Complete (rt : IssuerRuntime) (call : IssueCall) : Prop := ∀ salts base, issueCredential rt call salts = .ok base →
  verifyBaseProof rt base = .ok true ∧ (call.credentialSubject.claims.map Claim.pointer).Nodup ∧
    ∀ pointers presentationHeader, (∀ p ∈ pointers, ∃ c ∈ call.credentialSubject.claims, c.pointer = p) →
      ∃ derived, derivePresentation base pointers presentationHeader = .ok derived ∧
        verifyPresentation rt derived (some presentationHeader) = .ok true ∧
        Reveals call.credentialSubject pointers derived

theorem reveals_of_found (h : Issued rt call base)
    (hfound : List.Forall₂ (fun p place => base.commitments[place.1]? = some place.2 ∧
      place.2.claimPointer.text = p) pointers found)
    (hrevealed : derived.revealed = found.map Prod.snd) : Reveals call.credentialSubject pointers derived := by
  unfold Reveals
  rw [hrevealed, List.forall₂_map_right_iff]
  refine hfound.imp fun p place hplace => ⟨?_, hplace.2⟩
  rw [← h.claims]
  exact List.mem_map_of_mem (List.mem_of_getElem? hplace.1)

theorem complete_of_empty_header (htrusted : Trusted rt call) (hempty : call.header = []) : Complete rt call := by
  intro salts base hissue
  have hissued := issued_of_ok hissue
  obtain ⟨leaves, -, hleaves, -, -⟩ := hissued.leaves
  refine ⟨hissued.verifies htrusted hempty, nodup_flattenClaims [] _ call.credentialSubject.keysOnce, ?_⟩
  intro pointers presentationHeader hpointers
  obtain ⟨found, hmap, hfound⟩ := lookUps_ok hissued hpointers
  obtain ⟨derived, hderive⟩ := exists_derived hissued hmap presentationHeader
  obtain ⟨found', hmap', hfrom⟩ := derivedFrom_of_ok hissued hleaves hderive
  obtain rfl := Except.ok.inj (hmap.symm.trans hmap')
  have hbase := hissued.signedRoot_ok htrusted
  rw [hempty] at hbase
  exact ⟨derived, hderive, hfrom.verifies hissued hbase hleaves (places_of_lookUps hmap),
    reveals_of_found hissued hfound hfrom.revealed⟩

def echoProviders : Providers := fun _ => .ok {
  sign := fun message _ => .ok message
  verify := fun message signature _ => .ok (decide (signature = message)) }

def echoing (rt : IssuerRuntime) : IssuerRuntime := { rt with providers := echoProviders }

theorem trusted_echoing : Trusted (echoing rt) call := by
  intro provider key message signature hprovider _ hsign
  obtain rfl := Except.ok.inj hprovider
  obtain rfl := Except.ok.inj hsign
  exact congrArg Except.ok (decide_eq_true rfl)

theorem plain_b64url (bytes : Bytes) : Plain (b64url bytes) := plain_of_isAscii (Enforcement.isAscii_b64url bytes)

theorem length_b64url {bytes : Bytes} (h : bytes ≠ []) : 1 ≤ (b64url bytes).length := by
  have hpos := List.length_pos_iff.mpr h
  unfold Enforcement.b64url
  rw [UrlBase64.length_encode]
  omega

theorem signingInput_ne_nil (root header : Bytes) : signingInput root header ≠ [] := by
  unfold signingInput
  exact List.append_ne_nil_of_right_ne_nil _ (List.cons_ne_nil _ _)

theorem issue_echoing (h : issueCredential rt call salts = .ok base) :
    ∃ base', issueCredential (echoing rt) call salts = .ok base' := by
  obtain ⟨rootHex, proofs, hmembers, hclaims, hdisclose, htree, hsign⟩ := issue_ok h
  obtain ⟨provider, -, hsign⟩ := bind_ok hsign
  obtain ⟨key, hkey, hsign⟩ := bind_ok hsign
  obtain ⟨root, hroot, hsign⟩ := bind_ok hsign
  obtain ⟨signatureBytes, -, hsign⟩ := bind_ok hsign
  obtain ⟨cryptosuite, hcryptosuite, hsign⟩ := bind_ok hsign
  obtain ⟨issuerPublicKey, hpublic, hsign⟩ := bind_ok hsign
  obtain ⟨issuerKeyId, hkeyId, hsign⟩ := bind_ok hsign
  obtain ⟨merkleRoot, hmerkle, hsign⟩ := bind_ok hsign
  obtain ⟨signature, -, hsign⟩ := bind_ok hsign
  obtain ⟨header, hheader, hsign⟩ := bind_ok hsign
  have hechoed : toField 1 (b64url (signingInput root call.header)) = .ok _ :=
    toField_ok (plain_b64url _) (length_b64url (signingInput_ne_nil root call.header))
  have hprovider : (echoing rt).providers call.algorithm = .ok _ := rfl
  have hkey' : issuerKey (echoing rt) call = .ok key := hkey
  unfold issueCredential
  rw [if_neg hmembers, if_neg hclaims, ok_bind hdisclose, ok_bind htree]
  dsimp only
  unfold signBase
  rw [ok_bind hprovider, ok_bind hkey', ok_bind hroot]
  dsimp only
  rw [ok_bind rfl, ok_bind hcryptosuite, ok_bind hpublic, ok_bind hkeyId, ok_bind hmerkle, ok_bind hechoed,
    ok_bind hheader]
  exact ⟨_, rfl⟩

theorem checks_of_failClosed {x : Except Raised Bool} (h : failClosed x = .ok true) : x = .ok true := by
  unfold failClosed at h
  split at h
  · exact h
  · split at h
    · cases h
    · cases h

theorem of_bind_ite {x : Except Raised Bool} {y : Except Raised Bool}
    (h : (x >>= fun b => if b then y else pure false) = .ok true) : x = .ok true ∧ y = .ok true := by
  obtain ⟨b, hb, h⟩ := bind_ok h
  cases b with
  | false => cases h
  | true => exact ⟨hb, h⟩

structure Accepted (rt : IssuerRuntime) (derived : DerivedProof) (expected : Option Bytes) : Prop where
  recomputed : recomputes derived.revealed = .ok true
  included : included derived derived.revealed derived.revealedIndices derived.merkleInclusionProofs = .ok true
  signed : signedRoot rt derived.algorithm derived.issuerPublicKey.text derived.baseSignature.text
    derived.merkleRoot.text [] = .ok true
  bound : boundTo derived expected = .ok true

theorem accepted_of_verified {expected : Option Bytes}
    (h : verifyPresentation rt derived expected = .ok true) : Accepted rt derived expected := by
  obtain ⟨hrecomputed, h⟩ := of_bind_ite (checks_of_failClosed h)
  split at h
  · cases h
  · obtain ⟨hincluded, h⟩ := of_bind_ite h
    obtain ⟨hsigned, hbound⟩ := of_bind_ite h
    exact ⟨hrecomputed, hincluded, hsigned, hbound⟩

theorem not_complete_of_header (hissue : issueCredential rt call salts = .ok base) (hheader : call.header ≠ []) :
    ¬ Complete (echoing rt) call := by
  intro hcomplete
  obtain ⟨base', hissue'⟩ := issue_echoing hissue
  have hissued := issued_of_ok hissue'
  obtain ⟨leaves, -, hleaves, -, -⟩ := hissued.leaves
  obtain ⟨derived, hderive, hverify, -⟩ := (hcomplete salts base' hissue').2.2 [] [] (List.forall_mem_nil _)
  obtain ⟨found, -, hfrom⟩ := derivedFrom_of_ok hissued hleaves hderive
  obtain ⟨provider, key, root, signatureBytes, hsigned, hpublic, hsignature⟩ := hissued.signed
  have hroot : raising (fromhex base'.merkleRoot.text) = .ok root := by rw [hsigned.root_eq, raising_ok]
  have haccepted := (accepted_of_verified hverify).signed
  unfold signedRoot at haccepted
  rw [hfrom.algorithm, hfrom.issuerPublicKey, hfrom.signature, hfrom.merkleRoot, hpublic, hsignature,
    ok_bind (b64urlDecode_b64url _), ok_bind (b64urlDecode_b64url _), ok_bind hroot, hissued.algorithm,
    ok_bind hsigned.provider_eq] at haccepted
  obtain rfl := Except.ok.inj hsigned.provider_eq
  obtain rfl := Except.ok.inj hsigned.sign_eq
  have hsame := of_decide_eq_true (Except.ok.inj haccepted)
  unfold signingInput at hsame
  exact hheader (List.cons.inj (List.append_cancel_left hsame)).2

/-- Disclosure is complete for every provider that verifies what it signed if and only if the
issuance header is empty, or nothing is issued at all. -/
theorem complete_iff_empty_header (call : IssueCall) : (∀ rt, Trusted rt call → Complete rt call) ↔
    call.header = [] ∨ ∀ rt salts base, Trusted rt call → issueCredential rt call salts ≠ .ok base := by
  constructor
  · intro h
    by_contra hneither
    obtain ⟨hheader, hissuable⟩ := not_or.mp hneither
    simp only [not_forall, not_not] at hissuable
    obtain ⟨rt, salts, base, -, hissue⟩ := hissuable
    exact not_complete_of_header hissue hheader (h (echoing rt) trusted_echoing)
  · intro h rt htrusted
    obtain hempty | hnever := h
    · exact complete_of_empty_header htrusted hempty
    · intro salts base hissue
      exact absurd hissue (hnever rt salts base htrusted)

end Issuance

def sampleSubject : CredentialSubject where
  members := [(txt "name", .str (txt "alice")), (txt "age", .int 30)]
  keysOnce := by
    refine ⟨by decide, fun key nested hmem => ?_⟩
    obtain h | h := List.mem_cons.mp hmem
    · cases h
    · cases List.mem_singleton.mp h

def sampleKey : SignatureKeyPair := ⟨.mlDsa65, [1], [1], txt "aid"⟩

def sampleRuntime : IssuerRuntime where
  providers := echoProviders
  generateKeypair _ _ := .ok sampleKey

def sampleCall (header : Bytes) : IssueCall := ⟨sampleSubject, .mlDsa65, some sampleKey, header⟩

def zeroSalts (_ : ℕ) : SaltBytes := ⟨List.replicate 16 0, List.length_replicate⟩

set_option maxRecDepth 2000 in
theorem sample_issued : ∃ base, issueCredential sampleRuntime (sampleCall [7]) zeroSalts = .ok base := by
  have hok : (match issueCredential sampleRuntime (sampleCall [7]) zeroSalts with
      | .ok _ => true
      | .error _ => false) = true := by
    decide
  split at hok
  · next base hissue => exact ⟨base, hissue⟩
  · cases hok

/-- A credential with a header is issued, and no presentation of it verifies. -/
theorem header_breaks_presentations : Trusted (echoing sampleRuntime) (sampleCall [7]) ∧
    ¬ Complete (echoing sampleRuntime) (sampleCall [7]) := by
  obtain ⟨base, hissue⟩ := sample_issued
  exact ⟨trusted_echoing, not_complete_of_header hissue (List.cons_ne_nil _ _)⟩

end TexGovernance.Vet.SelectiveDisclosure
