import TexGovernance.Evidence.RecordLines
import TexGovernance.Vet.DisclosureComplete
import TexGovernance.Vet.ReceiptProofs

/-!
# Sound disclosures

The signature of the issuer binds the root, the root the leaves, and a leaf the salt, the name and
the value of its claim.
-/

namespace TexGovernance.Vet.SelectiveDisclosure
open PyStr PyBytes PyCodec JsonLoads JsonText PyValue Sha256 Hmac
open Enforcement (b64url b64urlDecode_b64url)
open Evidence (FloatsRead nesting)
open Pqcrypto Pipeline
open DuplicateTree (walk walked climb climbed)

def orEmpty {ε : Type} (x : Except ε Bytes) : Bytes := x.toOption.getD []

def payloadOf (d : ClaimDisclosure) : Bytes :=
  orEmpty (canonicalJson (.arr [.str d.salt.text, .str d.claimName.text, d.claimValue]))

def leafInput (d : ClaimDisclosure) : Bytes := 0 :: orEmpty (fromhex d.commitment.text)

def leafOf (d : ClaimDisclosure) : Bytes := (sha256 (leafInput d)).bytes

def nodeInput (p : Bytes × Bytes) : Bytes := 1 :: p.1 ++ p.2

def leafInputs (ds : List ClaimDisclosure) : List Bytes := ds.flatMap fun d => [payloadOf d, leafInput d]

def treePairs (ds : List ClaimDisclosure) : List (Bytes × Bytes) :=
  climbed Prod.mk (Function.uncurry hashPair) (ds.map leafOf).length (ds.map leafOf)

def siblings (chain : List Str) : List Bytes := chain.map fun s => orEmpty (fromhex s)

def pathPairs (total : ℤ) (d : ClaimDisclosure) (leafIndex : ℤ) (chain : List Str) : List (Bytes × Bytes) :=
  walked hashPair (leafOf d) leafIndex total (siblings chain)

def pathsPairs (total : ℤ) : List ClaimDisclosure → List ℤ → List (List Str) → List (Bytes × Bytes)
  | d :: ds, leafIndex :: indices, chain :: chains =>
    pathPairs total d leafIndex chain ++ pathsPairs total ds indices chains
  | _, _, _ => []

def DerivedProof.pairs (derived : DerivedProof) : List (Bytes × Bytes) :=
  pathsPairs derived.totalLeaves derived.revealed derived.revealedIndices derived.merkleInclusionProofs

def DerivedProof.root (derived : DerivedProof) : Bytes := orEmpty (fromhex derived.merkleRoot.text)

def bindingInputs (root header : Bytes) : List Bytes := Hmac.inputs root (tag "AID-PRES-BINDING" ++ header)

theorem orEmpty_ok {ε : Type} (bytes : Bytes) : orEmpty (.ok bytes : Except ε Bytes) = bytes := rfl

theorem commits_of_recomputes {ds : List ClaimDisclosure} (h : recomputes ds = .ok true) : ∀ d ∈ ds, Commits d := by
  induction ds with
  | nil => exact List.forall_mem_nil _
  | cons d ds ih =>
    obtain ⟨expected, hmake, h⟩ := bind_ok h
    obtain ⟨hcompare, hrest⟩ := of_bind_ite h
    obtain ⟨payload, hpayload, hhex⟩ := commits_of_make hmake
    obtain ⟨hsame, -⟩ := compareDigest_true hcompare
    exact List.forall_mem_cons.mpr ⟨⟨payload, hpayload, hsame.symm.trans hhex⟩, ih hrest⟩

theorem Commits.payload {d : ClaimDisclosure} (h : Commits d) :
    canonicalJson (.arr [.str d.salt.text, .str d.claimName.text, d.claimValue]) = .ok (payloadOf d) := by
  obtain ⟨payload, hpayload, -⟩ := h
  unfold payloadOf
  rw [hpayload, orEmpty_ok]

theorem Commits.leafInput_eq {d : ClaimDisclosure} (h : Commits d) :
    fromhex d.commitment.text = .ok (sha256 (payloadOf d)).bytes ∧ leafInput d = 0 :: (sha256 (payloadOf d)).bytes := by
  obtain ⟨payload, hpayload, hhex⟩ := h
  have hsame : payloadOf d = payload := by
    unfold payloadOf
    rw [hpayload, orEmpty_ok]
  unfold leafInput
  rw [hhex, fromhex_hex, orEmpty_ok, hsame]
  exact ⟨rfl, rfl⟩

theorem Commits.hashLeaf {d : ClaimDisclosure} (h : Commits d) : hashLeaf d.commitment.text = .ok (leafOf d) := by
  obtain ⟨hbytes, hinput⟩ := h.leafInput_eq
  have hraise : raising (fromhex d.commitment.text) = .ok (sha256 (payloadOf d)).bytes := by rw [hbytes, raising_ok]
  unfold SelectiveDisclosure.hashLeaf leafOf
  rw [ok_bind hraise, hinput]
  rfl

theorem leaves_of_commits {ds : List ClaimDisclosure} (h : ∀ d ∈ ds, Commits d) : LeavesOf ds (ds.map leafOf) := by
  unfold LeavesOf hexes
  induction ds with
  | nil => rfl
  | cons d ds ih =>
    obtain ⟨hd, hds⟩ := List.forall_mem_cons.mp h
    rw [List.map_cons, List.mapM_cons, ok_bind hd.hashLeaf, ok_bind (ih hds)]
    rfl

theorem parts_of_payload {d d' : ClaimDisclosure} (h : Commits d) (h' : Commits d') (hfloats : FloatsRead d.claimValue)
    (hfloats' : FloatsRead d'.claimValue) (heq : payloadOf d = payloadOf d') :
    d.claimName.text = d'.claimName.text ∧ sortKeys d.claimValue = sortKeys d'.claimValue := by
  obtain ⟨text, hdumps, hencode⟩ := bind_ok h.payload
  obtain ⟨text', hdumps', hencode'⟩ := bind_ok h'.payload
  rw [← heq] at hencode'
  obtain rfl := utf8Encode_inj _ _ _ (raising_inj hencode) (raising_inj hencode')
  have htame {e : ClaimDisclosure} {s : Str} (he : FloatsRead e.claimValue)
      (hs : PyValue.dumps keepChars (.arr [.str e.salt.text, .str e.claimName.text, e.claimValue]) = .ok s) {depth : ℕ}
      (hdepth : nesting (.arr [.str e.salt.text, .str e.claimName.text, e.claimValue]) ≤ depth) :
      Tame depth (sortKeys (.arr [.str e.salt.text, .str e.claimName.text, e.claimValue])) ∧
        JsonText.dumps keepChars (.arr [.str e.salt.text, .str e.claimName.text, e.claimValue]) = s := by
    unfold PyValue.dumps at hs
    split at hs
    · next hshort =>
      have hparts : FloatsRead (.arr [.str e.salt.text, .str e.claimName.text, e.claimValue]) :=
        .arr (List.forall_mem_cons.mpr ⟨.str _, List.forall_mem_cons.mpr ⟨.str _, List.forall_mem_singleton.mpr he⟩⟩)
      exact ⟨tame_sortKeys (hparts.tame hshort hdepth), Except.ok.inj hs⟩
    · cases hs
  obtain ⟨htame₁, htext₁⟩ := htame hfloats hdumps (Nat.le_max_left _ _)
  obtain ⟨htame₂, htext₂⟩ := htame hfloats' hdumps' (Nat.le_max_right _ _)
  have hsame := JsonValue.arr.inj (write_inj htame₁ htame₂ (htext₁.trans htext₂.symm))
  obtain ⟨-, hsame⟩ := List.cons.inj hsame
  obtain ⟨hname, hsame⟩ := List.cons.inj hsame
  obtain ⟨hvalue, -⟩ := List.cons.inj hsame
  exact ⟨JsonValue.str.inj hname, hvalue⟩

theorem walk_of_climb {current top : Bytes} {idx width : ℤ} {chain : List Str}
    (h : climbSiblings current idx width chain = .ok (some top)) :
    walk hashPair current idx width (siblings chain) = some top := by
  induction chain generalizing current idx width with
  | nil => exact Except.ok.inj h
  | cons siblingHex rest ih =>
    obtain ⟨sibling, hsibling, h⟩ := bind_ok h
    have hbytes : siblings (siblingHex :: rest) = sibling :: siblings rest := by
      unfold siblings
      rw [List.map_cons, raising_inj hsibling, orEmpty_ok]
    rw [hbytes, walk]
    split at h
    · cases h
    · next p hstep =>
      rw [hstep]
      exact ih h

theorem walk_of_included {d : ClaimDisclosure} (hcommits : Commits d) {leafIndex total : ℤ} {chain : List Str}
    {rootHex : Str} (h : verifyMerkleInclusion d.commitment.text leafIndex total chain rootHex = .ok true) :
    walk hashPair (leafOf d) leafIndex total (siblings chain) = some (orEmpty (fromhex rootHex)) := by
  unfold verifyMerkleInclusion at h
  rw [ok_bind hcommits.hashLeaf] at h
  obtain ⟨top, htop, h⟩ := bind_ok h
  have hany := Except.ok.inj h
  cases top with
  | none => cases hany
  | some top =>
    obtain rfl := of_decide_eq_true hany
    rw [walk_of_climb htop, fromhex_hex, orEmpty_ok]

theorem walks_of_included {derived : DerivedProof} {ds : List ClaimDisclosure} {indices : List ℤ}
    {chains : List (List Str)} (hcommits : ∀ d ∈ ds, Commits d)
    (h : included derived ds indices chains = .ok true) : List.Forall₂ (fun d leafIndex => ∃ chain,
      walk hashPair (leafOf d) leafIndex derived.totalLeaves (siblings chain) = some derived.root ∧
        ∀ p ∈ pathPairs derived.totalLeaves d leafIndex chain, p ∈ pathsPairs derived.totalLeaves ds indices chains)
      ds indices := by
  induction ds generalizing indices chains with
  | nil =>
    cases indices with
    | nil => exact .nil
    | cons leafIndex indices => cases h
  | cons d ds ih =>
    obtain ⟨hd, hds⟩ := List.forall_mem_cons.mp hcommits
    cases indices with
    | nil => cases h
    | cons leafIndex indices =>
      cases chains with
      | nil => cases h
      | cons chain chains =>
        obtain ⟨hfirst, hrest⟩ := of_bind_ite h
        refine .cons ⟨chain, walk_of_included hd hfirst, fun p hp => List.mem_append_left _ hp⟩ ?_
        refine (ih hds hrest).imp fun d' leafIndex' hwalk => ?_
        obtain ⟨chain', hreach, hpairs⟩ := hwalk
        exact ⟨chain', hreach, fun p hp => List.mem_append_right _ (hpairs p hp)⟩

section Tree

variable {rt : IssuerRuntime} {call : IssueCall} {base : BaseProof} {used : Set Bytes}

theorem isDigest_leafOf (d : ClaimDisclosure) : IsDigest (leafOf d) := (sha256 _).length_eq

theorem isDigest_leaves (ds : List ClaimDisclosure) : ∀ l ∈ ds.map leafOf, IsDigest l := by
  intro l hl
  obtain ⟨d, -, rfl⟩ := List.mem_map.mp hl
  exact isDigest_leafOf d

theorem binds_hashPair (hinj : Set.InjOn sha256 used) :
    DuplicateTree.Binds hashPair IsDigest {p | nodeInput p ∈ used} where
  keeps a b := (sha256 _).length_eq
  left := by
    intro p hp q hq hgood hgood' heq
    have hbytes := (List.cons.inj (hinj hp hq (Digest.ext_bytes _ _ heq))).2
    exact (List.append_inj hbytes (hgood.trans hgood'.symm)).1
  right := by
    intro p hp q hq hgood hgood' heq
    have hbytes := (List.cons.inj (hinj hp hq (Digest.ext_bytes _ _ heq))).2
    exact (List.append_inj' hbytes (hgood.trans hgood'.symm)).2

theorem pair_ne_leaf (hinj : Set.InjOn sha256 used) {p : Bytes × Bytes} {d : ClaimDisclosure}
    (hp : nodeInput p ∈ used) (hd : leafInput d ∈ used) : hashPair p.1 p.2 ≠ leafOf d := by
  intro heq
  have hbytes := hinj hp hd (Digest.ext_bytes _ _ heq)
  exact absurd (List.cons.inj hbytes).1 (by decide)

theorem Issued.climbs (h : Issued rt call base) : ∃ root, IsDigest root ∧ fromhex base.merkleRoot.text = .ok root ∧
    climb Prod.mk (Function.uncurry hashPair) (base.commitments.map leafOf).length (base.commitments.map leafOf) =
      [root] := by
  obtain ⟨leaves, hpos, hleaves, hroot, -⟩ := h.leaves
  obtain rfl := Except.ok.inj (hleaves.symm.trans (leaves_of_commits h.commits))
  have hne : base.commitments.map leafOf ≠ [] := by
    rw [← List.length_pos_iff, List.length_map]
    exact hpos
  obtain ⟨root, hclimb⟩ := DuplicateTree.climb_single Prod.mk (Function.uncurry hashPair) _ _ hne (Nat.le_succ _)
  have hsame : rootOf (base.commitments.map leafOf) = root := by
    unfold rootOf
    rw [hclimb]
    rfl
  refine ⟨root, ?_, by rw [hroot, hsame, fromhex_hex], hclimb⟩
  have hlong := base.merkleRoot.length_eq
  rw [hroot, hsame, hex_length] at hlong
  unfold IsDigest
  omega

theorem claim_of_walk (h : Issued rt call base) (hinj : Set.InjOn sha256 used)
    (hfloats : ∀ d ∈ base.commitments, FloatsRead d.claimValue)
    (hleaves : ∀ x ∈ leafInputs base.commitments, x ∈ used)
    (htree : ∀ p ∈ treePairs base.commitments, nodeInput p ∈ used) {d : ClaimDisclosure} (hcommits : Commits d)
    (hfloat : FloatsRead d.claimValue) (hleaf : ∀ x ∈ leafInputs [d], x ∈ used) {pos : ℕ} {total : ℤ}
    {path : List Bytes} {root : Bytes} (hroot : fromhex base.merkleRoot.text = .ok root)
    (hpos : pos < base.commitments.length) (hwalk : walk hashPair (leafOf d) pos total path = some root)
    (hwalked : ∀ p ∈ DuplicateTree.walked hashPair (leafOf d) pos total path, nodeInput p ∈ used) :
    ∃ own, base.commitments[pos]? = some own ∧ d.claimName.text = own.claimName.text ∧
      sortKeys d.claimValue = sortKeys own.claimValue := by
  have hinputs {e : ClaimDisclosure} {es : List ClaimDisclosure} (he : e ∈ es)
      (hes : ∀ x ∈ leafInputs es, x ∈ used) : payloadOf e ∈ used ∧ leafInput e ∈ used :=
    ⟨hes _ (List.mem_flatMap.mpr ⟨e, he, List.mem_cons_self⟩),
      hes _ (List.mem_flatMap.mpr ⟨e, he, List.mem_cons_of_mem _ List.mem_cons_self⟩)⟩
  obtain ⟨hpayload, hinput⟩ := hinputs List.mem_cons_self hleaf
  obtain ⟨root', -, hroot', hclimb⟩ := h.climbs
  obtain rfl := Except.ok.inj (hroot.symm.trans hroot')
  have hbound : pos < (base.commitments.map leafOf).length := by rw [List.length_map]; exact hpos
  have hat : (base.commitments.map leafOf)[pos]? = some (leafOf d) := by
    refine DuplicateTree.leaf_of_walk (binds_hashPair hinj) (isDigest_leaves _) hclimb htree hbound
      (isDigest_leafOf d) hwalk hwalked ?_
    intro p hp l hl
    obtain rfl | hl := List.mem_cons.mp hl
    · exact pair_ne_leaf hinj hp hinput
    · obtain ⟨e, he, rfl⟩ := List.mem_map.mp hl
      exact pair_ne_leaf hinj hp (hinputs he hleaves).2
  rw [List.getElem?_map, Option.map_eq_some_iff] at hat
  obtain ⟨own, hown, hsame⟩ := hat
  have hmem := List.mem_of_getElem? hown
  obtain ⟨hpayload', hinput'⟩ := hinputs hmem hleaves
  have hleafInputs := hinj hinput' hinput (Digest.ext_bytes _ _ hsame)
  rw [(h.commits own hmem).leafInput_eq.2, hcommits.leafInput_eq.2] at hleafInputs
  have hpayloads := hinj hpayload' hpayload (Digest.ext_bytes _ _ (List.cons.inj hleafInputs).2)
  obtain ⟨hname, hvalue⟩ := parts_of_payload hcommits (h.commits own hmem) hfloat (hfloats own hmem) hpayloads.symm
  exact ⟨own, hown, hname, hvalue⟩

theorem signed_of_signedRoot {algorithm : SignatureAlgorithm} {publicKey : Bytes} {signature rootHex : Str}
    {header : Bytes} (h : signedRoot rt algorithm (b64url publicKey) signature rootHex header = .ok true) :
    ∃ provider root sigBytes, rt.providers algorithm = .ok provider ∧ fromhex rootHex = .ok root ∧
      provider.verify (signingInput root header) sigBytes publicKey = .ok true := by
  unfold signedRoot at h
  rw [ok_bind (b64urlDecode_b64url _)] at h
  obtain ⟨sigBytes, -, h⟩ := bind_ok h
  obtain ⟨root, hroot, h⟩ := bind_ok h
  obtain ⟨provider, hprovider, h⟩ := bind_ok h
  exact ⟨provider, root, sigBytes, hprovider, raising_inj hroot, h⟩

theorem root_of_signingInput {root root' header : Bytes} (hshort : root.length ≤ 32) (hdigest : IsDigest root')
    (h : signingInput root [] = signingInput root' header) : root = root' ∧ header = [] := by
  unfold signingInput at h
  rw [List.append_assoc, List.append_assoc] at h
  have hrest := List.append_cancel_left h
  have hlength := congrArg List.length hrest
  unfold IsDigest at hdigest
  rw [List.length_append, List.length_append, List.length_cons, List.length_cons, List.length_nil] at hlength
  obtain ⟨hroot, htail⟩ := List.append_inj hrest (by omega)
  exact ⟨hroot, (List.cons.inj htail).2.symm⟩

theorem header_of_binding (hinj : Set.InjOn sha256 used) {root header header' : Bytes}
    (hused : ∀ x ∈ bindingInputs root header, x ∈ used) (hused' : ∀ x ∈ bindingInputs root header', x ∈ used)
    (h : bindingOf root header = bindingOf root header') : header = header' := by
  have hdigest := Digest.ext_bytes _ _ (hex_inj _ _ h)
  exact List.append_cancel_left (hmacSha256_inj hinj hused hused' hdigest)

end Tree

structure Credential where
  call : IssueCall
  base : BaseProof

structure Presentation where
  base : BaseProof
  header : Bytes
  derived : DerivedProof

structure Ledger (rt : IssuerRuntime) (key : SignatureKeyPair) where
  credentials : List Credential
  presentations : List Presentation
  issued : ∀ c ∈ credentials, issuerKey rt c.call = .ok key ∧ ∃ salts, issueCredential rt c.call salts = .ok c.base
  derived : ∀ p ∈ presentations, (∃ c ∈ credentials, p.base = c.base) ∧
    ∃ pointers, derivePresentation p.base pointers p.header = .ok p.derived

variable {rt : IssuerRuntime} {key : SignatureKeyPair}

def Ledger.Unforgeable (ledger : Ledger rt key) : Prop := ∀ algorithm provider message signature,
  rt.providers algorithm = .ok provider → provider.verify message signature key.publicKey = .ok true →
    ∃ c ∈ ledger.credentials, ∃ root, fromhex c.base.merkleRoot.text = .ok root ∧
      message = signingInput root c.call.header

/-! What is hashed for each of them. -/

def Credential.inputs (c : Credential) : List Bytes :=
  leafInputs c.base.commitments ++ (treePairs c.base.commitments).map nodeInput

def Presentation.inputs (p : Presentation) : List Bytes :=
  bindingInputs (orEmpty (fromhex p.base.merkleRoot.text)) p.header

def DerivedProof.inputs (derived : DerivedProof) (header : Bytes) : List Bytes :=
  leafInputs derived.revealed ++ (derived.pairs.map nodeInput ++ bindingInputs derived.root header)

def Ledger.hashed (ledger : Ledger rt key) (derived : DerivedProof) (header : Bytes) : List Bytes :=
  ledger.credentials.flatMap Credential.inputs ++ (ledger.presentations.flatMap Presentation.inputs ++
    derived.inputs header)

structure Ideal (ledger : Ledger rt key) (derived : DerivedProof) (header : Bytes) : Prop where
  unforgeable : ledger.Unforgeable
  injective : Set.InjOn sha256 {x | x ∈ ledger.hashed derived header}
  issuedFloats : ∀ c ∈ ledger.credentials, ∀ d ∈ c.base.commitments, FloatsRead d.claimValue
  revealedFloats : ∀ d ∈ derived.revealed, FloatsRead d.claimValue

def CarriesRoot (c : Credential) (derived : DerivedProof) : Prop :=
  fromhex derived.merkleRoot.text = fromhex c.base.merkleRoot.text

def RevealedAt (c : Credential) (d : ClaimDisclosure) (leafIndex : ℤ) : Prop :=
  ∃ pos : ℕ, leafIndex = pos ∧ ∃ claim, c.call.credentialSubject.claims[pos]? = some claim ∧
    d.claimPointer.text = claim.pointer ∧ d.claimName.text = claim.name ∧ sortKeys d.claimValue = sortKeys claim.value

def DerivedFor (ledger : Ledger rt key) (c : Credential) (header : Bytes) : Prop :=
  ∃ p ∈ ledger.presentations, p.base = c.base ∧ p.header = header

structure SoundFor (ledger : Ledger rt key) (c : Credential) (derived : DerivedProof) (header : Bytes) : Prop where
  revealed : List.Forall₂ (RevealedAt c) derived.revealed derived.revealedIndices
  presented : DerivedFor ledger c header

def PointerAt (base : BaseProof) (d : ClaimDisclosure) (leafIndex : ℤ) : Prop :=
  ∃ pos : ℕ, leafIndex = pos ∧ ∃ own, base.commitments[pos]? = some own ∧ own.claimPointer.text = d.claimPointer.text

structure Untouched (ledger : Ledger rt key) (c : Credential) (derived : DerivedProof) : Prop where
  pointers : List.Forall₂ (PointerAt c.base) derived.revealed derived.revealedIndices
  binding : ∃ p ∈ ledger.presentations, p.base = c.base ∧
    p.derived.presentationBinding.text = derived.presentationBinding.text

section Soundness

variable {ledger : Ledger rt key} {derived : DerivedProof} {header : Bytes}

theorem hashed_of_credential {c : Credential} (hc : c ∈ ledger.credentials) {x : Bytes} (hx : x ∈ c.inputs) :
    x ∈ ledger.hashed derived header := List.mem_append_left _ (List.mem_flatMap.mpr ⟨c, hc, hx⟩)

theorem hashed_of_presentation {p : Presentation} (hp : p ∈ ledger.presentations) {x : Bytes} (hx : x ∈ p.inputs) :
    x ∈ ledger.hashed derived header :=
  List.mem_append_right _ (List.mem_append_left _ (List.mem_flatMap.mpr ⟨p, hp, hx⟩))

theorem hashed_of_derived {x : Bytes} (hx : x ∈ derived.inputs header) : x ∈ ledger.hashed derived header :=
  List.mem_append_right _ (List.mem_append_right _ hx)

theorem exists_credential (hunforgeable : ledger.Unforgeable)
    (hkey : derived.issuerPublicKey.text = b64url key.publicKey)
    (haccepted : verifyPresentation rt derived (some header) = .ok true) :
    ∃ c ∈ ledger.credentials, CarriesRoot c derived := by
  have hsigned := (accepted_of_verified haccepted).signed
  rw [hkey] at hsigned
  obtain ⟨provider, root, sigBytes, hprovider, hroot, hverify⟩ := signed_of_signedRoot hsigned
  obtain ⟨c, hc, root', hroot', hmessage⟩ := hunforgeable _ _ _ _ hprovider hverify
  obtain ⟨-, salts, hissue⟩ := ledger.issued c hc
  obtain ⟨root'', hdigest, hroot'', -⟩ := (issued_of_ok hissue).climbs
  obtain rfl := Except.ok.inj (hroot'.symm.trans hroot'')
  have hshort := length_of_fromhex hroot
  rw [derived.merkleRoot.length_eq] at hshort
  obtain ⟨rfl, -⟩ := root_of_signingInput (by omega) hdigest hmessage
  exact ⟨c, hc, hroot.trans hroot'.symm⟩

theorem binding_of_presentation {p : Presentation} (hp : p ∈ ledger.presentations) :
    p.derived.presentationBinding.text = bindingOf (orEmpty (fromhex p.base.merkleRoot.text)) p.header := by
  obtain ⟨⟨c, hc, hbase⟩, pointers, hderive⟩ := ledger.derived p hp
  obtain ⟨-, salts, hissue⟩ := ledger.issued c hc
  have hissued := issued_of_ok hissue
  rw [← hbase] at hissued
  obtain ⟨leaves, -, hleaves, -, -⟩ := hissued.leaves
  obtain ⟨found, -, hfrom⟩ := derivedFrom_of_ok hissued hleaves hderive
  obtain ⟨root, hroot, hbinding⟩ := hfrom.binding
  rw [hbinding, hroot, orEmpty_ok]

theorem binding_iff {c : Credential} (hinj : Set.InjOn sha256 {x | x ∈ ledger.hashed derived header})
    (hroot : CarriesRoot c derived) (haccepted : verifyPresentation rt derived (some header) = .ok true) :
    DerivedFor ledger c header ↔ ∃ p ∈ ledger.presentations, p.base = c.base ∧
      p.derived.presentationBinding.text = derived.presentationBinding.text := by
  have hbinding : bindingOf derived.root header = derived.presentationBinding.text := by
    obtain ⟨root, hfromhex, hbound⟩ := bind_ok (accepted_of_verified haccepted).bound
    rw [DerivedProof.root, raising_inj hfromhex, orEmpty_ok]
    exact (compareDigest_true hbound).1
  have hsame {p : Presentation} (hbase : p.base = c.base) :
      orEmpty (fromhex p.base.merkleRoot.text) = derived.root := by
    unfold CarriesRoot at hroot
    rw [hbase, ← hroot, DerivedProof.root]
  refine exists_congr fun p => and_congr_right fun hp => and_congr_right fun hbase => ?_
  rw [binding_of_presentation hp, hsame hbase, ← hbinding]
  constructor
  · exact fun hheader => congrArg _ hheader
  · refine header_of_binding hinj ?_ ?_
    · intro x hx
      rw [← hsame hbase] at hx
      exact hashed_of_presentation hp hx
    · intro x hx
      exact hashed_of_derived (List.mem_append_right _ (List.mem_append_right _ hx))

theorem claim_at {c : Credential} (hc : c ∈ ledger.credentials) (hissued : Issued rt c.call c.base)
    (hideal : Ideal ledger derived header) (hroot : CarriesRoot c derived) {d : ClaimDisclosure}
    (hd : d ∈ derived.revealed) (hcommits : Commits d) {pos : ℕ} {chain : List Str}
    (hwalk : walk hashPair (leafOf d) pos derived.totalLeaves (siblings chain) = some derived.root)
    (hpairs : ∀ p ∈ pathPairs derived.totalLeaves d pos chain, p ∈ derived.pairs)
    (hpos : pos < c.base.commitments.length) : ∃ own, c.base.commitments[pos]? = some own ∧
      d.claimName.text = own.claimName.text ∧ sortKeys d.claimValue = sortKeys own.claimValue := by
  obtain ⟨root, -, hfromhex, -⟩ := hissued.climbs
  have hsame : derived.root = root := by
    unfold CarriesRoot at hroot
    rw [DerivedProof.root, hroot, hfromhex, orEmpty_ok]
  rw [hsame] at hwalk
  refine claim_of_walk hissued hideal.injective (hideal.issuedFloats c hc) ?_ ?_ hcommits
    (hideal.revealedFloats d hd) ?_ hfromhex hpos hwalk ?_
  · exact fun x hx => hashed_of_credential hc (List.mem_append_left _ hx)
  · exact fun p hp => hashed_of_credential hc (List.mem_append_right _ (List.mem_map_of_mem hp))
  · intro x hx
    obtain ⟨e, he, hx⟩ := List.mem_flatMap.mp hx
    obtain rfl := List.mem_singleton.mp he
    exact hashed_of_derived (List.mem_append_left _ (List.mem_flatMap.mpr ⟨e, hd, hx⟩))
  · intro p hp
    exact hashed_of_derived (List.mem_append_right _ (List.mem_append_left _ (List.mem_map_of_mem (hpairs p hp))))

theorem revealed_iff {c : Credential} (hc : c ∈ ledger.credentials) (hideal : Ideal ledger derived header)
    (hroot : CarriesRoot c derived) (haccepted : verifyPresentation rt derived (some header) = .ok true) :
    List.Forall₂ (RevealedAt c) derived.revealed derived.revealedIndices ↔
      List.Forall₂ (PointerAt c.base) derived.revealed derived.revealedIndices := by
  obtain ⟨-, salts, hissue⟩ := ledger.issued c hc
  have hissued := issued_of_ok hissue
  have hchecks := accepted_of_verified haccepted
  have hcommits := commits_of_recomputes hchecks.recomputed
  have hwalks := walks_of_included hcommits hchecks.included
  have hclaim (pos : ℕ) :
      c.call.credentialSubject.claims[pos]? = c.base.commitments[pos]?.map ClaimDisclosure.claim := by
    rw [← hissued.claims, List.getElem?_map]
  constructor
  · intro hrevealed
    refine hrevealed.imp fun d leafIndex hat => ?_
    obtain ⟨pos, hpos, claim, hclaimAt, hpointer, -, -⟩ := hat
    rw [hclaim, Option.map_eq_some_iff] at hclaimAt
    obtain ⟨own, hown, rfl⟩ := hclaimAt
    exact ⟨pos, hpos, own, hown, hpointer.symm⟩
  · intro hpointers
    rw [List.forall₂_iff_zip] at hpointers hwalks ⊢
    refine ⟨hpointers.1, fun hmem => ?_⟩
    obtain ⟨pos, rfl, own, hown, hpointer⟩ := hpointers.2 hmem
    obtain ⟨chain, hwalk, hpairs⟩ := hwalks.2 hmem
    have hd := (List.of_mem_zip hmem).1
    obtain ⟨own', hown', hname, hvalue⟩ := claim_at hc hissued hideal hroot hd (hcommits _ hd) hwalk hpairs
      (List.getElem?_eq_some_iff.mp hown).1
    obtain rfl := Option.some.inj (hown.symm.trans hown')
    refine ⟨pos, rfl, own.claim, ?_, hpointer.symm, hname, hvalue⟩
    rw [hclaim, hown]
    rfl

/-- An accepted presentation carries the root of a credential of its issuer, and it is sound for
each such credential if and only if its indices are in the tree, its pointers the issued ones, and
its binding that of a presentation that a holder derived from the credential. -/
theorem presentation_sound_iff (ledger : Ledger rt key) (derived : DerivedProof) (header : Bytes)
    (hideal : Ideal ledger derived header) (hkey : derived.issuerPublicKey.text = b64url key.publicKey)
    (haccepted : verifyPresentation rt derived (some header) = .ok true) :
    (∃ c ∈ ledger.credentials, CarriesRoot c derived) ∧ ∀ c ∈ ledger.credentials, CarriesRoot c derived →
      (SoundFor ledger c derived header ↔ Untouched ledger c derived) := by
  refine ⟨exists_credential hideal.unforgeable hkey haccepted, fun c hc hroot => ?_⟩
  have hrevealed := revealed_iff hc hideal hroot haccepted
  have hbinding := @binding_iff _ _ _ _ _ c hideal.injective hroot haccepted
  constructor
  · exact fun hsound => ⟨hrevealed.mp hsound.revealed, hbinding.mp hsound.presented⟩
  · exact fun huntouched => ⟨hrevealed.mpr huntouched.pointers, hbinding.mpr huntouched.binding⟩

theorem included_congr {derived' : DerivedProof} (htotal : derived'.totalLeaves = derived.totalLeaves)
    (hroot : derived'.merkleRoot = derived.merkleRoot) (ds : List ClaimDisclosure) (indices : List ℤ)
    (chains : List (List Str)) : included derived' ds indices chains = included derived ds indices chains := by
  induction ds generalizing indices chains with
  | nil => cases indices <;> cases chains <;> rfl
  | cons d ds ih =>
    cases indices with
    | nil => rfl
    | cons leafIndex indices =>
      cases chains with
      | nil => rfl
      | cons chain chains => rw [included, included, ih, htotal, hroot]

theorem length_of_included {ds : List ClaimDisclosure} {indices : List ℤ} {chains : List (List Str)}
    (h : included derived ds indices chains = .ok true) : chains.length = ds.length := by
  induction ds generalizing indices chains with
  | nil =>
    cases chains with
    | nil => rfl
    | cons chain chains => cases indices <;> cases h
  | cons d ds ih =>
    cases indices with
    | nil => cases h
    | cons leafIndex indices =>
      cases chains with
      | nil => cases h
      | cons chain chains => rw [List.length_cons, List.length_cons, ih (of_bind_ite h).2]

theorem Accepted.verifies {expected : Option Bytes} (h : Accepted rt derived expected) :
    verifyPresentation rt derived expected = .ok true := by
  unfold verifyPresentation presentationChecks
  rw [ok_bind h.recomputed, if_pos rfl, if_neg (not_not_intro (length_of_included h.included)), ok_bind h.included,
    if_pos rfl, ok_bind h.signed, if_pos rfl, h.bound]
  rfl

def DerivedProof.rebind (derived : DerivedProof) (header : Bytes) : DerivedProof :=
  { derived with presentationBinding := ⟨bindingOf derived.root header, plain_bindingOf _ _, length_bindingOf _ _⟩ }

@[simp] theorem rebind_revealed (header : Bytes) : (derived.rebind header).revealed = derived.revealed := rfl

theorem rebind_binding (header : Bytes) :
    (derived.rebind header).presentationBinding.text = bindingOf derived.root header := rfl

theorem rebind_accepted {expected : Option Bytes} (h : verifyPresentation rt derived expected = .ok true)
    (header : Bytes) : verifyPresentation rt (derived.rebind header) (some header) = .ok true := by
  have hchecks := accepted_of_verified h
  have hincluded := @included_congr derived (derived.rebind header) rfl rfl derived.revealed derived.revealedIndices
    derived.merkleInclusionProofs
  refine Accepted.verifies ⟨hchecks.recomputed, hincluded.trans hchecks.included, hchecks.signed, ?_⟩
  obtain ⟨pubBytes, -, hsigned⟩ := bind_ok hchecks.signed
  obtain ⟨sigBytes, -, hsigned⟩ := bind_ok hsigned
  obtain ⟨root, hroot, -⟩ := bind_ok hsigned
  have hsame : derived.root = root := by rw [DerivedProof.root, raising_inj hroot, orEmpty_ok]
  have hascii : isAscii (bindingOf root header) = true := isAscii_of_visible (visible_hex _)
  have hraise : raising (fromhex (derived.rebind header).merkleRoot.text) = .ok root := hroot
  unfold boundTo
  dsimp only
  rw [ok_bind hraise, rebind_binding, hsame, compareDigest_ascii hascii hascii, decide_eq_true rfl]

theorem derived_untouched {p : Presentation} (hp : p ∈ ledger.presentations) {c : Credential}
    (hc : c ∈ ledger.credentials) (hbase : p.base = c.base) :
    CarriesRoot c p.derived ∧ Untouched ledger c p.derived := by
  obtain ⟨-, pointers, hderive⟩ := ledger.derived p hp
  obtain ⟨-, salts, hissue⟩ := ledger.issued c hc
  have hissued := issued_of_ok hissue
  rw [hbase] at hderive
  obtain ⟨leaves, -, hleaves, -, -⟩ := hissued.leaves
  obtain ⟨found, hmap, hfrom⟩ := derivedFrom_of_ok hissued hleaves hderive
  refine ⟨congrArg (fun field : HexField => fromhex field.text) hfrom.merkleRoot, ?_, p, hp, hbase, rfl⟩
  rw [hfrom.revealed, hfrom.indices, List.forall₂_map_left_iff, List.forall₂_map_right_iff, List.forall₂_same]
  exact fun place hplace => ⟨place.1, rfl, place.2, places_of_lookUps hmap place hplace, rfl⟩

theorem hashed_of_rebind {p : Presentation} (hp : p ∈ ledger.presentations) {x : Bytes}
    (hx : x ∈ ledger.hashed p.derived p.header) (header : Bytes) :
    x ∈ ledger.hashed (p.derived.rebind header) header := by
  obtain ⟨⟨c, hc, hbase⟩, -⟩ := ledger.derived p hp
  have hroot : orEmpty (fromhex p.base.merkleRoot.text) = p.derived.root := by
    rw [DerivedProof.root, (derived_untouched hp hc hbase).1, hbase]
  obtain hx | hx := List.mem_append.mp hx
  · exact List.mem_append_left _ hx
  · obtain hx | hx := List.mem_append.mp hx
    · exact List.mem_append_right _ (List.mem_append_left _ hx)
    · obtain hx | hx := List.mem_append.mp hx
      · exact hashed_of_derived (List.mem_append_left _ hx)
      · obtain hx | hx := List.mem_append.mp hx
        · exact hashed_of_derived (List.mem_append_right _ (List.mem_append_left _ hx))
        · refine hashed_of_presentation hp ?_
          rw [Presentation.inputs, hroot]
          exact hx

theorem Ideal.of_rebind {p : Presentation} (hp : p ∈ ledger.presentations) {header : Bytes}
    (h : Ideal ledger (p.derived.rebind header) header) : Ideal ledger p.derived p.header where
  unforgeable := h.unforgeable
  injective := h.injective.mono fun _ hx => hashed_of_rebind hp hx header
  issuedFloats := h.issuedFloats
  revealedFloats := h.revealedFloats

end Soundness

def onceProviders (signed : Bytes) : Providers := fun _ => .ok {
  sign := fun message _ => .ok message
  verify := fun message signature _ => .ok (decide (signature = message ∧ message = signed)) }

def onceRuntime (signed : Bytes) : IssuerRuntime := ⟨onceProviders signed, fun _ _ => .ok sampleKey⟩

theorem onceRuntime_issue (signed signed' : Bytes) (call : IssueCall) (salts : ℕ → SaltBytes) :
    issueCredential (onceRuntime signed) call salts = issueCredential (onceRuntime signed') call salts := by
  rfl

theorem get_toOption {ε α : Type} {x : Except ε α} (h : x.toOption.isSome = true) : x = .ok (x.toOption.get h) := by
  cases x with
  | error e => cases h
  | ok a => rfl

def sampleBase : BaseProof :=
  (issueCredential (onceRuntime []) (sampleCall []) zeroSalts).toOption.get (by decide +kernel)

theorem sampleBase_eq (signed : Bytes) :
    issueCredential (onceRuntime signed) (sampleCall []) zeroSalts = .ok sampleBase :=
  (onceRuntime_issue signed [] _ _).trans (get_toOption _)

def sampleDerived : DerivedProof := (derivePresentation sampleBase [txt "/age"] [1]).toOption.get (by decide +kernel)

theorem sampleDerived_eq : derivePresentation sampleBase [txt "/age"] [1] = .ok sampleDerived := get_toOption _

attribute [irreducible] sampleBase sampleDerived

def sampleMessage : Bytes := signingInput (orEmpty (fromhex sampleBase.merkleRoot.text)) []

def sampleCredential : Credential := ⟨sampleCall [], sampleBase⟩

def samplePresentation : Presentation := ⟨sampleBase, [1], sampleDerived⟩

theorem sample_key (signed : Bytes) : issuerKey (onceRuntime signed) sampleCredential.call = .ok sampleKey := rfl

theorem sampleCredential_issued (signed : Bytes) : ∃ salts,
    issueCredential (onceRuntime signed) sampleCredential.call salts = .ok sampleCredential.base := by
  refine ⟨zeroSalts, ?_⟩
  dsimp only [sampleCredential]
  exact sampleBase_eq signed

theorem sample_presented : ∃ c ∈ [sampleCredential], samplePresentation.base = c.base :=
  ⟨sampleCredential, List.mem_singleton_self _, rfl⟩

theorem samplePresentation_derived : ∃ pointers, derivePresentation samplePresentation.base pointers
    samplePresentation.header = .ok samplePresentation.derived := by
  refine ⟨[txt "/age"], ?_⟩
  dsimp only [samplePresentation]
  exact sampleDerived_eq

def sampleLedger : Ledger (onceRuntime sampleMessage) sampleKey where
  credentials := [sampleCredential]
  presentations := [samplePresentation]
  issued := List.forall_mem_singleton.mpr ⟨sample_key _, sampleCredential_issued _⟩
  derived := List.forall_mem_singleton.mpr ⟨sample_presented, samplePresentation_derived⟩

theorem sample_injective :
    Set.InjOn sha256 {x | x ∈ sampleLedger.hashed (sampleDerived.rebind [2]) [2]} :=
  injOn_of_dedup _ (by decide +kernel)

theorem sample_claims : sampleSubject.claims =
    [⟨txt "/name", txt "name", .str (txt "alice")⟩, ⟨txt "/age", txt "age", .int 30⟩] := by rfl

theorem sample_floats : ∀ d ∈ sampleBase.commitments, FloatsRead d.claimValue := by
  intro d hd
  have hclaims : sampleBase.commitments.map ClaimDisclosure.claim = sampleSubject.claims :=
    (issued_of_ok (sampleBase_eq [])).claims
  have hclaim := List.mem_map_of_mem (f := ClaimDisclosure.claim) hd
  rw [hclaims, sample_claims] at hclaim
  obtain hname | hage := List.mem_pair.mp hclaim
  · rw [show d.claimValue = .str (txt "alice") from congrArg Claim.value hname]
    exact .str _
  · rw [show d.claimValue = .int 30 from congrArg Claim.value hage]
    exact .int _

theorem sample_unforgeable : sampleLedger.Unforgeable := by
  intro algorithm provider message signature hprovider hverify
  obtain rfl := Except.ok.inj hprovider
  obtain ⟨-, rfl⟩ := of_decide_eq_true (Except.ok.inj hverify)
  obtain ⟨root, -, hroot, -⟩ := (issued_of_ok (sampleBase_eq [])).climbs
  have hmessage : sampleMessage = signingInput root [] := by rw [sampleMessage, hroot, orEmpty_ok]
  refine ⟨sampleCredential, List.mem_singleton_self _, root, ?_, hmessage⟩
  dsimp only [sampleCredential]
  exact hroot

theorem sampleDerived_accepted :
    verifyPresentation (onceRuntime sampleMessage) sampleDerived (some [1]) = .ok true := by
  have hissued := issued_of_ok (sampleBase_eq sampleMessage)
  obtain ⟨leaves, -, hleaves, -, -⟩ := hissued.leaves
  obtain ⟨found, hmap, hfrom⟩ := derivedFrom_of_ok hissued hleaves sampleDerived_eq
  refine hfrom.verifies hissued ?_ hleaves (places_of_lookUps hmap)
  obtain ⟨provider, key, root, signatureBytes, hsigned, hpublic, hsignature⟩ := hissued.signed
  have hroot : raising (fromhex sampleBase.merkleRoot.text) = .ok root := by rw [hsigned.root_eq, raising_ok]
  have hmessage : sampleMessage = signingInput root [] := by rw [sampleMessage, hsigned.root_eq, orEmpty_ok]
  obtain rfl := Except.ok.inj hsigned.provider_eq
  obtain rfl := Except.ok.inj hsigned.sign_eq
  unfold signedRoot
  rw [hpublic, hsignature, ok_bind (b64urlDecode_b64url _), ok_bind (b64urlDecode_b64url _), ok_bind hroot]
  exact congrArg Except.ok (decide_eq_true ⟨rfl, hmessage.symm⟩)

theorem sample_derivedFrom : ∃ found leaves, LeavesOf sampleBase.commitments leaves ∧
    DerivedFrom sampleBase found leaves [1] sampleDerived ∧
      ∀ place ∈ found, sampleBase.commitments[place.1]? = some place.2 := by
  have hissued := issued_of_ok (sampleBase_eq [])
  obtain ⟨leaves, -, hleaves, -, -⟩ := hissued.leaves
  obtain ⟨found, hmap, hfrom⟩ := derivedFrom_of_ok hissued hleaves sampleDerived_eq
  exact ⟨found, leaves, hleaves, hfrom, places_of_lookUps hmap⟩

theorem sample_ideal : Ideal sampleLedger (sampleDerived.rebind [2]) [2] where
  unforgeable := sample_unforgeable
  injective := sample_injective
  issuedFloats := List.forall_mem_singleton.mpr sample_floats
  revealedFloats := by
    intro d hd
    obtain ⟨found, leaves, -, hfrom, hfound⟩ := sample_derivedFrom
    rw [rebind_revealed, hfrom.revealed] at hd
    obtain ⟨place, hplace, rfl⟩ := List.mem_map.mp hd
    exact sample_floats _ (List.mem_of_getElem? (hfound place hplace))

theorem sampleDerived_key : sampleDerived.issuerPublicKey.text = b64url sampleKey.publicKey := by
  obtain ⟨found, leaves, -, hfrom, -⟩ := sample_derivedFrom
  obtain ⟨provider, key, root, signatureBytes, hsigned, hpublic, -⟩ := (issued_of_ok (sampleBase_eq [])).signed
  rw [hfrom.issuerPublicKey, hpublic, ← Except.ok.inj hsigned.key_eq]

theorem presentation_sound_iff_sample : SoundFor sampleLedger sampleCredential sampleDerived [1] :=
  have hp : samplePresentation ∈ sampleLedger.presentations := List.mem_singleton_self _
  have hc : sampleCredential ∈ sampleLedger.credentials := List.mem_singleton_self _
  have huntouched := derived_untouched hp hc rfl
  ((presentation_sound_iff sampleLedger sampleDerived [1] (Ideal.of_rebind hp sample_ideal) sampleDerived_key
    sampleDerived_accepted).2 sampleCredential hc huntouched.1).mpr huntouched.2

/-- The presentation is accepted for a header that nothing was presented for. -/
theorem rebound_presentation_accepted : Ideal sampleLedger (sampleDerived.rebind [2]) [2] ∧
    (sampleDerived.rebind [2]).issuerPublicKey.text = b64url sampleKey.publicKey ∧
    verifyPresentation (onceRuntime sampleMessage) (sampleDerived.rebind [2]) (some [2]) = .ok true ∧
    ¬ ∃ c ∈ sampleLedger.credentials, SoundFor sampleLedger c (sampleDerived.rebind [2]) [2] := by
  refine ⟨sample_ideal, sampleDerived_key, rebind_accepted sampleDerived_accepted [2], ?_⟩
  intro ⟨c, _, hsound⟩
  obtain ⟨p, hp, -, hheader⟩ := hsound.presented
  rw [List.mem_singleton.mp hp] at hheader
  cases hheader

end TexGovernance.Vet.SelectiveDisclosure
