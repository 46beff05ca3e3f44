import TexGovernance.Lib.DigestTree
import TexGovernance.Lib.Pipeline
import TexGovernance.Vet.Scitt

/-!
# The receipts of the transparency log

Every receipt that the log gives out verifies.
-/

namespace TexGovernance.Vet
open PyStr PyBytes PyCodec JsonLoads JsonText PyValue PyDict Sha256
open PyRepr (utf8)
open Enforcement (b64url b64urlDecode b64urlDecode_b64url)
open Pqcrypto
open DuplicateTree (nextLayer nodePairs walk walked inclusionPath climb climbed)

def IsDigest (bytes : Bytes) : Prop := bytes.length = 32

/-- What is hashed for the root over some leaves. -/
def treeInputs (leaves : List Bytes) : List Bytes :=
  (climbed Prod.mk (Function.uncurry nodeHash) leaves.length leaves).map fun p => p.1 ++ p.2

def pathInputs (leafHash : Bytes) (leafIndex treeSize : ℤ) (path : List Bytes) : List Bytes :=
  (walked nodeHash leafHash leafIndex treeSize path).map fun p => p.1 ++ p.2

def IsRoot (leaves : List Bytes) (root : Bytes) : Prop :=
  climb Prod.mk (Function.uncurry nodeHash) leaves.length leaves = [root]

def NoInnerLeaf (leaves inputs : List Bytes) : Prop := ∀ x ∈ inputs, (sha256 x).bytes ∉ leaves

theorem exists_tree {leaves : List Bytes} (hleaves : ∀ l ∈ leaves, IsDigest l) {root : Bytes}
    (hroot : IsRoot leaves root) {used : Set (Bytes × Bytes)}
    (hused : ∀ p ∈ climbed Prod.mk (Function.uncurry nodeHash) leaves.length leaves, p ∈ used) :
    ∃ depth, DuplicateTree.Tree nodeHash IsDigest used leaves depth root ∧
      ∀ k < depth, ∀ p ∈ nodePairs ((nextLayer nodeHash)^[k] leaves), p.1 ++ p.2 ∈ treeInputs leaves := by
  obtain ⟨depth, htree, hpairs⟩ := DuplicateTree.exists_tree hleaves hroot hused
  exact ⟨depth, htree, fun k hk p hp => List.mem_map_of_mem (hpairs k hk p hp)⟩

def PathsSound (leaves : List Bytes) (leafIndex : ℤ) : Prop :=
  ∀ (leafHash root : Bytes) (path : List Bytes), IsDigest leafHash → IsRoot leaves root →
    Set.InjOn sha256 {x | x ∈ treeInputs leaves ∨ x ∈ pathInputs leafHash leafIndex leaves.length path} →
    NoInnerLeaf (leafHash :: leaves) (treeInputs leaves) →
    NoInnerLeaf leaves (pathInputs leafHash leafIndex leaves.length path) →
    verifyMerkleInclusion leafHash leafIndex leaves.length path root = true →
      0 ≤ leafIndex ∧ leafIndex < leaves.length ∧ leaves[leafIndex.toNat]? = some leafHash

theorem paths_sound_of_index {leaves : List Bytes} (hleaves : ∀ l ∈ leaves, IsDigest l) {leafIndex : ℤ}
    (hlow : 0 ≤ leafIndex) (hhigh : leafIndex < leaves.length) : PathsSound leaves leafIndex := by
  intro leafHash root path hdigest hroot hsha hinner hpath hverify
  refine ⟨hlow, hhigh, ?_⟩
  obtain ⟨pos, rfl⟩ := Int.eq_ofNat_of_zero_le hlow
  have hpos : pos < leaves.length := Int.ofNat_lt.mp hhigh
  let used := climbed Prod.mk (Function.uncurry nodeHash) leaves.length leaves ++
    walked nodeHash leafHash pos leaves.length path
  have hbinds : DuplicateTree.Binds nodeHash IsDigest {p | p ∈ used} := by
    refine DigestTree.binds_of_injOn (hsha.mono ?_)
    rintro x ⟨p, hp, rfl⟩
    obtain hp | hp := List.mem_append.mp hp
    · exact .inl (List.mem_map_of_mem hp)
    · exact .inr (List.mem_map_of_mem hp)
  obtain ⟨depth, htree, htreeInputs⟩ := @exists_tree leaves hleaves root hroot {p | p ∈ used}
    fun p hp => List.mem_append_left _ hp
  refine DuplicateTree.walk_sound hbinds htree hpos hdigest (of_decide_eq_true hverify)
    (fun p hp => List.mem_append_right _ hp) ?_ ?_
  · intro k hk q hq heq
    exact hinner _ (htreeInputs k hk q hq) (heq ▸ List.mem_cons_self)
  · exact fun p hp hmem => hpath _ (List.mem_map_of_mem hp) hmem

theorem exists_accepted_path {leaves : List Bytes} (hleaves : ∀ l ∈ leaves, IsDigest l) {root : Bytes}
    (hroot : IsRoot leaves root) (leafIndex : ℤ) : ∃ leafHash ∈ leaves, ∃ path,
      verifyMerkleInclusion leafHash leafIndex leaves.length path root = true ∧
        pathInputs leafHash leafIndex leaves.length path ⊆ treeInputs leaves := by
  obtain ⟨depth, htree, htreeInputs⟩ := @exists_tree leaves hleaves root hroot Set.univ fun _ _ => trivial
  obtain ⟨pos, leaf, path, hleaf, hwalk, -, hpairs⟩ := DuplicateTree.exists_walk htree.top leafIndex
  refine ⟨leaf, List.mem_of_getElem? hleaf, path, decide_eq_true hwalk, ?_⟩
  intro x hx
  obtain ⟨p, hp, rfl⟩ := List.mem_map.mp hx
  obtain ⟨k, hk, hmem⟩ := hpairs p hp
  exact htreeInputs k hk p hmem

theorem paths_sound_iff {leaves : List Bytes} (hne : leaves ≠ []) (hleaves : ∀ l ∈ leaves, IsDigest l)
    (hsha : Set.InjOn sha256 {x | x ∈ treeInputs leaves}) (hinner : NoInnerLeaf leaves (treeInputs leaves))
    (leafIndex : ℤ) : PathsSound leaves leafIndex ↔ 0 ≤ leafIndex ∧ leafIndex < leaves.length := by
  constructor
  · intro hsound
    obtain ⟨root, hroot⟩ := DuplicateTree.climb_single Prod.mk (Function.uncurry nodeHash) leaves.length leaves
      hne (Nat.le_succ _)
    obtain ⟨leafHash, hleaf, path, hverify, hinputs⟩ := exists_accepted_path hleaves hroot leafIndex
    have hinner' : NoInnerLeaf (leafHash :: leaves) (treeInputs leaves) := by
      intro x hx hmem
      obtain heq | hmem := List.mem_cons.mp hmem
      · exact hinner x hx (heq ▸ hleaf)
      · exact hinner x hx hmem
    obtain ⟨hlow, hhigh, -⟩ := hsound leafHash root path (hleaves _ hleaf) hroot
      (hsha.mono fun x hx => hx.elim id fun hpath => hinputs hpath) hinner'
      (fun x hx => hinner x (hinputs hx)) hverify
    exact ⟨hlow, hhigh⟩
  · rintro ⟨hlow, hhigh⟩
    exact paths_sound_of_index hleaves hlow hhigh

def decimalValue (s : Str) : ℕ := (s.map fun c => (decimal? c).getD 0).foldl (fun acc d => 10 * acc + d) 0

theorem decimalValue_natText (n : ℕ) : decimalValue (natText n) = n := by
  have hdigits : (natText n).map (fun c => (decimal? c).getD 0) =
      (Nat.toDigits 10 n).map fun d => d.toNat - '0'.toNat := by
    unfold natText
    rw [List.map_map]
    refine List.map_congr_left fun d hd => ?_
    rw [Function.comp_apply, decimal?_digitChar (Nat.isDigit_of_mem_toDigits (by decide) (by decide) hd)]
    rfl
  unfold decimalValue
  rw [hdigits, List.foldl_map]
  exact Nat.ofDigitChars_eq_foldl.symm.trans Nat.ofDigitChars_ten_toDigits

theorem decimalValue_padded (k n : ℕ) : decimalValue (List.replicate k (cp '0') ++ natText n) = n := by
  induction k with
  | zero => exact decimalValue_natText n
  | succ k ih => exact ih

theorem colon_notMem_padded (k n : ℕ) : cp ':' ∉ List.replicate k (cp '0') ++ natText n := by
  intro h
  obtain h | h := List.mem_append.mp h
  · exact absurd (List.eq_of_mem_replicate h) (by decide)
  · exact absurd (isDigit_natText h) (by decide)

theorem entryIdOf_index {i j : ℕ} {leaf leaf' : Bytes} (h : entryIdOf i leaf = entryIdOf j leaf') : i = j := by
  have hvalue := congrArg (fun s => decimalValue (s.takeWhile fun c => c ≠ cp ':')) h
  have htake : ∀ k n rest, (List.replicate k (cp '0') ++ natText n ++ cp ':' :: rest).takeWhile
      (fun c => c ≠ cp ':') = List.replicate k (cp '0') ++ natText n := by
    intro k n rest
    rw [List.takeWhile_append_of_pos fun c hc => by
      simpa using fun heq : c = cp ':' => colon_notMem_padded k n (heq ▸ hc)]
    simp
  simp only [entryIdOf, htake, decimalValue_padded] at hvalue
  exact hvalue

section Log

variable (rt : ScittRuntime) (service : TransparencyService)

def statementDigest (stmt : ScittSignedStatement) : Except Raised Str :=
  (canonicalJsonBytes stmt.json).map fun bytes => hex (sha256 bytes).bytes

structure LogInv (log : TransparencyLog) : Prop where
  digest : ∀ entry ∈ log.entries, statementDigest entry.statement = .ok (hex entry.leafHash)
  ids : ∀ i entry, log.entries[i]? = some entry → entry.entryId = entryIdOf i entry.leafHash
  index : ∀ i entry, log.entries[i]? = some entry → log.entryIndex.get? entry.entryId = some i
  indexed : ∀ id i, log.entryIndex.get? id = some i → ∃ entry, log.entries[i]? = some entry ∧ entry.entryId = id

variable {rt service}

theorem logInv_empty : LogInv .empty where
  digest := List.forall_mem_nil _
  ids := nofun
  index := nofun
  indexed := nofun

theorem register_cases (stmt : ScittSignedStatement) (now : ℤ) (log : TransparencyLog) :
    (∃ e, register rt service stmt now log = (log, .error e)) ∨
      ∃ entry : LogEntry, entry.statement = stmt ∧ statementDigest stmt = .ok (hex entry.leafHash) ∧
        entry.entryId = entryIdOf log.entries.length entry.leafHash ∧
        (register rt service stmt now log).1 =
          ⟨log.entries ++ [entry], log.entryIndex.set entry.entryId log.entries.length⟩ ∧
        ∀ res, (register rt service stmt now log).2 = .ok res → res.entryId = entry.entryId ∧
          receiptAt rt service (register rt service stmt now log).1 entry log.entries.length =
            .ok res.receipt := by
  unfold register statementDigest
  cases hbytes : canonicalJsonBytes stmt.json with
  | error e => exact .inl ⟨e, rfl⟩
  | ok bytes =>
    refine .inr ⟨_, rfl, rfl, rfl, rfl, fun res hres => ?_⟩
    obtain ⟨receipt, hreceipt, hres⟩ := Pipeline.bind_ok hres
    split at hres
    · cases hres
      exact ⟨rfl, hreceipt⟩
    · cases hres

theorem register_inv {log : TransparencyLog} (h : LogInv log) (stmt : ScittSignedStatement) (now : ℤ) :
    LogInv (register rt service stmt now log).1 := by
  obtain ⟨e, hregister⟩ | ⟨entry, rfl, hdigest, hid, hlog, -⟩ := @register_cases rt service
    stmt now log
  · rw [hregister]
    exact h
  · rw [hlog]
    -- an entry is an old one, or the new one at the end
    have hentries : ∀ i old, (log.entries ++ [entry])[i]? = some old →
        log.entries[i]? = some old ∨ i = log.entries.length ∧ old = entry := by
      intro i old hold
      obtain hlt | hge := lt_or_ge i log.entries.length
      · rw [List.getElem?_append_left hlt] at hold
        exact .inl hold
      · rw [List.getElem?_append_right hge] at hold
        obtain ⟨hbound, hsame⟩ := List.getElem?_eq_some_iff.mp hold
        rw [List.length_singleton] at hbound
        exact .inr ⟨by omega, by rw [← hsame, List.getElem_singleton]⟩
    have hids : ∀ i old, (log.entries ++ [entry])[i]? = some old → old.entryId = entryIdOf i old.leafHash := by
      intro i old hold
      obtain hold | ⟨rfl, rfl⟩ := hentries i old hold
      · exact h.ids i old hold
      · exact hid
    refine ⟨?_, hids, ?_, ?_⟩
    · intro old hold
      obtain hold | hold := List.mem_append.mp hold
      · exact h.digest old hold
      · rw [List.mem_singleton.mp hold]
        exact hdigest
    · intro i old hold
      rw [Dict.get?_set]
      obtain holds | ⟨rfl, rfl⟩ := hentries i old hold
      · have hplace : i < log.entries.length := (List.getElem?_eq_some_iff.mp holds).1
        rw [if_neg fun heq => ?_]
        · exact h.index i old holds
        · rw [hids i old hold, hid] at heq
          exact absurd (entryIdOf_index heq) (by omega)
      · rw [if_pos rfl]
    · intro id i hi
      rw [Dict.get?_set] at hi
      split at hi
      · rename_i heq
        obtain rfl := Option.some.inj hi
        exact ⟨entry, by rw [List.getElem?_concat_length], heq.symm⟩
      · obtain ⟨old, hold, hsame⟩ := h.indexed id i hi
        refine ⟨old, ?_, hsame⟩
        rw [List.getElem?_append_left (List.getElem?_eq_some_iff.mp hold).1]
        exact hold

def logAfter (rt : ScittRuntime) (service : TransparencyService)
    (registrations : List (ScittSignedStatement × ℤ)) : TransparencyLog :=
  registrations.foldl (fun log r => (register rt service r.1 r.2 log).1) .empty

theorem logAfter_inv (registrations : List (ScittSignedStatement × ℤ)) :
    LogInv (logAfter rt service registrations) := by
  unfold logAfter
  induction registrations using List.reverseRecOn with
  | nil => exact logInv_empty
  | append_singleton registrations r ih =>
    rw [List.foldl_append]
    exact register_inv ih r.1 r.2

structure ExpectsService (service : TransparencyService) (checks : ReceiptChecks) : Prop where
  tsUri : ∀ expected ∈ checks.expectedTsUri, expected = service.tsUri
  publicKey : ∀ expected ∈ checks.expectedTsPublicKeyB64u, expected = b64url service.signingKeypair.publicKey

def ReceiptAccepted (rt : ScittRuntime) (service : TransparencyService) (digest : Str)
    (receipt : ScittReceipt) : Prop :=
  ∀ checks, ExpectsService service checks →
    ∃ r, verifyReceipt rt checks digest receipt = .ok r ∧ r.valid = true

theorem mapM_b64urlDecode (path : List Bytes) : (path.map b64url).mapM b64urlDecode = .ok path := by
  rw [mapM_ok_iff, List.forall₂_map_left_iff, List.forall₂_same]
  exact fun bytes _ => b64urlDecode_b64url bytes

theorem not_any {α : Type} {expected : Option α} {refuses : α → Bool}
    (h : ∀ e ∈ expected, refuses e = false) : ¬ expected.any refuses = true := by
  cases expected with
  | none => exact Bool.false_ne_true
  | some e => exact Bool.eq_false_iff.mp (h e rfl)

section Signed

variable {entry : LogEntry} {leafIndex treeSize : ℤ} {path : List Bytes} {root sig : Bytes}

theorem decodeProof_signed : decodeProof (signedReceipt service entry leafIndex treeSize path root sig) =
    .ok (path, entry.leafHash, root) := by
  simp only [decodeProof, signedReceipt, mapM_b64urlDecode, fromhex_hex, raising_ok, bind, Except.bind]
  rfl

theorem decodeSignature_signed {provider : SignatureProvider}
    (hprovider : rt.providers service.signingKeypair.algorithm = .ok provider) :
    decodeSignature rt (signedReceipt service entry leafIndex treeSize path root sig) =
      .ok (provider, sig, service.signingKeypair.publicKey) := by
  simp only [decodeSignature, signedReceipt, hprovider, b64urlDecode_b64url, bind, Except.bind]
  rfl

theorem validate_ok {r r' : ScittReceipt} (h : r.validate = .ok r') : r' = r := by
  unfold ScittReceipt.validate at h
  split at h
  · exact (Except.ok.inj h).symm
  · cases h

theorem signReceipt_accepted (hprovider : VerifiesOwn rt.providers service.signingKeypair)
    {receipt : ScittReceipt} (hsign : signReceipt rt service entry leafIndex treeSize path root = .ok receipt)
    (hpath : verifyMerkleInclusion entry.leafHash leafIndex treeSize path root = true) :
    ReceiptAccepted rt service (hex entry.leafHash) receipt := by
  obtain ⟨message, hmessage, hsign⟩ := Pipeline.bind_ok hsign
  obtain ⟨provider, hproviders, hsign⟩ := Pipeline.bind_ok hsign
  obtain ⟨sig, hsig, hsign⟩ := Pipeline.bind_ok hsign
  obtain rfl := validate_ok hsign
  intro checks hchecks
  refine ⟨{
    valid := true
    reason := txt "ok"
    receiptSignatureValid := true
    inclusionProofValid := true
    tsUri := some service.tsUri }, ?_, rfl⟩
  unfold verifyReceipt
  rw [decodeProof_signed, decodeSignature_signed hproviders]
  refine (if_neg (not_any fun e he => decide_eq_false (not_not_intro (hchecks.tsUri e he).symm))).trans ?_
  refine (if_neg (not_any fun e he => decide_eq_false (not_not_intro (hchecks.publicKey e he).symm))).trans ?_
  simp only [signedReceipt, hpath, hmessage, hprovider provider message sig hproviders hsig, bind, Except.bind,
    Bool.true_eq_false, ne_eq, not_true_eq_false, if_false, if_true]
  rfl

end Signed

theorem receiptAt_accepted (hprovider : VerifiesOwn rt.providers service.signingKeypair) {log : TransparencyLog}
    {entry : LogEntry} {index : ℕ} (hentry : log.entries[index]? = some entry) {receipt : ScittReceipt}
    (hreceipt : receiptAt rt service log entry index = .ok receipt) :
    ReceiptAccepted rt service (hex entry.leafHash) receipt := by
  obtain ⟨⟨root, path⟩, hproof, hsign⟩ := Pipeline.bind_ok hreceipt
  have hleaf : log.leaves[index]? = some entry.leafHash := by
    rw [TransparencyLog.leaves, List.getElem?_map, hentry]
    rfl
  have hplace : index < log.leaves.length := (List.getElem?_eq_some_iff.mp hleaf).1
  refine signReceipt_accepted hprovider hsign ?_
  obtain ⟨root', hclimb, hwalk⟩ := @DuplicateTree.walk_inclusionPath _ nodeHash _
    log.leaves.length _ _ _ hleaf (Nat.le_succ _)
  have hne : log.leaves ≠ [] := List.ne_nil_of_length_pos (by omega)
  unfold merkleRootAndProof at hproof
  rw [if_neg hne, if_neg (by omega), hclimb] at hproof
  obtain ⟨rfl, rfl⟩ := Prod.mk.inj (Except.ok.inj hproof)
  exact decide_eq_true hwalk

theorem registered_accepted (hprovider : VerifiesOwn rt.providers service.signingKeypair)
    {log : TransparencyLog} {stmt : ScittSignedStatement} {now : ℤ} {res : ScittRegistrationResult}
    (hres : (register rt service stmt now log).2 = .ok res) :
    ∃ digest, statementDigest stmt = .ok digest ∧ ReceiptAccepted rt service digest res.receipt := by
  obtain ⟨e, hregister⟩ | ⟨entry, -, hdigest, -, hlog, hreceipt⟩ := @register_cases rt service
    stmt now log
  · rw [hregister] at hres
    cases hres
  · refine ⟨_, hdigest, receiptAt_accepted hprovider ?_ (hreceipt res hres).2⟩
    rw [hlog]
    exact List.getElem?_concat_length

theorem later_accepted (hprovider : VerifiesOwn rt.providers service.signingKeypair) {log : TransparencyLog}
    (hlog : LogInv log) {id : Str} {receipt : ScittReceipt}
    (h : getReceipt rt service id log = .ok (some receipt)) : ∃ entry ∈ log.entries, entry.entryId = id ∧
      ∀ other ∈ log.entries, other.entryId = id → ∃ digest, statementDigest other.statement = .ok digest ∧
        ReceiptAccepted rt service digest receipt := by
  unfold getReceipt at h
  cases hindex : log.entryIndex.get? id with
  | none =>
    rw [hindex] at h
    cases h
  | some i =>
    obtain ⟨entry, hentry, rfl⟩ := hlog.indexed id i hindex
    rw [hindex] at h
    simp only [hentry] at h
    obtain ⟨receipt', hreceipt, hsame⟩ := Pipeline.map_ok h
    obtain rfl := Option.some.inj hsame
    refine ⟨entry, List.mem_of_getElem? hentry, rfl, fun other hother hid => ?_⟩
    obtain ⟨j, hj⟩ := List.mem_iff_getElem?.mp hother
    have hplace : j = i := by
      have hsame := hlog.index j other hj
      rw [hid, hindex] at hsame
      exact (Option.some.inj hsame).symm
    rw [hplace, hentry] at hj
    obtain rfl := Option.some.inj hj
    exact ⟨_, hlog.digest _ hother, receiptAt_accepted hprovider hentry hreceipt⟩

end Log

/-- Every receipt of every run is accepted, and the paths over a tree are sound for exactly the
indices that the tree has. -/
theorem receipts_complete_and_sound (rt : ScittRuntime) (service : TransparencyService)
    (hprovider : VerifiesOwn rt.providers service.signingKeypair)
    (registrations : List (ScittSignedStatement × ℤ)) :
    (∀ stmt now res, (register rt service stmt now (logAfter rt service registrations)).2 = .ok res →
      ∃ digest, statementDigest stmt = .ok digest ∧ ReceiptAccepted rt service digest res.receipt) ∧
    (∀ id receipt, getReceipt rt service id (logAfter rt service registrations) = .ok (some receipt) →
      ∃ entry ∈ (logAfter rt service registrations).entries, entry.entryId = id ∧
        ∀ other ∈ (logAfter rt service registrations).entries, other.entryId = id →
          ∃ digest, statementDigest other.statement = .ok digest ∧ ReceiptAccepted rt service digest receipt) ∧
    ∀ (leaves : List Bytes) (leafIndex : ℤ), leaves ≠ [] → (∀ l ∈ leaves, IsDigest l) →
      Set.InjOn sha256 {x | x ∈ treeInputs leaves} → NoInnerLeaf leaves (treeInputs leaves) →
        (PathsSound leaves leafIndex ↔ 0 ≤ leafIndex ∧ leafIndex < leaves.length) :=
  ⟨fun _ _ _ hres => registered_accepted hprovider hres,
    fun _ _ h => later_accepted hprovider (logAfter_inv registrations) h,
    fun _ leafIndex hne hleaves hsha hinner => paths_sound_iff hne hleaves hsha hinner leafIndex⟩

def sampleLeaves : List Bytes := [List.replicate 32 0xaa, List.replicate 32 0x11]

theorem isDigest_sampleLeaves : ∀ l ∈ sampleLeaves, IsDigest l := by
  unfold IsDigest
  with_unfolding_all decide

theorem treeInputs_sampleLeaves :
    treeInputs sampleLeaves = [List.replicate 32 0xaa ++ List.replicate 32 0x11] := rfl

theorem injOn_sampleLeaves : Set.InjOn sha256 {x | x ∈ treeInputs sampleLeaves} := by
  rw [treeInputs_sampleLeaves]
  exact injOn_of_nodup _ (List.nodup_singleton _)

set_option maxRecDepth 2000 in
theorem noInner_sampleLeaves : NoInnerLeaf sampleLeaves (treeInputs sampleLeaves) := by
  rw [treeInputs_sampleLeaves]
  exact List.forall_mem_singleton.mpr (by decide)

def sampleService : TransparencyService :=
  ⟨txt "https://ts.texaegis.com/v1/scitt", ⟨.ed25519, [1], [1], txt "ts"⟩⟩

theorem receipts_complete_and_sound_sample : PathsSound sampleLeaves 1 :=
  ((receipts_complete_and_sound hashRuntime sampleService (hashProviders_own rfl) []).2.2 sampleLeaves 1
    (List.cons_ne_nil _ _) isDigest_sampleLeaves injOn_sampleLeaves noInner_sampleLeaves).mpr (by decide)

set_option maxRecDepth 2000 in
/-- The first leaf is also accepted at an index that the tree does not have. -/
theorem index_beyond_tree_accepted : ¬ PathsSound sampleLeaves 2 := by
  intro hsound
  have hpath : pathInputs (List.replicate 32 0xaa) 2 sampleLeaves.length [List.replicate 32 0x11] =
      treeInputs sampleLeaves := rfl
  have hinner : NoInnerLeaf (List.replicate 32 0xaa :: sampleLeaves) (treeInputs sampleLeaves) := by
    intro x hx hmem
    obtain heq | hmem := List.mem_cons.mp hmem
    · exact noInner_sampleLeaves x hx (heq ▸ List.mem_cons_self)
    · exact noInner_sampleLeaves x hx hmem
  obtain ⟨-, hhigh, -⟩ := hsound (List.replicate 32 0xaa)
    (nodeHash (List.replicate 32 0xaa) (List.replicate 32 0x11)) [List.replicate 32 0x11] List.length_replicate rfl
    (by simpa only [hpath, or_self] using injOn_sampleLeaves) hinner (hpath ▸ noInner_sampleLeaves)
    (by decide)
  exact absurd hhigh (by decide)

end TexGovernance.Vet
