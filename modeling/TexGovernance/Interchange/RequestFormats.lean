import TexGovernance.Interchange.NoteFormats
import TexGovernance.Interchange.Witness
import TexGovernance.Lib.PyRepr

/-!
# Reading a request to a witness

The body that the builder writes is taken apart again.
-/

namespace TexGovernance.Interchange
open PyStr PyBytes PyCodec Sha256 JsonLoads TexGovernance.Ecosystem
open PyRepr (Plain plain_of_utf8Encode utf8Encode_of_plain)

theorem cutLine_append {line : Str} (h : newline ∉ line) (rest : Str) :
    cutLine (line ++ newline :: rest) = some (line, rest) := by
  induction line with
  | nil => rw [List.nil_append, cutLine, if_pos rfl]
  | cons c line ih =>
    have hc : c ≠ newline := fun hc => h (by rw [hc]; exact List.mem_cons_self ..)
    rw [List.cons_append, cutLine, if_neg hc, ih fun hmem => h (List.mem_cons_of_mem _ hmem)]
    rfl

theorem b64encode_ne_nil (d : Digest) : (b64encode d.bytes).isEmpty = false := by
  rw [List.isEmpty_eq_false_iff]
  intro hnil
  have hdecode := b64decode_encode d.bytes
  rw [hnil] at hdecode
  have hlength := congrArg List.length (Option.some.inj hdecode)
  rw [d.length_eq] at hlength
  cases hlength

theorem parseProofLines_encoded (nodes : List Digest) (note : Str) {allowance : ℕ}
    (h : nodes.length ≤ allowance) :
    parseProofLines allowance (joinLines (nodes.map fun d => b64encode d.bytes) ++ newline :: note) =
      .ok (nodes.map fun d => hex d.bytes, note) := by
  induction nodes generalizing allowance with
  | nil =>
    unfold parseProofLines
    rfl
  | cons d nodes ih =>
    obtain ⟨allowance, rfl⟩ : ∃ k, allowance = k + 1 := by
      cases allowance with
      | zero => simp at h
      | succ k => exact ⟨k, rfl⟩
    have htext : joinLines ((d :: nodes).map fun d => b64encode d.bytes) ++ newline :: note =
        b64encode d.bytes ++ newline ::
          (joinLines (nodes.map fun d => b64encode d.bytes) ++ newline :: note) := by
      simp [joinLines]
    have hlength : nodes.length ≤ allowance := by
      simp only [List.length_cons] at h
      omega
    rw [htext, parseProofLines, cutLine_append (newline_not_mem_b64encode _)]
    simp only [b64encode_ne_nil, Bool.false_eq_true, if_false, b64decode_encode, ne_eq, d.length_eq,
      not_true_eq_false, ih hlength, List.map_cons]

def oldSizeLine (oldSize : ℕ) : Str := lit ['o', 'l', 'd', ' '] ++ natText oldSize

theorem buildAddCheckpointBody_ok_iff (oldSize : ℤ) (proofHex : List Str) (signedNote body : Str) :
    buildAddCheckpointBody oldSize proofHex signedNote = .ok body ↔
      0 ≤ oldSize ∧ oldSize.toNat < 10 ^ maxStrDigits ∧ ∃ nodes, decodeHashList proofHex = some nodes ∧
        body = joinLines (oldSizeLine oldSize.toNat :: nodes.map fun d => b64encode d.bytes) ++
          newline :: signedNote := by
  unfold buildAddCheckpointBody
  rw [← natText_short_iff]
  constructor
  · intro h
    split at h
    · cases h
    rename_i hnonneg
    cases hnodes : decodeHashList proofHex with
    | none =>
      rw [hnodes] at h
      cases h
    | some nodes =>
      rw [hnodes] at h
      obtain ⟨size, hsize, h⟩ := Pipeline.bind_ok h
      obtain ⟨hshort, rfl⟩ := (decimalText_ok_iff _ _).mp hsize
      refine ⟨by omega, hshort, nodes, rfl, ?_⟩
      rw [← Except.ok.inj h]
      simp [joinLines, oldSizeLine]
  · intro h
    obtain ⟨hnonneg, hshort, nodes, hnodes, hbody⟩ := h
    rw [if_neg (by omega), hnodes, hbody]
    simp only [(decimalText_ok_iff _ _).mpr ⟨hshort, rfl⟩, bind, Except.bind, pure, Except.pure]
    simp [joinLines, oldSizeLine]

theorem newline_not_mem_oldSizeLine (oldSize : ℕ) : newline ∉ oldSizeLine oldSize := by
  have hold : newline ∉ lit ['o', 'l', 'd', ' '] := by decide
  unfold oldSizeLine
  rw [List.mem_append, not_or]
  exact ⟨hold, newline_not_mem_natText oldSize⟩

theorem parse_built {oldSize : ℕ} (hshort : oldSize < 10 ^ maxStrDigits) {nodes : List Digest}
    (hnodes : nodes.length ≤ maxProofLines) (signedNote : Str) :
    parseAddCheckpointBody (joinLines (oldSizeLine oldSize :: nodes.map fun d => b64encode d.bytes) ++
        newline :: signedNote) =
      .ok (if signedNote.isEmpty then .error .noCheckpoint
        else .ok ⟨oldSize, nodes.map fun d => hex d.bytes, signedNote⟩) := by
  have htext : joinLines (oldSizeLine oldSize :: nodes.map fun d => b64encode d.bytes) ++
      newline :: signedNote = oldSizeLine oldSize ++ newline ::
        (joinLines (nodes.map fun d => b64encode d.bytes) ++ newline :: signedNote) := by
    simp [joinLines]
  have hstarts : (lit ['o', 'l', 'd', ' ']).isPrefixOf (oldSizeLine oldSize) = true := by
    rw [List.isPrefixOf_iff_prefix]
    exact List.prefix_append _ _
  have hsize : (oldSizeLine oldSize).drop 4 = natText oldSize := rfl
  unfold parseAddCheckpointBody
  rw [htext, cutLine_append (newline_not_mem_oldSizeLine oldSize)]
  simp only [hstarts, Bool.not_true, Bool.false_eq_true, if_false, hsize, isSizeText_natText,
    intOfDigits_natText ((natText_short_iff _).mpr hshort), parseProofLines_encoded nodes signedNote hnodes]
  split
  · rfl
  · rfl

theorem decodeHash_hex (d : Digest) : decodeHash (hex d.bytes) = some d := by
  unfold decodeHash
  rw [fromhex_hex]
  simp only [d.length_eq, dif_pos]

theorem decodeHashList_hex (nodes : List Digest) :
    decodeHashList (nodes.map fun d => hex d.bytes) = some nodes := by
  unfold decodeHashList
  rw [mapM_some_iff, List.forall₂_map_left_iff, List.forall₂_same]
  exact fun d _ => decodeHash_hex d

theorem body_round_trip_iff (oldSize : ℤ) {proofHex : List Str} (hproof : proofHex.length ≤ maxProofLines)
    (signedNote : Str) :
    (∃ body parsed, buildAddCheckpointBody oldSize proofHex signedNote = .ok body ∧
        parseAddCheckpointBody body = .ok (.ok parsed) ∧ (parsed.oldSize : ℤ) = oldSize ∧
        parsed.proof = proofHex ∧ parsed.signedNote = signedNote) ↔
      0 ≤ oldSize ∧ oldSize < 10 ^ maxStrDigits ∧
        (∃ nodes : List Digest, proofHex = nodes.map fun d => hex d.bytes) ∧ signedNote ≠ [] := by
  have hcast : ∀ {z : ℤ}, 0 ≤ z → (z.toNat < 10 ^ maxStrDigits ↔ z < 10 ^ maxStrDigits) := by
    intro z hz
    obtain ⟨n, rfl⟩ := Int.eq_ofNat_of_zero_le hz
    simp only [Int.toNat_natCast]
    exact_mod_cast Iff.rfl
  constructor
  · intro ⟨body, parsed, hbuild, hparse, _, hsame, hnote⟩
    obtain ⟨hnonneg, hshort, nodes, hnodes, rfl⟩ := (buildAddCheckpointBody_ok_iff _ _ _ _).mp hbuild
    have hlength : nodes.length ≤ maxProofLines := by
      unfold decodeHashList at hnodes
      rw [← ((mapM_some_iff _ _ _).mp hnodes).length_eq]
      exact hproof
    rw [parse_built hshort hlength] at hparse
    have hinner := Except.ok.inj hparse
    split at hinner
    · cases hinner
    · rename_i hne
      rw [List.isEmpty_iff] at hne
      refine ⟨hnonneg, (hcast hnonneg).mp hshort, ⟨nodes, ?_⟩, hne⟩
      rw [← hsame, ← Except.ok.inj hinner]
  · intro ⟨hnonneg, hshort, ⟨nodes, hnodes⟩, hne⟩
    have hlength : nodes.length ≤ maxProofLines := by
      rw [hnodes, List.length_map] at hproof
      exact hproof
    have hdecode : decodeHashList proofHex = some nodes := by
      rw [hnodes]
      exact decodeHashList_hex nodes
    refine ⟨_, ⟨oldSize.toNat, nodes.map fun d => hex d.bytes, signedNote⟩,
      (buildAddCheckpointBody_ok_iff _ _ _ _).mpr
        ⟨hnonneg, (hcast hnonneg).mpr hshort, nodes, hdecode, rfl⟩, ?_, ?_, hnodes.symm, rfl⟩
    · rw [parse_built ((hcast hnonneg).mpr hshort) hlength, if_neg]
      rw [List.isEmpty_iff]
      exact hne
    · simp only [Int.toNat_of_nonneg hnonneg]

/-- The size passes the digit test, and `int` does not take it. -/
def SizeRaises (body : Str) : Prop :=
  ∃ oldLine rest, cutLine body = some (oldLine, rest) ∧
    (lit ['o', 'l', 'd', ' ']).isPrefixOf oldLine = true ∧ isSizeText (oldLine.drop 4) = true ∧
    (maxStrDigits < (oldLine.drop 4).length ∨ ∃ c ∈ oldLine.drop 4, decimal? c = none)

theorem ok_not_raises {α : Type} (x : α) : ¬ ∃ e, (.ok x : Except PyErr α) = .error e := by
  simp

theorem intOfDigits_error_iff (s : Str) :
    (∃ e, intOfDigits s = .error e) ↔ maxStrDigits < s.length ∨ ∃ c ∈ s, decimal? c = none := by
  have hok := intOfDigits_ok_iff s
  rw [Bool.and_eq_true, decide_eq_true_eq, List.all_eq_true] at hok
  cases hint : intOfDigits s with
  | error e =>
    have hnot := mt hok.mpr (by rw [hint]; exact fun ⟨n, hn⟩ => by cases hn)
    rw [not_and_or, not_le] at hnot
    refine iff_of_true ⟨e, rfl⟩ (hnot.imp id fun hall => ?_)
    by_contra hsome
    refine hall fun c hc => Option.isSome_iff_ne_none.mpr fun hnone => hsome ⟨c, hc, hnone⟩
  | ok n =>
    obtain ⟨hshort, hall⟩ := hok.mp ⟨n, hint⟩
    refine iff_of_false (ok_not_raises _) ?_
    intro hraises
    rcases hraises with hlong | ⟨c, hc, hnone⟩
    · omega
    · have hsome := hall c hc
      rw [hnone] at hsome
      cases hsome

theorem parseAddCheckpointBody_error_iff (body : Str) :
    (∃ e, parseAddCheckpointBody body = .error e) ↔ SizeRaises body := by
  unfold parseAddCheckpointBody SizeRaises
  cases hcut : cutLine body with
  | none => exact iff_of_false (ok_not_raises _) fun ⟨_, _, h, _⟩ => by cases h
  | some r =>
    obtain ⟨oldLine, rest⟩ := r
    simp only [Option.some.injEq, Prod.mk.injEq]
    cases hold : (lit ['o', 'l', 'd', ' ']).isPrefixOf oldLine with
    | false =>
      refine iff_of_false (ok_not_raises _) ?_
      intro ⟨_, _, ⟨rfl, rfl⟩, hstarts, _⟩
      rw [hold] at hstarts
      cases hstarts
    | true =>
      cases hsize : isSizeText (oldLine.drop 4) with
      | false =>
        refine iff_of_false (ok_not_raises _) ?_
        intro ⟨_, _, ⟨rfl, rfl⟩, _, hdigits, _⟩
        rw [hsize] at hdigits
        cases hdigits
      | true =>
        have hraises := intOfDigits_error_iff (oldLine.drop 4)
        cases hint : intOfDigits (oldLine.drop 4) with
        | error e =>
          rw [hint] at hraises
          exact iff_of_true ⟨e, rfl⟩
            ⟨oldLine, rest, ⟨rfl, rfl⟩, hold, hsize, hraises.mp ⟨e, rfl⟩⟩
        | ok n =>
          refine iff_of_false ?_ ?_
          · intro ⟨e, he⟩
            simp only [Bool.not_true, Bool.false_eq_true, if_false] at he
            split at he
            · cases he
            · split at he
              · cases he
              · cases he
          · intro ⟨_, _, ⟨rfl, rfl⟩, _, _, hbad⟩
            obtain ⟨e, he⟩ := hraises.mpr hbad
            rw [hint] at he
            cases he

def reachesKey (name : Str) : List Str → Bool
  | [] => false
  | line :: lines =>
    match parseSignatureLine line with
    | none => false
    | some (signer, blob) =>
      if blob.length < 4 then false else if signer = name then true else reachesKey name lines

theorem keyId_error_iff (publicRaw algByte : Bytes) (s : Str) :
    (∃ e, ed25519KeyId s algByte publicRaw = .error e) ↔ ¬ Plain s := by
  unfold ed25519KeyId
  cases hencode : utf8Encode s with
  | error e =>
    refine iff_of_true ⟨e, rfl⟩ fun hplain => ?_
    obtain ⟨bs, hbs⟩ := utf8Encode_of_plain hplain
    rw [hencode] at hbs
    cases hbs
  | ok bs => exact iff_of_false (ok_not_raises _) (not_not.mpr (plain_of_utf8Encode hencode))

section Verify

variable {ed25519Verify : Bytes → Bytes → Bytes → Bool}

theorem verifyNamed_nil (message keyId signature : Bytes) :
    verifyNamed ed25519Verify message keyId signature [] = .ok (some []) := rfl

theorem verifyNamed_single (v : NoteVerifier) (message keyId signature : Bytes) :
    (∃ e, verifyNamed ed25519Verify message keyId signature [v] = .error e) ↔ ¬ Plain v.name := by
  rw [← keyId_error_iff v.publicKeyRaw noteAlgEd25519 v.name]
  unfold verifyNamed NoteVerifier.keyId
  cases hkey : ed25519KeyId v.name noteAlgEd25519 v.publicKeyRaw with
  | error e => exact iff_of_true ⟨e, rfl⟩ ⟨e, rfl⟩
  | ok known =>
    refine iff_of_false ?_ (ok_not_raises _)
    intro h
    obtain ⟨e, he⟩ := h
    simp only [verifyNamed_nil] at he
    split at he
    · cases he
    · split at he
      · cases he
      · cases he

theorem verifyLines_error_iff (v : NoteVerifier) (message : Bytes) (lines : List Str) :
    (∃ e, verifyLines ed25519Verify [v] message lines = .error e) ↔
      ¬ Plain v.name ∧ reachesKey v.name lines = true := by
  induction lines with
  | nil => exact iff_of_false (ok_not_raises _) fun h => by cases h.2
  | cons line lines ih =>
    rw [verifyLines, reachesKey]
    cases parseSignatureLine line with
    | none => exact iff_of_false (ok_not_raises _) fun h => by cases h.2
    | some r =>
      obtain ⟨signer, blob⟩ := r
      simp only
      by_cases hshort : blob.length < 4
      · rw [if_pos hshort, if_pos hshort]
        exact iff_of_false (ok_not_raises _) fun h => by cases h.2
      rw [if_neg hshort, if_neg hshort]
      by_cases hnamed : signer = v.name
      · have hfilter : [v].filter (fun v => v.name = signer) = [v] := by
          simp [hnamed]
        have hsingle := @verifyNamed_single ed25519Verify v message (blob.take 4) (blob.drop 4)
        rw [hfilter, if_pos hnamed]
        cases hres : verifyNamed ed25519Verify message (blob.take 4) (blob.drop 4) [v] with
        | error e =>
          rw [hres] at hsingle
          exact iff_of_true ⟨e, rfl⟩ ⟨hsingle.mp ⟨e, rfl⟩, rfl⟩
        | ok found =>
          rw [hres] at hsingle
          have hplain : Plain v.name := by
            by_contra hnot
            obtain ⟨e, he⟩ := hsingle.mpr hnot
            cases he
          refine iff_of_false ?_ fun h => h.1 hplain
          intro h
          obtain ⟨e, he⟩ := h
          cases found with
          | none => cases he
          | some names =>
            cases hrest : verifyLines ed25519Verify [v] message lines with
            | error e' => exact (ih.mp ⟨e', hrest⟩).1 hplain
            | ok rest =>
              rw [hrest] at he
              cases rest with
              | none => cases he
              | some more => cases he
      · have hfilter : [v].filter (fun v => v.name = signer) = [] := by
          have hne : v.name ≠ signer := fun heq => hnamed heq.symm
          simp [hne]
        rw [hfilter, if_neg hnamed, ← ih, verifyNamed_nil]
        cases hrest : verifyLines ed25519Verify [v] message lines with
        | error e => exact iff_of_true ⟨e, rfl⟩ ⟨e, rfl⟩
        | ok rest =>
          cases rest with
          | none => exact Iff.rfl
          | some more => exact iff_of_false (ok_not_raises _) (ok_not_raises _)

def VerifyRaises (v : NoteVerifier) (text : Str) (lines : List Str) : Prop :=
  ¬ Plain text ∨ ¬ Plain v.name ∧ reachesKey v.name lines = true

theorem verifyNote_error_iff (v : NoteVerifier) {signed text : Str} {lines : List Str}
    (h : splitSignedNote signed = .ok (text, lines)) :
    (∃ e, verifyNote ed25519Verify signed [v] = .error e) ↔ VerifyRaises v text lines := by
  unfold verifyNote VerifyRaises
  rw [h]
  simp only
  cases hencode : utf8Encode text with
  | error e =>
    refine iff_of_true ⟨e, rfl⟩ (.inl fun hplain => ?_)
    obtain ⟨bs, hbs⟩ := utf8Encode_of_plain hplain
    rw [hencode] at hbs
    cases hbs
  | ok message =>
    simp only
    have hplain := plain_of_utf8Encode hencode
    have hlines := @verifyLines_error_iff ed25519Verify v message lines
    cases hres : verifyLines ed25519Verify [v] message lines with
    | error e =>
      rw [hres] at hlines
      exact iff_of_true ⟨e, rfl⟩ (.inr (hlines.mp ⟨e, rfl⟩))
    | ok found =>
      rw [hres] at hlines
      have hquiet : ¬ (¬ Plain v.name ∧ reachesKey v.name lines = true) := fun hraises => by
        obtain ⟨e, he⟩ := hlines.mpr hraises
        cases he
      refine iff_of_false ?_ fun hraises => hraises.elim (fun hnot => hnot hplain) hquiet
      intro ⟨e, he⟩
      cases found with
      | none => cases he
      | some names => cases he

end Verify

theorem plain_decimalText {n : ℕ} {digits : Str} (h : decimalText n = .ok digits) : Plain digits := by
  rw [((decimalText_ok_iff _ _).mp h).2]
  exact JsonDoc.plain_natText n

theorem checkLatest_returns (entry : Option (ℕ × Digest)) (s : Submission) :
    ∃ answer, checkLatest entry s = .ok answer := by
  unfold checkLatest
  cases entry with
  | none =>
    simp only [Option.map_none]
    split
    · exact ⟨_, rfl⟩
    · rename_i hold
      rw [not_not] at hold
      rw [if_pos hold]
      repeat' split
      all_goals exact ⟨_, rfl⟩
  | some e =>
    simp only [Option.map_some]
    repeat' split
    all_goals exact ⟨_, rfl⟩

theorem cosign_error_iff (w : Witness) (clock : ℤ) {noteText : Str} (hplain : Plain noteText) :
    (∃ e, cosign w clock noteText = .error e) ↔ ¬ Plain w.name ∨ 2 ^ 64 ≤ clock := by
  obtain ⟨noteBytes, hnote⟩ := utf8Encode_of_plain hplain
  have hkey := keyId_error_iff w.publicRaw cosigAlgEd25519 w.name
  have hclock : 2 ^ 64 ≤ (max 1 clock).toNat ↔ 2 ^ 64 ≤ clock := by omega
  have hdesc : w.descriptor.keyId = ed25519KeyId w.name cosigAlgEd25519 w.publicRaw := rfl
  unfold cosign cosignatureMessage
  simp only [hdesc]
  by_cases hlarge : 2 ^ 64 ≤ clock
  · refine iff_of_true ?_ (.inr hlarge)
    cases hdigits : decimalText (max 1 clock).toNat with
    | error e => exact ⟨e, rfl⟩
    | ok digits =>
      obtain ⟨digitBytes, hdigitBytes⟩ := utf8Encode_of_plain (plain_decimalText hdigits)
      simp only [hdigitBytes, hnote, bind, Except.bind, pure, Except.pure]
      cases ed25519KeyId w.name cosigAlgEd25519 w.publicRaw with
      | error e => exact ⟨e, rfl⟩
      | ok keyId =>
        simp only
        rw [if_pos (hclock.mpr hlarge)]
        exact ⟨_, rfl⟩
  · have hshort : (max 1 clock).toNat < 10 ^ maxStrDigits := by
      have hbound : (max 1 clock).toNat < 2 ^ 64 := not_le.mp (mt hclock.mp hlarge)
      have hpow : (2 : ℕ) ^ 64 ≤ 10 ^ 20 := by norm_num
      have hmore : (10 : ℕ) ^ 20 ≤ 10 ^ maxStrDigits := Nat.pow_le_pow_right (by decide) (by decide)
      omega
    have hdigits := (decimalText_ok_iff _ _).mpr ⟨(natText_short_iff _).mpr hshort, rfl⟩
    obtain ⟨digitBytes, hdigitBytes⟩ := utf8Encode_of_plain (plain_decimalText hdigits)
    simp only [hdigits, hdigitBytes, hnote, bind, Except.bind, pure, Except.pure]
    cases hid : ed25519KeyId w.name cosigAlgEd25519 w.publicRaw with
    | error e =>
      rw [hid] at hkey
      exact iff_of_true ⟨e, rfl⟩ (.inl (hkey.mp ⟨e, rfl⟩))
    | ok keyId =>
      rw [hid] at hkey
      simp only
      rw [if_neg (mt hclock.mp hlarge)]
      refine iff_of_false (ok_not_raises _) fun hraises => ?_
      rcases hraises with hname | hlarge'
      · obtain ⟨e, he⟩ := hkey.mpr hname
        cases he
      · exact hlarge hlarge'

structure Answerable (ed25519Verify : Bytes → Bytes → Bytes → Bool) (w : Witness) (latest : Latest)
    (clock : ℤ) (body : Str) : Prop where
  size : ¬ SizeRaises body
  note : ∀ parsed text lines checkpoint logVerifier,
    parseAddCheckpointBody body = .ok (.ok parsed) →
    splitSignedNote parsed.signedNote = .ok (text, lines) → Checkpoint.parse text = .ok checkpoint →
    w.trustedLogs.lookup checkpoint.origin = some logVerifier → ¬ VerifyRaises logVerifier text lines
  cosigner : ∀ s, receive ed25519Verify w body = .ok (.ok s) →
    checkLatest (latest s.checkpoint.origin) s = .ok none → Plain w.name ∧ clock < 2 ^ 64

section Answers

variable {ed25519Verify : Bytes → Bytes → Bytes → Bool} {w : Witness} {body : Str}

theorem receive_error_iff : (∃ e, receive ed25519Verify w body = .error e) ↔
    SizeRaises body ∨ ∃ parsed text lines checkpoint logVerifier,
      parseAddCheckpointBody body = .ok (.ok parsed) ∧
      splitSignedNote parsed.signedNote = .ok (text, lines) ∧ Checkpoint.parse text = .ok checkpoint ∧
      w.trustedLogs.lookup checkpoint.origin = some logVerifier ∧
      VerifyRaises logVerifier text lines := by
  have hsize := parseAddCheckpointBody_error_iff body
  unfold receive
  cases hparse : parseAddCheckpointBody body with
  | error e =>
    rw [hparse] at hsize
    exact iff_of_true ⟨e, rfl⟩ (.inl (hsize.mp ⟨e, rfl⟩))
  | ok outcome =>
    have hquiet : ¬ SizeRaises body := fun hraises => by
      obtain ⟨e, he⟩ := hsize.mpr hraises
      rw [hparse] at he
      cases he
    rw [or_iff_right hquiet]
    cases outcome with
    | error e =>
      exact iff_of_false (ok_not_raises _) fun ⟨_, _, _, _, _, h, _⟩ => by cases h
    | ok parsed =>
      simp only [Except.ok.injEq]
      cases hsplit : splitSignedNote parsed.signedNote with
      | error e =>
        refine iff_of_false (ok_not_raises _) ?_
        intro ⟨_, _, _, _, _, hsame, h, _⟩
        rw [← hsame, hsplit] at h
        cases h
      | ok r =>
        obtain ⟨text, lines⟩ := r
        simp only
        cases hcheckpoint : Checkpoint.parse text with
        | error e =>
          refine iff_of_false (ok_not_raises _) ?_
          intro ⟨_, _, _, _, _, hsame, h, hread, _⟩
          rw [← hsame, hsplit] at h
          obtain ⟨rfl, rfl⟩ := Prod.mk.inj (Except.ok.inj h)
          rw [hcheckpoint] at hread
          cases hread
        | ok checkpoint =>
          simp only
          have hunique : ∀ {v}, w.trustedLogs.lookup checkpoint.origin = some v →
              ((∃ parsed' text' lines' checkpoint' logVerifier, parsed = parsed' ∧
                splitSignedNote parsed'.signedNote = .ok (text', lines') ∧
                Checkpoint.parse text' = .ok checkpoint' ∧
                w.trustedLogs.lookup checkpoint'.origin = some logVerifier ∧
                VerifyRaises logVerifier text' lines') ↔ VerifyRaises v text lines) := by
            intro v hv
            constructor
            · intro ⟨_, _, _, _, _, hsame, h, hread, hlookup, hraises⟩
              rw [← hsame, hsplit] at h
              obtain ⟨rfl, rfl⟩ := Prod.mk.inj (Except.ok.inj h)
              rw [hcheckpoint] at hread
              obtain rfl := Except.ok.inj hread
              rw [hv] at hlookup
              obtain rfl := Option.some.inj hlookup
              exact hraises
            · exact fun hraises =>
                ⟨parsed, text, lines, checkpoint, v, rfl, hsplit, hcheckpoint, hv, hraises⟩
          cases hlookup : w.trustedLogs.lookup checkpoint.origin with
          | none =>
            refine iff_of_false (ok_not_raises _) ?_
            intro ⟨_, _, _, _, _, hsame, h, hread, hfound, _⟩
            rw [← hsame, hsplit] at h
            obtain ⟨rfl, rfl⟩ := Prod.mk.inj (Except.ok.inj h)
            rw [hcheckpoint] at hread
            obtain rfl := Except.ok.inj hread
            rw [hlookup] at hfound
            cases hfound
          | some logVerifier =>
            rw [hunique hlookup, ← @verifyNote_error_iff ed25519Verify logVerifier _ _ _ hsplit]
            simp only
            cases hverify : verifyNote ed25519Verify parsed.signedNote [logVerifier] with
            | error e => exact iff_of_true ⟨e, rfl⟩ ⟨e, rfl⟩
            | ok names =>
              refine iff_of_false ?_ (ok_not_raises _)
              intro ⟨e, he⟩
              cases names with
              | nil => cases he
              | cons name names =>
                simp only at he
                split at he
                · cases he
                · cases he

theorem receive_plain {s : Submission} (h : receive ed25519Verify w body = .ok (.ok s)) :
    Plain s.noteText := by
  unfold receive at h
  split at h
  · cases h
  · cases h
  split at h
  · cases h
  rename_i noteText lines hsplit
  split at h
  · cases h
  split at h
  · cases h
  rename_i logVerifier hlookup
  split at h
  · cases h
  · cases h
  rename_i names hverify
  split at h
  · obtain rfl := Except.ok.inj (Except.ok.inj h)
    by_contra hnot
    obtain ⟨e, he⟩ := (@verifyNote_error_iff ed25519Verify logVerifier _ _ _ hsplit).mpr
      (.inl hnot)
    rw [hverify] at he
    cases he
  · cases h

theorem addCheckpoint_returns_iff (latest : Latest) (clock : ℤ) :
    (∃ response, (addCheckpoint ed25519Verify w latest clock body).2 = .ok response) ↔
      Answerable ed25519Verify w latest clock body := by
  have hreceive := @receive_error_iff ed25519Verify w body
  unfold addCheckpoint
  cases hres : receive ed25519Verify w body with
  | error e =>
    refine iff_of_false (fun ⟨r, hr⟩ => by cases hr) fun hanswers => ?_
    rcases hreceive.mp ⟨e, hres⟩ with hsize |
      ⟨parsed, text, lines, checkpoint, logVerifier, hparse, hsplit, hread, hlookup, hraises⟩
    · exact hanswers.size hsize
    · exact hanswers.note parsed text lines checkpoint logVerifier hparse hsplit hread hlookup hraises
  | ok outcome =>
    rw [hres] at hreceive
    have hquiet := mt hreceive.mpr (ok_not_raises _)
    rw [not_or] at hquiet
    have hnote : ∀ parsed text lines checkpoint logVerifier,
        parseAddCheckpointBody body = .ok (.ok parsed) →
        splitSignedNote parsed.signedNote = .ok (text, lines) →
        Checkpoint.parse text = .ok checkpoint →
        w.trustedLogs.lookup checkpoint.origin = some logVerifier →
        ¬ VerifyRaises logVerifier text lines :=
      fun parsed text lines checkpoint logVerifier hparse hsplit hread hlookup hraises =>
        hquiet.2 ⟨parsed, text, lines, checkpoint, logVerifier, hparse, hsplit, hread, hlookup, hraises⟩
    cases outcome with
    | error refusal =>
      refine iff_of_true ⟨refusal, rfl⟩ ⟨hquiet.1, hnote, fun s hs => ?_⟩
      rw [hres] at hs
      cases hs
    | ok s =>
      obtain ⟨answer, hanswer⟩ := checkLatest_returns (latest s.checkpoint.origin) s
      simp only [hanswer]
      cases answer with
      | some refusal =>
        refine iff_of_true ⟨refusal, rfl⟩ ⟨hquiet.1, hnote, fun s' hs' hadmits => ?_⟩
        rw [hres] at hs'
        obtain rfl := Except.ok.inj (Except.ok.inj hs')
        rw [hanswer] at hadmits
        cases hadmits
      | none =>
        have hcosign := cosign_error_iff w clock (receive_plain hres)
        cases hline : cosign w clock s.noteText with
        | error e =>
          refine iff_of_false (fun ⟨r, hr⟩ => by cases hr) fun hanswers => ?_
          obtain ⟨hname, hclock⟩ := hanswers.cosigner s hres hanswer
          rcases hcosign.mp ⟨e, hline⟩ with hnot | hlarge
          · exact hnot hname
          · exact absurd hclock (not_lt.mpr hlarge)
        | ok line =>
          rw [hline] at hcosign
          have hsafe := mt hcosign.mpr (ok_not_raises _)
          rw [not_or, not_not, not_le] at hsafe
          exact iff_of_true ⟨_, rfl⟩ ⟨hquiet.1, hnote, fun _ _ _ => hsafe⟩

end Answers

/-- A built body is read back exactly when its parts are written as the parser
writes them, and a call returns exactly when nothing in it raises. -/
theorem witness_requests_iff (ed25519Verify : Bytes → Bytes → Bytes → Bool) :
    (∀ (oldSize : ℤ) (proofHex : List Str), proofHex.length ≤ 63 → ∀ signedNote,
      (∃ body parsed, buildAddCheckpointBody oldSize proofHex signedNote = .ok body ∧
        parseAddCheckpointBody body = .ok (.ok parsed) ∧ (parsed.oldSize : ℤ) = oldSize ∧
        parsed.proof = proofHex ∧ parsed.signedNote = signedNote) ↔
      0 ≤ oldSize ∧ oldSize < 10 ^ maxStrDigits ∧
        (∃ nodes : List Digest, proofHex = nodes.map fun d => hex d.bytes) ∧ signedNote ≠ []) ∧
    (∀ w latest clock body,
      (∃ response, (addCheckpoint ed25519Verify w latest clock body).2 = .ok response) ↔
        Answerable ed25519Verify w latest clock body) :=
  ⟨fun oldSize _ hproof signedNote => body_round_trip_iff oldSize hproof signedNote,
    fun _ latest clock _ => addCheckpoint_returns_iff latest clock⟩

theorem idleName_ok : txt "witness" ≠ [] ∧ newline ∉ txt "witness" := by decide

theorem inProcess_ne_external : WitnessProvenance.inProcess ≠ .externalFederated := by decide

theorem idleKey_length : (List.replicate 32 (0 : Byte)).length = 32 := rfl

def idleWitness : Witness where
  name := txt "witness"
  trustedLogs := []
  provenance := .inProcess
  publicRaw := List.replicate 32 0
  sign := id
  name_ok := idleName_ok
  not_external := inProcess_ne_external
  key_length := idleKey_length

theorem witness_requests_sample :
    (∃ body parsed, buildAddCheckpointBody 3 [] (txt "note") = .ok body ∧
      parseAddCheckpointBody body = .ok (.ok parsed) ∧ (parsed.oldSize : ℤ) = 3 ∧
      parsed.proof = [] ∧ parsed.signedNote = txt "note") ∧
    ∃ response, (addCheckpoint (fun _ _ _ => false) idleWitness (fun _ => none) 1 (txt "new 3")).2 =
      .ok response := by
  obtain ⟨hround, hreturns⟩ := witness_requests_iff fun _ _ _ => false
  have hshort : (3 : ℤ) < 10 ^ maxStrDigits := by
    have hpow : (10 : ℤ) ^ 1 ≤ 10 ^ maxStrDigits := pow_le_pow_right₀ (by decide) (by decide)
    omega
  refine ⟨(hround 3 [] (by decide) (txt "note")).mpr ⟨by decide, hshort, ⟨[], rfl⟩, by decide⟩,
    (hreturns idleWitness _ 1 (txt "new 3")).mpr ⟨?_, ?_, ?_⟩⟩
  · intro ⟨_, _, hcut, _⟩
    have hnone : cutLine (txt "new 3") = none := by decide
    rw [hnone] at hcut
    cases hcut
  · intro parsed text lines checkpoint logVerifier _ _ _ hlookup
    cases hlookup
  · intro s _ _
    exact ⟨by decide, by decide⟩

/-- `"²".isdigit()` holds and `int("²")` raises. -/
theorem superscript_size_raises :
    (addCheckpoint (fun _ _ _ => false) idleWitness (fun _ => none) 1
      (txt "old ²" ++ [newline, newline] ++ txt "note")).2 = .error .valueError := by
  decide

end TexGovernance.Interchange
